import Mathlib.Tactic.Common

/-!
# Loops that may run for ever

A `while` loop has no bound that its text shows. Here a computation is given fuel: with `n` units
it answers `some a`, or `none` when they do not suffice. `Returns f a` -- from some amount of fuel
on the answer is `a` -- and `Diverges f` -- no amount suffices -- do not speak of fuel any more.

Main results: `returns_whileLoop`, the rule of total correctness (an invariant that every round
keeps and a variant that every round lowers), `diverges_whileLoop`, its opposite (an invariant that
never lets the condition fail), and `whileLoop_map`: a loop whose rounds are those of another.
-/

namespace Loops

variable {α β σ : Type}

/-- With enough fuel the answer is `a`. -/
def Returns (f : Nat → Option α) (a : α) : Prop := ∃ k, ∀ n, k ≤ n → f n = some a

def Terminates (f : Nat → Option α) : Prop := ∃ a, Returns f a

/-- No amount of fuel suffices. -/
def Diverges (f : Nat → Option α) : Prop := ∀ n, f n = none

/-- `while c(s) { s = b(s) }` from `s`, with at most `n` tests of the condition. -/
def whileLoop (c : σ → Bool) (b : σ → σ) : Nat → σ → Option σ
  | 0, _ => none
  | n + 1, s => if c s then whileLoop c b n (b s) else some s

/-! ## 1. What a computation returns -/

section Returns

variable {f : Nat → Option α} {g : α → Nat → Option β} {a a' : α} {b : β}

/-- A computation returns at most one answer. -/
theorem Returns.unique (h : Returns f a) (h' : Returns f a') : a = a' := by
  obtain ⟨k, hk⟩ := h
  obtain ⟨k', hk'⟩ := h'
  have e := hk (max k k') (Nat.le_max_left k k')
  rw [hk' (max k k') (Nat.le_max_right k k')] at e
  exact (Option.some.inj e).symm

theorem Diverges.not_terminates (hd : Diverges f) : ¬ Terminates f := by
  intro h
  obtain ⟨a, k, hk⟩ := h
  have e := hk k (Nat.le_refl k)
  rw [hd k] at e
  cases e

theorem returns_some (a : α) : Returns (fun _ => some a) a := ⟨0, fun _ _ => rfl⟩

/-- One computation after the other. -/
theorem Returns.bind (hf : Returns f a) (hg : Returns (g a) b) :
    Returns (fun n => f n >>= fun x => g x n) b := by
  obtain ⟨k, hk⟩ := hf
  obtain ⟨k', hk'⟩ := hg
  refine ⟨max k k', fun n hn => ?_⟩
  have hfn := hk n (Nat.le_trans (Nat.le_max_left k k') hn)
  have hgn := hk' n (Nat.le_trans (Nat.le_max_right k k') hn)
  show (f n).bind (fun x => g x n) = some b
  rw [hfn, Option.bind_some, hgn]

theorem Diverges.bind (hf : Diverges f) : Diverges (fun n => f n >>= fun x => g x n) := by
  intro n
  show (f n).bind (fun x => g x n) = none
  rw [hf n, Option.bind_none]

end Returns

/-! ## 2. The rules of the loop -/

section While

variable {c : σ → Bool} {b : σ → σ} {s t : σ}

theorem returns_whileLoop_exit (h : c s = false) : Returns (whileLoop c b · s) s := by
  refine ⟨1, fun n hn => ?_⟩
  obtain ⟨m, rfl⟩ := Nat.exists_eq_add_of_le' hn
  show (if c s then whileLoop c b m (b s) else some s) = some s
  rw [h]
  rfl

theorem returns_whileLoop_round (h : c s = true) (hr : Returns (whileLoop c b · (b s)) t) :
    Returns (whileLoop c b · s) t := by
  obtain ⟨k, hk⟩ := hr
  refine ⟨k + 1, fun n hn => ?_⟩
  obtain ⟨m, rfl⟩ := Nat.exists_eq_add_of_le' (Nat.le_trans (Nat.le_add_left 1 k) hn)
  show (if c s then whileLoop c b m (b s) else some s) = some t
  rw [if_pos h]
  exact hk m (by omega)

/-- **Total correctness.** Where every round keeps the invariant `I` and lowers the variant `μ`,
    the loop comes to its exit, and the invariant holds there. -/
theorem returns_whileLoop (I : σ → Prop) (μ : σ → Nat)
    (round : ∀ s, I s → c s = true → I (b s) ∧ μ (b s) < μ s) (h : I s) :
    ∃ t, Returns (whileLoop c b · s) t ∧ I t ∧ c t = false := by
  -- by induction on the variant
  generalize hm : μ s = m
  induction m using Nat.strongRecOn generalizing s with
  | ind m ih =>
    cases hc : c s with
    | false => exact ⟨s, returns_whileLoop_exit hc, h, hc⟩
    | true =>
      obtain ⟨hI, hμ⟩ := round s h hc
      obtain ⟨t, ht, hIt, hct⟩ := ih (μ (b s)) (by omega) hI rfl
      exact ⟨t, returns_whileLoop_round hc ht, hIt, hct⟩

/-- **A loop that never ends**: every round keeps an invariant under which the condition holds. -/
theorem diverges_whileLoop (I : σ → Prop) (round : ∀ s, I s → c s = true ∧ I (b s)) (h : I s) :
    Diverges (whileLoop c b · s) := by
  intro n
  induction n generalizing s with
  | zero => rfl
  | succ n ih =>
    obtain ⟨hc, hI⟩ := round s h
    show (if c s then whileLoop c b n (b s) else some s) = none
    rw [if_pos hc]
    exact ih hI

/-- **A loop seen through `f`**: where an invariant holds, its rounds are those of another loop. -/
theorem whileLoop_map {τ : Type} {c' : τ → Bool} {b' : τ → τ} (f : σ → τ) (I : σ → Prop)
    (cond : ∀ s, I s → c s = c' (f s)) (round : ∀ s, I s → c s = true → I (b s) ∧ f (b s) = b' (f s))
    (h : I s) (n : Nat) : (whileLoop c b n s).map f = whileLoop c' b' n (f s) ∧
      ∀ t, whileLoop c b n s = some t → I t := by
  induction n generalizing s with
  | zero => exact ⟨rfl, nofun⟩
  | succ n ih =>
    rw [whileLoop, whileLoop, ← cond s h]
    cases hc : c s with
    | false =>
      refine ⟨rfl, fun t ht => ?_⟩
      cases ht
      exact h
    | true =>
      obtain ⟨hI, hf⟩ := round s h hc
      obtain ⟨heq, hall⟩ := ih hI
      exact ⟨heq.trans (congrArg (whileLoop c' b' n) hf), hall⟩

end While

end Loops
