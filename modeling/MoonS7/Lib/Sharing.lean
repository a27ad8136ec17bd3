import Mathlib.Data.Finset.Dedup
import Mathlib.Data.Fintype.Defs
import Mathlib.Logic.Relation
import MoonS7.Lib.Interaction

/-!
# Programs that share an environment

A family of programs runs over one environment: at any point any program that is not done may make
its next call (`Turn`). Where the calls of a program see and change a part of the environment that
the calls of the others leave alone, the program does what it does alone, however the calls of all
of them are interleaved (`Turns.alone`).
-/

namespace Sharing

open Interaction

/-- The environment, and what each program has left to do. -/
structure Shared (ι E : Type) (R : E → Type) (α σ : Type) where
  env : σ
  left : ι → Prog E R α

variable {ι E : Type} [DecidableEq ι] {R : E → Type} {α σ τ : Type}

/-- One of the programs makes its next call; `h i` is the environment as the program `i` finds it. -/
inductive Turn (h : ι → (e : E) → σ → R e × σ) : Shared ι E R α σ → Shared ι E R α σ → Prop where
  | call {S : Shared ι E R α σ} {i : ι} {e : E} {k : R e → Prog E R α} (hi : S.left i = .ask e k) :
      Turn h S ⟨(h i e S.env).2, Function.update S.left i (k (h i e S.env).1)⟩

/-- Any number of calls, in any order. -/
abbrev Turns (h : ι → (e : E) → σ → R e × σ) : Shared ι E R α σ → Shared ι E R α σ → Prop :=
  Relation.ReflTransGen (Turn h)

variable {h : ι → (e : E) → σ → R e × σ} {S S' : Shared ι E R α σ}

/-- The calls of each program are among its own. -/
def Own (own : ι → E → Prop) (S : Shared ι E R α σ) : Prop := ∀ i, Asks (own i) (S.left i)

/-- The call of a program, and what is left of the programs after it. -/
theorem Own.turn {own : ι → E → Prop} (hS : Own own S) {i : ι} {e : E} {k : R e → Prog E R α}
    (hi : S.left i = .ask e k) (r : R e) :
    own i e ∧ ∀ s, Own own (⟨s, Function.update S.left i (k r)⟩ : Shared ι E R α σ) := by
  have hask := hS i
  rw [hi] at hask
  cases hask with
  | ask he hk =>
    refine ⟨he, fun s j => ?_⟩
    show Asks (own j) (Function.update S.left i (k r) j)
    by_cases hj : j = i
    · subst hj
      rw [Function.update_self]
      exact hk r
    · rw [Function.update_of_ne hj]
      exact hS j

/-- **The invariant rule**: what every own call of every program preserves, every run does. -/
theorem Turns.invariant {own : ι → E → Prop} {I : σ → Prop}
    (hI : ∀ i e s, own i e → I s → I (h i e s).2) (hS : Own own S) (h0 : I S.env)
    (ht : Turns h S S') : Own own S' ∧ I S'.env := by
  induction ht with
  | refl => exact ⟨hS, h0⟩
  | tail _ hs ih =>
    cases hs with
    | @call i e k hi =>
      obtain ⟨he, hown⟩ := ih.1.turn hi _
      exact ⟨hown _, hI i e _ he ih.2⟩

/-- What a program sees of the environment, `agree`, is all its calls depend on; `alone` is an
    environment of its own in which they do the same. -/
structure Isolated (h : ι → (e : E) → σ → R e × σ) (alone : (e : E) → τ → R e × τ)
    (own : ι → E → Prop) (agree : ι → σ → τ → Prop) : Prop where
  reply : ∀ {i e s t}, own i e → agree i s t → (h i e s).1 = (alone e t).1
  self : ∀ {i e s t}, own i e → agree i s t → agree i (h i e s).2 (alone e t).2
  other : ∀ {i j e s t}, j ≠ i → own j e → agree i s t → agree i (h j e s).2 t

/-- **Isolated programs do what they do alone**: at every point of every interleaving, what a
    program has left to do comes, alone, to what the whole program comes to alone. -/
theorem Turns.alone {alone : (e : E) → τ → R e × τ} {own : ι → E → Prop} {agree : ι → σ → τ → Prop}
    (hiso : Isolated h alone own agree) (hS : Own own S) (ht : Turns h S S') {i : ι} {t : τ}
    (hagree : agree i S.env t) :
    ∃ t', agree i S'.env t' ∧ run alone (S'.left i) t' = run alone (S.left i) t := by
  suffices hall : Own own S' ∧
      ∃ t', agree i S'.env t' ∧ run alone (S'.left i) t' = run alone (S.left i) t from hall.2
  induction ht with
  | refl => exact ⟨hS, t, hagree, rfl⟩
  | @tail S₁ S₂ _ hs ih =>
    obtain ⟨hown, t₁, hag, hrun⟩ := ih
    cases hs with
    | @call j e k hj =>
      obtain ⟨he, hown'⟩ := hown.turn hj (h j e S₁.env).1
      refine ⟨hown' _, ?_⟩
      by_cases hij : j = i
      · -- the program's own call, made alone as well
        subst hij
        refine ⟨_, hiso.self he hag, ?_⟩
        rw [← hrun, hj]
        show run alone (Function.update S₁.left j _ j) _ = _
        rw [Function.update_self, run_ask, hiso.reply he hag]
      · refine ⟨t₁, hiso.other hij he hag, ?_⟩
        show run alone (Function.update S₁.left j _ i) _ = _
        rw [Function.update_of_ne (Ne.symm hij)]
        exact hrun

/-- A program that is done has returned what it returns alone. -/
theorem Turns.returns {alone : (e : E) → τ → R e × τ} {own : ι → E → Prop}
    {agree : ι → σ → τ → Prop} (hiso : Isolated h alone own agree) (hS : Own own S)
    (ht : Turns h S S') {i : ι} {t : τ} (hagree : agree i S.env t) {a : α}
    (hdone : S'.left i = .ret a) :
    (run alone (S.left i) t).1 = a ∧ agree i S'.env (run alone (S.left i) t).2 := by
  obtain ⟨t', hag, hrun⟩ := ht.alone hiso hS hagree
  rw [← hrun, hdone]
  exact ⟨rfl, hag⟩

/-- A program can be run to its end while the others wait. -/
theorem exists_done (i : ι) (S : Shared ι E R α σ) :
    ∃ S', Turns h S S' ∧ (∃ a, S'.left i = .ret a) ∧ ∀ j, j ≠ i → S'.left j = S.left j := by
  obtain ⟨env, left⟩ := S
  generalize hp : left i = p
  induction p generalizing env left with
  | ret a => exact ⟨_, .refl, ⟨a, hp⟩, fun _ _ => rfl⟩
  | ask e k ih =>
    have hturn : Turn h ⟨env, left⟩ ⟨(h i e env).2, Function.update left i (k (h i e env).1)⟩ :=
      .call hp
    obtain ⟨S', ht, hdone, hrest⟩ := ih _ _ _ (Function.update_self i _ left)
    exact ⟨S', .head hturn ht, hdone, fun j hj => (hrest j hj).trans (Function.update_of_ne hj _ _)⟩

/-- **All programs can be run to their ends**: no order of calls blocks another. -/
theorem exists_all_done [Fintype ι] (S : Shared ι E R α σ) :
    ∃ S', Turns h S S' ∧ ∀ i, ∃ a, S'.left i = .ret a := by
  suffices hl : ∀ l : List ι, ∃ S', Turns h S S' ∧ ∀ i ∈ l, ∃ a, S'.left i = .ret a by
    obtain ⟨S', ht, hall⟩ := hl Finset.univ.toList
    exact ⟨S', ht, fun i => hall i (Finset.mem_toList.mpr (Finset.mem_univ i))⟩
  intro l
  induction l with
  | nil => exact ⟨S, .refl, nofun⟩
  | cons i l ih =>
    obtain ⟨S₁, h₁, hall⟩ := ih
    obtain ⟨S₂, h₂, hdone, hrest⟩ := exists_done (h := h) i S₁
    refine ⟨S₂, h₁.trans h₂, fun j hj => ?_⟩
    by_cases hji : j = i
    · subst hji
      exact hdone
    · rw [hrest j hji]
      exact hall j ((List.mem_cons.mp hj).resolve_left hji)

end Sharing
