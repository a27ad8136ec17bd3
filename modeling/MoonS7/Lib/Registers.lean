import Mathlib.Tactic.Common

/-!
# Writes that may be cut short

A write gives values to some addresses. One that fails may have given any part of them; one that
succeeds has given all. After any number of writes an address holds the value of the last write that
succeeded there, or of one that failed there since (`Writes.mayHold`); so a write that succeeds after
any number of failures leaves what it would have left at once (`Writes.retried`).
-/

namespace Registers

variable {A V : Type}

/-- The values a write gives, and whether it succeeded. -/
structure Write (A V : Type) where
  value : A → Option V
  ok : Bool

/-- A write from `m` to `m'`: where it did not take place, `m'` holds what `m` did. -/
structure Write.Step (w : Write A V) (m m' : A → V) : Prop where
  part : ∀ a, m' a = m a ∨ w.value a = some (m' a)
  all : w.ok = true → ∀ a v, w.value a = some v → m' a = v

/-- Writes one after the other; the list begins with the last. -/
inductive Writes (m : A → V) : List (Write A V) → (A → V) → Prop where
  | nil : Writes m [] m
  | snoc {ws : List (Write A V)} {w : Write A V} {m' m'' : A → V} (h : Writes m ws m')
      (hw : w.Step m' m'') : Writes m (w :: ws) m''

/-- The values that an address may hold after the writes: it is not below a write that succeeded. -/
def MayHold (m : A → V) : List (Write A V) → A → V → Prop
  | [], a, v => v = m a
  | w :: ws, a, v => w.value a = some v ∨ (w.ok = true → w.value a = none) ∧ MayHold m ws a v

/-- **After any number of writes** an address holds a value it may hold. -/
theorem Writes.mayHold {m m' : A → V} {ws : List (Write A V)} (h : Writes m ws m') (a : A) :
    MayHold m ws a (m' a) := by
  induction h with
  | nil => rfl
  | @snoc ws w m₁ m₂ _ hw ih =>
    by_cases hval : w.value a = some (m₂ a)
    · exact Or.inl hval
    have hold : m₂ a = m₁ a := (hw.part a).resolve_right hval
    refine Or.inr ⟨fun hok => ?_, by rw [hold]; exact ih⟩
    cases hv : w.value a with
    | none => rfl
    | some v => exact absurd (by rw [hv, hw.all hok a v hv]) hval

/-- An address that no write covers holds what it held. -/
theorem MayHold.untouched {m : A → V} {ws : List (Write A V)} {a : A} {v : V} (h : MayHold m ws a v)
    (hws : ∀ w ∈ ws, w.value a = none) : v = m a := by
  induction ws with
  | nil => exact h
  | cons w ws ih =>
    obtain ⟨hw, hws⟩ := List.forall_mem_cons.mp hws
    rcases h with h | ⟨-, h⟩
    · cases hw.symm.trans h
    · exact ih h hws

/-- An address that a write has covered, and none since, holds the value of that write. -/
theorem MayHold.last {m : A → V} {ws ws' : List (Write A V)} {w : Write A V} {a : A} {v u : V}
    (h : MayHold m (ws ++ w :: ws') a v) (hws : ∀ w ∈ ws, w.value a = none) (hok : w.ok = true)
    (hu : w.value a = some u) : v = u := by
  induction ws with
  | nil =>
    rcases h with h | ⟨hn, -⟩
    · exact Option.some.inj (h.symm.trans hu)
    · cases (hn hok).symm.trans hu
  | cons x ws ih =>
    obtain ⟨hx, hws⟩ := List.forall_mem_cons.mp hws
    rcases h with h | ⟨-, h⟩
    · cases hx.symm.trans h
    · exact ih h hws

/-- **A write that is made again until it succeeds** leaves what it leaves if it succeeds at once,
    also if others that give no value come between. -/
theorem Writes.retried {m m' : A → V} {ws : List (Write A V)} {w : Write A V}
    (h : Writes m (w :: ws) m') (hok : w.ok = true)
    (hws : ∀ x ∈ ws, x.value = w.value ∨ ∀ a, x.value a = none) (a : A) :
    m' a = (w.value a).getD (m a) := by
  have hmay := h.mayHold a
  cases hv : w.value a with
  | some v =>
    have hlast : MayHold m ([] ++ w :: ws) a (m' a) := hmay
    exact hlast.last nofun hok hv
  | none =>
    show m' a = m a
    refine hmay.untouched fun x hx => ?_
    rcases List.mem_cons.mp hx with rfl | hx
    · exact hv
    · rcases hws x hx with h | h
      · rw [h, hv]
      · exact h a

end Registers
