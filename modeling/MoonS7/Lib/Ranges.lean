import Mathlib.Data.PNat.Basic
import Mathlib.Data.List.Forall2
import Mathlib.Tactic.Common

/-!
# Ranges of a memory, and cutting them into pieces

A memory is a function on offsets. `window` reads a range of it, `splice` overwrites one. `cuts`
cuts a range into pieces of a bounded size, and `Tiles` says that a list of pieces covers a range
end to end.
-/

namespace Ranges

variable {α : Type}

/-! ## 1. Reading and overwriting a range -/

/-- The `n` values of `m` from offset `s` on. -/
def window (m : Nat → α) (s n : Nat) : List α := (List.range n).map fun i => m (s + i)

/-- The memory `m` with the values from offset `s` on replaced by `l`. -/
def splice (m : Nat → α) (s : Nat) (l : List α) : Nat → α := fun o =>
  if s ≤ o then (l[o - s]?).getD (m o) else m o

@[simp] theorem length_window (m : Nat → α) (s n : Nat) : (window m s n).length = n := by
  simp [window]

theorem window_add (m : Nat → α) (s a b : Nat) :
    window m s (a + b) = window m s a ++ window m (s + a) b := by
  simp only [window, List.range_add, List.map_append, List.map_map]
  congr 1
  refine List.map_congr_left fun i _ => ?_
  rw [Function.comp_apply, Nat.add_assoc]

theorem window_getElem? (m : Nat → α) (s n i : Nat) (hi : i < n) :
    (window m s n)[i]? = some (m (s + i)) := by
  simp [window, hi]

@[simp] theorem splice_nil (m : Nat → α) (s : Nat) : splice m s [] = m := by
  funext o
  simp [splice]

/-- Outside the overwritten range nothing changes. -/
theorem splice_outside (m : Nat → α) (s : Nat) (l : List α) (o : Nat)
    (ho : o < s ∨ s + l.length ≤ o) : splice m s l o = m o := by
  unfold splice
  split
  · rw [List.getElem?_eq_none (by omega)]
    rfl
  · rfl

/-- Inside it the memory holds the new values. -/
theorem splice_inside (m : Nat → α) (s : Nat) (l : List α) (i : Nat) (a : α) (hi : l[i]? = some a) :
    splice m s l (s + i) = a := by
  unfold splice
  rw [if_pos (Nat.le_add_right s i), Nat.add_sub_cancel_left, hi]
  rfl

/-- Overwriting with `a ++ b` is overwriting with `a`, then with `b` right behind it. -/
theorem splice_append (m : Nat → α) (s : Nat) (a b : List α) :
    splice m s (a ++ b) = splice (splice m s a) (s + a.length) b := by
  funext o
  by_cases h₁ : o < s
  · rw [splice_outside _ _ _ _ (Or.inl h₁), splice_outside _ _ _ _ (Or.inl (by omega)),
      splice_outside _ _ _ _ (Or.inl h₁)]
  · obtain ⟨i, rfl⟩ := Nat.exists_eq_add_of_le (Nat.le_of_not_lt h₁)
    by_cases h₂ : i < a.length
    · rw [splice_outside _ _ b _ (Or.inl (by omega))]
      have ha : a[i]? = some a[i] := List.getElem?_eq_getElem h₂
      rw [splice_inside m s a i _ ha, splice_inside m s (a ++ b) i a[i]]
      rw [List.getElem?_append_left h₂, ha]
    · obtain ⟨j, rfl⟩ := Nat.exists_eq_add_of_le (Nat.le_of_not_lt h₂)
      by_cases h₃ : j < b.length
      · have hb : b[j]? = some b[j] := List.getElem?_eq_getElem h₃
        rw [← Nat.add_assoc, splice_inside _ _ b j _ hb, Nat.add_assoc,
          splice_inside m s (a ++ b) (a.length + j) b[j]]
        rw [List.getElem?_append_right (Nat.le_add_right _ _), Nat.add_sub_cancel_left, hb]
      · rw [splice_outside _ _ _ _ (Or.inr (by rw [List.length_append]; omega)),
          splice_outside _ _ _ _ (Or.inr (by omega)), splice_outside _ _ _ _ (Or.inr (by omega))]

/-- What has been written is read back. -/
theorem window_splice (m : Nat → α) (s : Nat) (l : List α) :
    window (splice m s l) s l.length = l := by
  refine List.ext_getElem? fun i => ?_
  by_cases hi : i < l.length
  · rw [window_getElem? _ _ _ _ hi, List.getElem?_eq_getElem hi]
    exact congrArg some (splice_inside m s l i _ (List.getElem?_eq_getElem hi))
  · rw [List.getElem?_eq_none (by rw [length_window]; omega), List.getElem?_eq_none (by omega)]

/-! ## 2. Pieces of a range -/

/-- `Tiles s n l`: the pieces `l`, each a start and a positive length, cover the `n` offsets from
    `s` on one after the other, without a gap and without an overlap. -/
inductive Tiles : Nat → Nat → List (Nat × Nat) → Prop where
  | nil (s : Nat) : Tiles s 0 []
  | cons {s c n : Nat} {l : List (Nat × Nat)} (hc : 0 < c) (h : Tiles (s + c) n l) :
      Tiles s (c + n) ((s, c) :: l)

theorem Tiles.bounds {s n : Nat} {l : List (Nat × Nat)} (h : Tiles s n l) {p : Nat × Nat} (hp : p ∈ l) :
    0 < p.2 ∧ s ≤ p.1 ∧ p.1 + p.2 ≤ s + n := by
  induction h with
  | nil => cases hp
  | cons hc _ ih =>
    rcases List.mem_cons.mp hp with rfl | hp
    · exact ⟨hc, Nat.le_refl _, by omega⟩
    · obtain ⟨h₁, h₂, h₃⟩ := ih hp
      exact ⟨h₁, by omega, by omega⟩

/-- Tiles of a range, moved by `d`. -/
theorem Tiles.shift {s n : Nat} {l : List (Nat × Nat)} (h : Tiles s n l) (d : Nat) :
    Tiles (d + s) n (l.map fun p => (d + p.1, p.2)) := by
  induction h with
  | nil => exact .nil _
  | cons hc _ ih =>
    rw [← Nat.add_assoc] at ih
    exact .cons hc ih

/-- **Data laid out by its pieces**: if the `k`th list is as long as the `k`th piece, the lists
    joined are as long as the range, and hold each list at the place of its piece. -/
theorem Tiles.flatten {s n : Nat} {l : List (Nat × Nat)} (h : Tiles s n l) {ps : List (List α)}
    (hps : List.Forall₂ (fun p q => q.length = p.2) l ps) :
    ps.flatten.length = n ∧ ∀ (k : Nat) (p : Nat × Nat) (q : List α), l[k]? = some p → ps[k]? = some q →
      ∀ j, j < p.2 → ps.flatten[p.1 - s + j]? = q[j]? := by
  induction h generalizing ps with
  | nil =>
    cases hps
    exact ⟨rfl, fun k p q hp => by cases hp⟩
  | @cons s c n l hc h ih =>
    cases hps with
    | @cons _ q₀ _ qs hq hqs =>
      obtain ⟨hlen, hat⟩ := ih hqs
      have hq : q₀.length = c := hq
      refine ⟨by rw [List.flatten_cons, List.length_append, hq, hlen], ?_⟩
      intro k p q hp hk j hj
      cases k with
      | zero =>
        cases hp
        cases hk
        rw [List.flatten_cons, Nat.sub_self, Nat.zero_add,
          List.getElem?_append_left (by rw [hq]; exact hj)]
      | succ k =>
        have hb := (h.bounds (List.mem_of_getElem? hp)).2.1
        have he : p.1 - s + j = c + (p.1 - (s + c) + j) := by omega
        rw [List.flatten_cons, he, List.getElem?_append_right (by omega), hq,
          Nat.add_sub_cancel_left]
        exact hat k p q hp hk j hj

/-- What is read piece by piece is the range. -/
theorem Tiles.flatten_window {s n : Nat} {l : List (Nat × Nat)} (h : Tiles s n l) (m : Nat → α) :
    (l.map fun p => window m p.1 p.2).flatten = window m s n := by
  induction h with
  | nil => rfl
  | cons _ _ ih => rw [List.map_cons, List.flatten_cons, ih, window_add]

/-- The pieces add up to the range. -/
theorem Tiles.sum {s n : Nat} {l : List (Nat × Nat)} (h : Tiles s n l) : (l.map (·.2)).sum = n := by
  induction h with
  | nil => rfl
  | cons _ _ ih => rw [List.map_cons, List.sum_cons, ih]

/-- A piece begins where those before it end. -/
theorem Tiles.start {s n : Nat} {l l' : List (Nat × Nat)} {p : Nat × Nat}
    (h : Tiles s n (l ++ p :: l')) : p.1 = s + (l.map (·.2)).sum := by
  induction l generalizing s n with
  | nil =>
    cases h
    rfl
  | cons q l ih =>
    cases h with
    | cons _ h => rw [ih h, List.map_cons, List.sum_cons, Nat.add_assoc]

/-- The `n` offsets from `s` on, cut into pieces of `m` and a last piece of at most `m`. -/
def cuts (m : ℕ+) (s n : Nat) : List (Nat × Nat) :=
  if _h : n = 0 then [] else (s, min (m : Nat) n) :: cuts m (s + min (m : Nat) n) (n - min (m : Nat) n)
termination_by n
decreasing_by
  have := m.pos
  omega

theorem cuts_zero (m : ℕ+) (s : Nat) : cuts m s 0 = [] := by
  rw [cuts, dif_pos rfl]

theorem cuts_pos (m : ℕ+) (s : Nat) {n : Nat} (hn : 0 < n) :
    cuts m s n = (s, min (m : Nat) n) :: cuts m (s + min (m : Nat) n) (n - min (m : Nat) n) := by
  rw [cuts, dif_neg (Nat.ne_of_gt hn)]

/-- A range that fits in one piece. -/
theorem cuts_single {m : ℕ+} (s : Nat) {n : Nat} (h₀ : 0 < n) (h : n ≤ m) : cuts m s n = [(s, n)] := by
  rw [cuts_pos m s h₀, Nat.min_eq_right h, Nat.sub_self, cuts_zero]

/-- Induction along the pieces of a range. -/
theorem cuts_induction {m : ℕ+} {P : Nat → Nat → Prop} (zero : ∀ s, P s 0)
    (step : ∀ s n, 0 < n → P (s + min (m : Nat) n) (n - min (m : Nat) n) → P s n) (s n : Nat) : P s n := by
  induction n using Nat.strong_induction_on generalizing s with
  | h n ih =>
    rcases Nat.eq_zero_or_pos n with rfl | hn
    · exact zero s
    · have := m.pos
      exact step s n hn (ih _ (by omega) _)

theorem tiles_cuts (m : ℕ+) (s n : Nat) : Tiles s n (cuts m s n) := by
  induction s, n using cuts_induction (m := m) with
  | zero s =>
    rw [cuts_zero]
    exact .nil s
  | step s n hn ih =>
    have hm := m.pos
    have h := Tiles.cons (c := min (m : Nat) n) (by omega) ih
    rw [Nat.add_sub_cancel' (Nat.min_le_right _ _)] at h
    rw [cuts_pos m s hn]
    exact h

theorem cuts_le (m : ℕ+) (s n : Nat) : ∀ p ∈ cuts m s n, p.2 ≤ m := by
  induction s, n using cuts_induction (m := m) with
  | zero s =>
    rw [cuts_zero]
    exact fun p hp => by cases hp
  | step s n hn ih =>
    rw [cuts_pos m s hn]
    intro p hp
    rcases List.mem_cons.mp hp with rfl | hp
    · exact Nat.min_le_left _ _
    · exact ih p hp

end Ranges
