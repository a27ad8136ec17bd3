import MoonS7.Lib.Ranges

/-!
# Slices of a list

A memory of a fixed size is a list. A `slice` that reaches past its end is cut off there, and so is
a list that is stored over it (`clip`).

`slice_add` and `clip_append` say that a range is read and overwritten piece by piece;
`slice_window` and `clip_window` that inside of the list nothing is cut off.
-/

namespace Ranges

variable {α : Type}

def slice (l : List α) (s n : Nat) : List α := (l.drop s).take n

/-- The list `l` with `v` stored from offset `s` on, as far as there is room. -/
def clip (l : List α) (s : Nat) (v : List α) : List α :=
  l.mapIdx fun i x => if s ≤ i then (v[i - s]?).getD x else x

theorem slice_getElem? (l : List α) (s n i : Nat) :
    (slice l s n)[i]? = if i < n then l[s + i]? else none := by
  rw [slice, List.getElem?_take]
  split
  · rw [List.getElem?_drop]
  · rfl

/-- A range is read piece by piece. -/
theorem slice_add (l : List α) (s a b : Nat) : slice l s (a + b) = slice l s a ++ slice l (s + a) b := by
  rw [slice, List.take_add, List.drop_drop]
  rfl

theorem slice_zero (l : List α) (s : Nat) : slice l s 0 = [] := List.take_zero

@[simp] theorem length_slice (l : List α) (s n : Nat) : (slice l s n).length = min n (l.length - s) := by
  rw [slice, List.length_take, List.length_drop]

@[simp] theorem length_clip (l : List α) (s : Nat) (v : List α) : (clip l s v).length = l.length :=
  List.length_mapIdx

theorem clip_getElem? (l : List α) (s : Nat) (v : List α) (i : Nat) :
    (clip l s v)[i]? = (l[i]?).map fun x => if s ≤ i then (v[i - s]?).getD x else x := by
  rw [clip, List.getElem?_mapIdx]

theorem clip_nil (l : List α) (s : Nat) : clip l s [] = l := by
  refine List.ext_getElem? fun i => ?_
  rw [clip_getElem?]
  cases l[i]? <;> simp

/-- A list is stored piece by piece. -/
theorem clip_append (l : List α) (s : Nat) (a b : List α) :
    clip l s (a ++ b) = clip (clip l s a) (s + a.length) b := by
  refine List.ext_getElem? fun i => ?_
  rw [clip_getElem?, clip_getElem?, clip_getElem?]
  cases l[i]? with
  | none => rfl
  | some x =>
    simp only [Option.map_some, Option.some.injEq]
    by_cases h₁ : s ≤ i
    · rw [if_pos h₁, if_pos h₁, List.getElem?_append]
      by_cases h₂ : i - s < a.length
      · rw [if_pos h₂, if_neg (by omega)]
      · rw [if_neg h₂, if_pos (by omega), List.getElem?_eq_none (l := a) (by omega),
          show i - s - a.length = i - (s + a.length) by omega]
        rfl
    · rw [if_neg h₁, if_neg h₁, if_neg (by omega)]

/-- What the list held is read where it was not stored over, and what was stored where there was
    room. -/
theorem slice_clip (l : List α) (s : Nat) (v : List α) :
    slice (clip l s v) s v.length = v.take (l.length - s) := by
  refine List.ext_getElem? fun i => ?_
  rw [slice_getElem?, List.getElem?_take, clip_getElem?]
  by_cases hi : i < v.length
  · rw [if_pos hi]
    by_cases hl : i < l.length - s
    · rw [if_pos hl, List.getElem?_eq_getElem (show s + i < l.length by omega), Option.map_some,
        if_pos (Nat.le_add_right s i), Nat.add_sub_cancel_left, List.getElem?_eq_getElem hi]
      rfl
    · rw [if_neg hl, List.getElem?_eq_none (show l.length ≤ s + i by omega)]
      rfl
  · rw [if_neg hi, List.getElem?_eq_none (Nat.le_of_not_lt hi)]
    split <;> rfl

/-- What is in front of the end of what is stored. -/
theorem take_clip (l : List α) {s : Nat} {v : List α} (h : s + v.length ≤ l.length) :
    (clip l s v).take (s + v.length) = l.take s ++ v := by
  have hs := slice_clip l s v
  rw [List.take_of_length_le (by omega)] at hs
  rw [List.take_add, show ((clip l s v).drop s).take v.length = v from hs]
  congr 1
  refine List.ext_getElem? fun i => ?_
  rw [List.getElem?_take, List.getElem?_take, clip_getElem?]
  by_cases hi : i < s
  · rw [if_pos hi, if_pos hi]
    cases l[i]? with
    | none => rfl
    | some x => simp [show ¬ s ≤ i by omega]
  · rw [if_neg hi, if_neg hi]

/-! ## As a memory -/

/-- The memory `m` begins with the list `l`. -/
def BeginsWith (m : Nat → α) (l : List α) : Prop := ∀ i x, l[i]? = some x → m i = x

/-- Inside the list a slice is the range. -/
theorem slice_window {m : Nat → α} {l : List α} (h : BeginsWith m l) {s n : Nat} (hn : s + n ≤ l.length) :
    slice l s n = window m s n := by
  refine List.ext_getElem? fun i => ?_
  rw [slice_getElem?]
  by_cases hi : i < n
  · have hl := List.getElem?_eq_getElem (show s + i < l.length by omega)
    rw [if_pos hi, window_getElem? _ _ _ _ hi, hl, h _ _ hl]
  · rw [if_neg hi, List.getElem?_eq_none (by rw [length_window]; omega)]

/-- What is stored over the list is stored over the memory. -/
theorem clip_window {m : Nat → α} {l : List α} (h : BeginsWith m l) (s : Nat) (v : List α) :
    BeginsWith (splice m s v) (clip l s v) := by
  intro i x hx
  rw [clip_getElem?] at hx
  obtain ⟨y, hy, rfl⟩ := Option.map_eq_some_iff.mp hx
  rw [splice, h i y hy]

end Ranges
