import Mathlib.Data.List.Basic
import Mathlib.Tactic.Common

/-!
# A stream in segments

What has arrived of a stream is a list of segments of any lengths. A `read` returns a part of the
first segment that is not empty; `readExactly` reads until it has as many elements as it was asked
for, and fails where the stream ends before. It depends on the stream only, and not on the segments
(`readExactly_some`, `readExactly_none`).
-/

namespace Segments

variable {α : Type}

/-- At most `n` elements, all from one segment; nothing at the end of the stream. -/
def read (n : Nat) : List (List α) → List α × List (List α)
  | [] => ([], [])
  | [] :: segs => read n segs
  | (a :: s) :: segs => ((a :: s).take n, (a :: s).drop n :: segs)

theorem read_flatten (n : Nat) (segs : List (List α)) :
    (read n segs).1 ++ (read n segs).2.flatten = segs.flatten := by
  induction segs with
  | nil => rfl
  | cons s segs ih =>
    cases s with
    | nil => exact ih
    | cons a s =>
      show (a :: s).take n ++ ((a :: s).drop n ++ segs.flatten) = a :: s ++ segs.flatten
      rw [← List.append_assoc, List.take_append_drop]

theorem length_read_le (n : Nat) (segs : List (List α)) : (read n segs).1.length ≤ n := by
  induction segs with
  | nil => exact Nat.zero_le n
  | cons s segs ih =>
    cases s with
    | nil => exact ih
    | cons a s => exact List.length_take_le n _

/-- A read returns nothing only at the end of the stream. -/
theorem read_eq_nil_iff {n : Nat} (hn : 0 < n) (segs : List (List α)) :
    (read n segs).1 = [] ↔ segs.flatten = [] := by
  induction segs with
  | nil => exact Iff.rfl
  | cons s segs ih =>
    cases s with
    | nil => exact ih
    | cons a s =>
      obtain ⟨k, rfl⟩ := Nat.exists_eq_add_of_lt hn
      refine ⟨fun h => ?_, fun h => ?_⟩ <;> cases h

/-- `n` elements, in as many reads as it takes. -/
def readExactly (n : Nat) (segs : List (List α)) : Option (List α × List (List α)) :=
  if _h : n = 0 then some ([], segs)
  else if _hr : (read n segs).1.length = 0 then none
  else (readExactly (n - (read n segs).1.length) (read n segs).2).map fun p =>
    ((read n segs).1 ++ p.1, p.2)
termination_by n
decreasing_by omega

/-- **The next `n` elements of the stream**, if it has as many. -/
theorem readExactly_some {n : Nat} {segs : List (List α)} {v rest : List α}
    (h : segs.flatten = v ++ rest) (hv : v.length = n) :
    ∃ segs', readExactly n segs = some (v, segs') ∧ segs'.flatten = rest := by
  fun_induction readExactly n segs generalizing v with
  | case1 segs =>
    cases List.length_eq_zero_iff.mp hv
    exact ⟨segs, rfl, h⟩
  | case2 n segs hn hr =>
    have hnil := (read_eq_nil_iff (Nat.pos_of_ne_zero hn) segs).mp (List.length_eq_zero_iff.mp hr)
    rw [hnil] at h
    have hlen := congrArg List.length h
    rw [List.length_append, List.length_nil] at hlen
    omega
  | case3 n segs hn hr ih =>
    have hle := length_read_le n segs
    have hflat := read_flatten n segs
    -- what was read is the beginning of `v`
    have hread : (read n segs).1 <+: segs.flatten := ⟨_, hflat⟩
    have hpre : v <+: segs.flatten := ⟨rest, h.symm⟩
    obtain ⟨w, rfl⟩ := List.prefix_of_prefix_length_le hread hpre (by omega)
    rw [List.length_append] at hv
    rw [← hflat, List.append_assoc] at h
    obtain ⟨segs', hs, hrest⟩ := ih (List.append_cancel_left h) (by omega)
    exact ⟨segs', by rw [hs]; rfl, hrest⟩

/-- **At the end of the stream** it fails. -/
theorem readExactly_none {n : Nat} {segs : List (List α)} (h : segs.flatten.length < n) :
    readExactly n segs = none := by
  fun_induction readExactly n segs with
  | case1 segs => exact absurd h (Nat.not_lt_zero _)
  | case2 n segs hn hr => rfl
  | case3 n segs hn hr ih =>
    have hflat := congrArg List.length (read_flatten n segs)
    rw [List.length_append] at hflat
    rw [ih (by omega)]
    rfl

end Segments
