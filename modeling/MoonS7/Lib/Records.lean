import Mathlib.Data.List.Basic
import Mathlib.Tactic.Common

/-!
# Records one behind the other

A section of a frame that holds records without marks between them. `records dec n` reads `n` of
them with a decoder `dec` of one, which says what is left behind it. Where `dec` reads back what
an encoder has put in front of any rest, the whole section is read back (`records_flatMap`); the
records of two sections stay aligned because both are read from the same list. `allRecords` reads a
section up to its end.

Where a section is cut off after `n` bytes, `fitting` are the records that are still whole -- the
longest beginning that fits (`fitting_longest`) -- and `cutOff` is what is left of the next one.
-/

namespace Records

variable {α β γ : Type}

/-- The first `n` records of `bs`, and what is left behind them. -/
def records (dec : List β → Option (γ × List β)) : Nat → List β → Option (List γ × List β)
  | 0, bs => some ([], bs)
  | n + 1, bs => do
    let (x, bs) ← dec bs
    let (xs, bs) ← records dec n bs
    return (x :: xs, bs)

section Decode

variable {dec : List β → Option (γ × List β)}

@[simp] theorem records_zero (bs : List β) : records dec 0 bs = some ([], bs) := rfl

theorem records_succ {bs rest : List β} {x : γ} (h : dec bs = some (x, rest)) (n : Nat) :
    records dec (n + 1) bs = (records dec n rest).map fun p => (x :: p.1, p.2) := by
  rw [records, h]
  cases hr : records dec n rest with
  | none => simp [hr]
  | some p => simp [hr]

/-- **A section of records is read back whole**, whatever is behind it. -/
theorem records_flatMap {enc : α → List β} {f : α → γ} {xs : List α}
    (h : ∀ x ∈ xs, ∀ rest, dec (enc x ++ rest) = some (f x, rest)) (rest : List β) :
    records dec xs.length (xs.flatMap enc ++ rest) = some (xs.map f, rest) := by
  induction xs with
  | nil => rfl
  | cons x xs ih =>
    have hx := h x List.mem_cons_self (xs.flatMap enc ++ rest)
    have hxs := ih fun y hy => h y (List.mem_cons_of_mem _ hy)
    rw [List.flatMap_cons, List.append_assoc, List.length_cons, records_succ hx, hxs]
    rfl

end Decode

/-- A section of records that are all `k` long. -/
theorem length_flatMap {enc : α → List β} {k : Nat} (h : ∀ x, (enc x).length = k) (xs : List α) :
    (xs.flatMap enc).length = k * xs.length := by
  induction xs with
  | nil => rfl
  | cons x xs ih =>
    rw [List.flatMap_cons, List.length_append, h, ih, List.length_cons, Nat.mul_succ, Nat.add_comm]

/-- The place `j` of the `i`th of such records. -/
theorem getElem?_flatMap {enc : α → List β} {k : Nat} (h : ∀ x, (enc x).length = k) {xs : List α}
    {i : Nat} {x : α} (hx : xs[i]? = some x) {j : Nat} (hj : j < k) (rest : List β) :
    (xs.flatMap enc ++ rest)[k * i + j]? = (enc x)[j]? := by
  induction xs generalizing i with
  | nil => cases hx
  | cons y xs ih =>
    rw [List.flatMap_cons, List.append_assoc]
    cases i with
    | zero =>
      cases hx
      rw [Nat.mul_zero, Nat.zero_add, List.getElem?_append_left (by rw [h]; exact hj)]
    | succ i =>
      rw [Nat.mul_succ, List.getElem?_append_right (by rw [h]; omega), h,
        show k * i + k + j - k = k * i + j from by omega]
      exact ih hx

/-! ## 1. Up to the end -/

/-- All records of `bs`, which must end where the last one does; `n` bounds their number. -/
def allRecords (dec : List β → Option (γ × List β)) : Nat → List β → Option (List γ)
  | _, [] => some []
  | 0, _ :: _ => none
  | n + 1, b :: bs => do
    let (x, rest) ← dec (b :: bs)
    let xs ← allRecords dec n rest
    return x :: xs

theorem length_le_flatMap {enc : α → List β} (hne : ∀ x, enc x ≠ []) (xs : List α) :
    xs.length ≤ (xs.flatMap enc).length := by
  induction xs with
  | nil => exact Nat.le_refl 0
  | cons x xs ih =>
    have hx := List.length_pos_of_ne_nil (hne x)
    rw [List.flatMap_cons, List.length_append, List.length_cons]
    omega

theorem allRecords_flatMap {dec : List β → Option (γ × List β)} {enc : α → List β} {f : α → γ}
    {xs : List α} (h : ∀ x ∈ xs, ∀ rest, dec (enc x ++ rest) = some (f x, rest))
    (hne : ∀ x, enc x ≠ []) {n : Nat} (hn : xs.length ≤ n) :
    allRecords dec n (xs.flatMap enc) = some (xs.map f) := by
  induction xs generalizing n with
  | nil => cases n <;> rfl
  | cons x xs ih =>
    obtain ⟨n, rfl⟩ := Nat.exists_eq_add_of_le' (Nat.le_trans (Nat.le_add_left 1 _) hn)
    obtain ⟨b, bs, hb⟩ := List.exists_cons_of_ne_nil (hne x)
    have hx := h x List.mem_cons_self (xs.flatMap enc)
    have hxs := ih (fun y hy => h y (List.mem_cons_of_mem _ hy)) (Nat.le_of_succ_le_succ hn)
    rw [hb, List.cons_append] at hx
    rw [List.flatMap_cons, hb, List.cons_append, allRecords, hx]
    show (allRecords dec n (xs.flatMap enc)).bind _ = _
    rw [hxs]
    rfl

/-! ## 2. Cut off -/

section Cut

variable (enc : α → List β)

/-- The first records of `xs`, as many as fit in `n` bytes. -/
def fitting : Nat → List α → List α
  | _, [] => []
  | n, x :: xs => if (enc x).length ≤ n then x :: fitting (n - (enc x).length) xs else []

/-- What `n` bytes hold of the first record that does not fit. -/
def cutOff : Nat → List α → List β
  | _, [] => []
  | n, x :: xs => if (enc x).length ≤ n then cutOff (n - (enc x).length) xs else (enc x).take n

/-- `p` is the longest beginning of `xs` whose records fit in `n` bytes. -/
structure Longest (n : Nat) (xs p : List α) : Prop where
  isPrefix : p <+: xs
  fits : (p.flatMap enc).length ≤ n
  longest : ∀ q, q <+: xs → (q.flatMap enc).length ≤ n → q <+: p

/-- **A section that is cut off**: whole records, and the beginning of one. -/
theorem take_flatMap (n : Nat) (xs : List α) :
    (xs.flatMap enc).take n = (fitting enc n xs).flatMap enc ++ cutOff enc n xs := by
  induction xs generalizing n with
  | nil => simp [fitting, cutOff]
  | cons x xs ih =>
    rw [List.flatMap_cons, List.take_append, fitting, cutOff]
    by_cases h : (enc x).length ≤ n
    · rw [if_pos h, if_pos h, List.take_of_length_le h, ih, List.flatMap_cons, List.append_assoc]
    · rw [if_neg h, if_neg h, Nat.sub_eq_zero_of_le (Nat.le_of_not_le h), List.take_zero,
        List.append_nil, List.flatMap_nil, List.nil_append]

/-- Either all of it fits, or the cut is inside of a record. -/
theorem cutOff_cases (n : Nat) (xs : List α) :
    (fitting enc n xs = xs ∧ cutOff enc n xs = [] ∧ (xs.flatMap enc).length ≤ n) ∨
    ∃ p x rest k, xs = p ++ x :: rest ∧ fitting enc n xs = p ∧ (p.flatMap enc).length + k = n ∧
      k < (enc x).length ∧ cutOff enc n xs = (enc x).take k := by
  induction xs generalizing n with
  | nil => exact Or.inl ⟨rfl, rfl, Nat.zero_le n⟩
  | cons x xs ih =>
    rw [fitting, cutOff, List.flatMap_cons, List.length_append]
    by_cases h : (enc x).length ≤ n
    · rw [if_pos h, if_pos h]
      rcases ih (n - (enc x).length) with ⟨h₁, h₂, h₃⟩ | ⟨p, y, rest, k, rfl, h₁, h₂, h₃, h₄⟩
      · exact Or.inl ⟨by rw [h₁], h₂, by omega⟩
      · refine Or.inr ⟨x :: p, y, rest, k, rfl, by rw [h₁], ?_, h₃, h₄⟩
        rw [List.flatMap_cons, List.length_append]
        omega
    · rw [if_neg h, if_neg h]
      exact Or.inr ⟨[], x, xs, n, rfl, rfl, Nat.zero_add n, Nat.lt_of_not_le h, rfl⟩

variable {enc}

/-- A beginning that fits, and does not with the next record, is the longest. -/
theorem Longest.of_cut {n : Nat} {p rest : List α} {x : α} (h : (p.flatMap enc).length ≤ n)
    (hx : n < (p.flatMap enc).length + (enc x).length) : Longest enc n (p ++ x :: rest) p := by
  refine ⟨List.prefix_append _ _, h, fun q hq hlen => ?_⟩
  rcases List.prefix_or_prefix_of_prefix hq (List.prefix_append p (x :: rest)) with hqp | ⟨t, rfl⟩
  · exact hqp
  · cases t with
    | nil => exact ⟨[], by rw [List.append_nil, List.append_nil]⟩
    | cons y t =>
      obtain ⟨rfl, -⟩ := List.cons_prefix_cons.mp ((List.prefix_append_right_inj p).mp hq)
      rw [List.flatMap_append, List.length_append, List.flatMap_cons, List.length_append] at hlen
      omega

/-- There is only one. -/
theorem Longest.unique {n : Nat} {xs p q : List α} (hp : Longest enc n xs p)
    (hq : Longest enc n xs q) : p = q :=
  (hq.longest p hp.isPrefix hp.fits).eq_of_length
    (Nat.le_antisymm (hq.longest p hp.isPrefix hp.fits).length_le
      (hp.longest q hq.isPrefix hq.fits).length_le)

variable (enc)

theorem fitting_longest (n : Nat) (xs : List α) : Longest enc n xs (fitting enc n xs) := by
  rcases cutOff_cases enc n xs with ⟨hall, -, hfits⟩ | ⟨p, x, rest, k, rfl, hfit, hn, hk, -⟩
  · rw [hall]
    exact ⟨List.prefix_rfl, hfits, fun q hq _ => hq⟩
  · rw [hfit]
    exact Longest.of_cut (by omega) (by omega)

end Cut

end Records
