import Mathlib.Data.List.Infix
import Mathlib.Tactic.Common

/-!
# Streams of frames

Frames written one after the other into a stream without marks between them. The frames of a
`PrefixFree` set can be found again from a position where one begins (`frame_at_boundary`), and
from no other.

On the writing side a frame may be cut: `Clean` is the log of a stream of whole frames with at
most one cut at its end (`Clean.stream`).
-/

namespace Streams

variable {α : Type}

/-! ## 1. Boundaries -/

/-- No frame of `P` is the beginning of another. -/
def PrefixFree (P : List α → Prop) : Prop :=
  ∀ f g s : List α, P f → P g → f <+: s → g <+: s → f = g

/-- Where the `i`th frame begins. -/
def boundary (fs : List (List α)) (i : Nat) : Nat := (fs.take i).flatten.length

/-- A frame begins at `n`, or the stream ends there. -/
def AtBoundary (fs : List (List α)) (n : Nat) : Prop := ∃ i, i ≤ fs.length ∧ n = boundary fs i

section Boundary

variable {fs gs : List (List α)} {i n : Nat}

theorem boundary_append (h : i ≤ fs.length) : boundary (fs ++ gs) i = boundary fs i := by
  rw [boundary, boundary, List.take_append_of_le_length h]

theorem AtBoundary.zero : AtBoundary fs 0 := ⟨0, Nat.zero_le _, rfl⟩

theorem AtBoundary.append (h : AtBoundary fs n) : AtBoundary (fs ++ gs) n := by
  obtain ⟨i, hi, rfl⟩ := h
  exact ⟨i, by rw [List.length_append]; omega, (boundary_append hi).symm⟩

theorem drop_boundary (fs : List (List α)) (i : Nat) :
    fs.flatten.drop (boundary fs i) = (fs.drop i).flatten := by
  have h : fs.flatten = (fs.take i).flatten ++ (fs.drop i).flatten := by
    rw [← List.flatten_append, List.take_append_drop]
  rw [h, boundary, List.drop_left]

theorem boundary_mono {j : Nat} (h : i ≤ j) : boundary fs i ≤ boundary fs j :=
  (List.take_prefix_take_left h).flatten.length_le

theorem boundary_length : boundary fs fs.length = fs.flatten.length := by
  rw [boundary, List.take_length]

/-- A boundary of a stream that has gone on, no further than the stream then was, was one. -/
theorem AtBoundary.of_append (hn : n ≤ fs.flatten.length) (h : n = boundary (fs ++ gs) i) :
    AtBoundary fs n := by
  by_cases hi : i ≤ fs.length
  · exact ⟨i, hi, h.trans (boundary_append hi)⟩
  · refine ⟨fs.length, Nat.le_refl _, ?_⟩
    have hle : boundary (fs ++ gs) fs.length ≤ boundary (fs ++ gs) i :=
      boundary_mono (Nat.le_of_not_le hi)
    rw [boundary_append (Nat.le_refl _), ← h] at hle
    rw [boundary_length] at hle ⊢
    exact Nat.le_antisymm hn hle

theorem boundary_succ {f : List α} (h : fs[i]? = some f) :
    boundary fs (i + 1) = boundary fs i + f.length := by
  obtain ⟨hi, rfl⟩ := List.getElem?_eq_some_iff.mp h
  rw [boundary, boundary, List.take_succ_eq_append_getElem hi, List.flatten_append, List.length_append]
  simp

/-- What begins at a boundary begins a frame, or nothing is left. -/
theorem prefix_at_boundary (i : Nat) {f : List α} (hf : f <+: fs.flatten.drop (boundary fs i)) :
    f = [] ∨ ∃ g rest, fs[i]? = some g ∧ f <+: g ++ rest := by
  rw [drop_boundary] at hf
  cases hd : fs.drop i with
  | nil =>
    rw [hd] at hf
    exact Or.inl (List.prefix_nil.mp hf)
  | cons g rest =>
    rw [hd] at hf
    refine Or.inr ⟨g, rest.flatten, ?_, hf⟩
    rw [← List.head?_drop, hd]
    rfl

/-- **A frame found at a boundary** is the one that was put there, and ends at the next. -/
theorem frame_at_boundary {P : List α → Prop} (hP : PrefixFree P) (hfs : ∀ f ∈ fs, P f)
    {f : List α} (hf : P f) (hne : f ≠ []) (hw : f <+: fs.flatten.drop (boundary fs i)) :
    fs[i]? = some f ∧ AtBoundary fs (boundary fs i + f.length) := by
  rcases prefix_at_boundary i hw with h | ⟨g, rest, hg, hfg⟩
  · exact absurd h hne
  · obtain rfl := hP f g (g ++ rest) hf (hfs g (List.mem_of_getElem? hg)) hfg (List.prefix_append _ _)
    exact ⟨hg, i + 1, (List.getElem?_eq_some_iff.mp hg).1, (boundary_succ hg).symm⟩

end Boundary

/-! ## 2. Cut frames -/

/-- Nothing of the frame has been written, or all of it. -/
def Whole (e : List α × Nat) : Prop := e.2 = 0 ∨ e.2 = e.1.length

/-- The stream of a log of frames, each with the number of its bytes that were written. -/
def stream (log : List (List α × Nat)) : List α := log.flatMap fun e => e.1.take e.2

/-- Whole frames, then at most one that is cut, and nothing behind it. -/
def Clean (log : List (List α × Nat)) : Prop :=
  ∃ pre post, log = pre ++ post ∧ (∀ e ∈ pre, Whole e) ∧ ∀ e ∈ post.tail, e.2 = 0

section Clean

variable {log : List (List α × Nat)} {e : List α × Nat}

theorem Clean.nil : Clean ([] : List (List α × Nat)) := ⟨[], [], rfl, by simp, by simp⟩

/-- Behind whole frames any frame may be written. -/
theorem Clean.of_whole (h : ∀ e ∈ log, Whole e) (e : List α × Nat) : Clean (log ++ [e]) :=
  ⟨log, [e], rfl, h, by simp⟩

/-- A frame of which nothing is written changes nothing. -/
theorem Clean.silent (h : Clean log) (he : e.2 = 0) : Clean (log ++ [e]) := by
  obtain ⟨pre, post, rfl, hpre, hpost⟩ := h
  cases post with
  | nil =>
    refine ⟨pre ++ [e], [], by simp, fun e' he' => ?_, by simp⟩
    rcases List.mem_append.mp he' with he' | he'
    · exact hpre e' he'
    · cases List.mem_singleton.mp he'
      exact Or.inl he
  | cons c rest =>
    refine ⟨pre, c :: rest ++ [e], by simp, hpre, fun e' he' => ?_⟩
    rcases List.mem_append.mp (show e' ∈ rest ++ [e] from he') with he' | he'
    · exact hpost e' he'
    · cases List.mem_singleton.mp he'
      exact he

/-- Behind a cut frame no other may be written. -/
theorem Clean.whole (h : Clean (log ++ [e])) (he : e.2 ≠ 0) : ∀ e' ∈ log, Whole e' := by
  obtain ⟨pre, post, hlog, hpre, hpost⟩ := h
  rcases List.eq_nil_or_concat post with rfl | ⟨init, last, rfl⟩
  · intro e' he'
    rw [List.append_nil] at hlog
    exact hpre e' (hlog ▸ List.mem_append_left _ he')
  · rw [List.concat_eq_append, ← List.append_assoc] at hlog
    obtain ⟨rfl, hlast⟩ := List.append_inj' hlog rfl
    cases List.singleton_inj.mp hlast
    cases init with
    | nil =>
      rw [List.append_nil]
      exact hpre
    | cons c rest =>
      exact absurd (hpost e (by simp)) he

theorem stream_append (log log' : List (List α × Nat)) :
    stream (log ++ log') = stream log ++ stream log' := List.flatMap_append

theorem stream_silent (h : ∀ e ∈ log, e.2 = 0) : stream log = [] := by
  rw [stream, List.flatMap_eq_nil_iff]
  intro e he
  rw [h e he, List.take_zero]

/-- Whole frames give a stream of some of them, in order. -/
theorem stream_whole (h : ∀ e ∈ log, Whole e) :
    ∃ qs : List (List α), qs.Sublist (log.map Prod.fst) ∧ stream log = qs.flatten := by
  induction log with
  | nil => exact ⟨[], List.Sublist.refl _, rfl⟩
  | cons e log ih =>
    obtain ⟨qs, hqs, hs⟩ := ih fun e' he' => h e' (List.mem_cons_of_mem _ he')
    have hcons : stream (e :: log) = e.1.take e.2 ++ stream log := rfl
    rcases h e List.mem_cons_self with h0 | hall
    · refine ⟨qs, hqs.trans (List.sublist_cons_self _ _), ?_⟩
      rw [hcons, h0, List.take_zero, List.nil_append, hs]
    · refine ⟨e.1 :: qs, hqs.cons_cons e.1, ?_⟩
      rw [hcons, hall, List.take_length, hs, List.flatten_cons]

/-- **The stream of a clean log** is a sequence of whole frames and the beginning of one more. -/
theorem Clean.stream (h : Clean log) :
    ∃ (qs : List (List α)) (part : List α), qs.Sublist (log.map Prod.fst) ∧
      stream log = qs.flatten ++ part ∧ (part = [] ∨ ∃ e ∈ log, part <+: e.1) := by
  obtain ⟨pre, post, rfl, hpre, hpost⟩ := h
  obtain ⟨qs, hqs, hs⟩ := stream_whole hpre
  rw [List.map_append, stream_append, hs]
  cases post with
  | nil => exact ⟨qs, [], by simpa using hqs, rfl, Or.inl rfl⟩
  | cons e rest =>
    refine ⟨qs, e.1.take e.2, hqs.trans (List.sublist_append_left _ _), ?_,
      Or.inr ⟨e, by simp, List.take_prefix _ _⟩⟩
    have hrest : Streams.stream rest = [] := stream_silent hpost
    show _ ++ (e.1.take e.2 ++ Streams.stream rest) = _
    rw [hrest, List.append_nil]

end Clean

end Streams
