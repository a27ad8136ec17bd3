import MoonS7.Plc.Simulator

/-!
# What a request sees and changes

A frame names ranges (`asked`). Whatever else the memory holds, the reply depends on the bytes of
these ranges only, and no other byte changes; a frame that is no write changes none. This holds for
every frame, also for one with many items or with items that overlap.

Main results: `plcServe_agree` and `plcServe_changed`.
-/

namespace MoonS7

open Ranges

/-! ## 1. Cells -/

/-- One byte of the PLC: its region and its offset there. -/
abbrev Cell : Type := Region × Nat

/-- The cells of a range: region, offset and number of bytes. -/
def cells (a : Region × Nat × Nat) : Set Cell :=
  {c | c.1 = a.1 ∧ a.2.1 ≤ c.2 ∧ c.2 < a.2.1 + a.2.2}

/-- Two memories that hold the same in the cells `F`. -/
def AgreeOn (F : Set Cell) (m m' : Mem) : Prop := ∀ c ∈ F, m c.1 c.2 = m' c.1 c.2

section Agree

variable {F : Set Cell} {m m' : Mem}

theorem AgreeOn.mono {G : Set Cell} (h : AgreeOn F m m') (hG : G ⊆ F) : AgreeOn G m m' :=
  fun c hc => h c (hG hc)

theorem AgreeOn.window {r : Region} {off n : Nat} (h : AgreeOn (cells (r, off, n)) m m') :
    window (m r) off n = window (m' r) off n := by
  refine List.map_congr_left fun i hi => ?_
  have hi := List.mem_range.mp hi
  exact h (r, off + i) ⟨rfl, Nat.le_add_right _ _, Nat.add_lt_add_left hi _⟩

theorem AgreeOn.store (h : AgreeOn F m m') (r : Region) (off : Nat) (bs : List UInt8) :
    AgreeOn F (m.store r off bs) (m'.store r off bs) := by
  rintro ⟨r', o⟩ hc
  by_cases hr : r' = r
  · subst hr
    show m.store r' off bs r' o = m'.store r' off bs r' o
    rw [Mem.store_same, Mem.store_same]
    unfold splice
    rw [h (r', o) hc]
  · show m.store r off bs r' o = m'.store r off bs r' o
    rw [Mem.store_other m hr, Mem.store_other m' hr]
    exact h (r', o) hc

/-- A store changes the cells of its range only. -/
theorem Mem.store_outside (m : Mem) {r : Region} {off : Nat} {bs : List UInt8} {c : Cell}
    (hc : c ∉ cells (r, off, bs.length)) : m.store r off bs c.1 c.2 = m c.1 c.2 := by
  by_cases hr : c.1 = r
  · rw [← hr, Mem.store_same]
    refine splice_outside _ _ _ _ ?_
    by_contra hn
    exact hc ⟨hr, by show off ≤ c.2; omega, by show c.2 < off + bs.length; omega⟩
  · rw [Mem.store_other m hr]

end Agree

/-! ## 2. Items -/

/-- The range an item names. -/
def PlcItem.range (it : PlcItem) : Region × Nat × Nat := (it.region, it.byteOff, it.dataLen)

section Items

variable {F : Set Cell} {m m' : Mem}

theorem AgreeOn.storeItems (h : AgreeOn F m m') (wd : List UInt8) (its : List PlcItem) :
    AgreeOn F (storeItems m wd its) (storeItems m' wd its) := by
  induction its generalizing m m' wd with
  | nil => exact h
  | cons it its ih =>
    simp only [MoonS7.storeItems]
    split
    · exact ih (h.store _ _ _) _
    · exact ih h _

theorem AgreeOn.readItems (h : AgreeOn F m m') {its : List PlcItem}
    (hF : ∀ it ∈ its, cells it.range ⊆ F) :
    (its.flatMap fun it => Ranges.window (m it.region) it.byteOff it.dataLen) =
      its.flatMap fun it => Ranges.window (m' it.region) it.byteOff it.dataLen :=
  List.flatMap_congr fun it hit => (h.mono (hF it hit)).window

/-- The items of a write change the cells of their ranges only. -/
theorem storeItems_outside (m : Mem) (wd : List UInt8) {its : List PlcItem} {c : Cell}
    (hc : ∀ it ∈ its, c ∉ cells it.range) : storeItems m wd its c.1 c.2 = m c.1 c.2 := by
  induction its generalizing m wd with
  | nil => rfl
  | cons it its ih =>
    obtain ⟨hit, hits⟩ := List.forall_mem_cons.mp hc
    simp only [MoonS7.storeItems]
    split
    · rw [ih _ _ hits]
      refine Mem.store_outside m fun hm => hit ⟨hm.1, hm.2.1, Nat.lt_of_lt_of_le hm.2.2 ?_⟩
      exact Nat.add_le_add_left (List.length_take_le _ _) _
    · exact ih _ _ hits

end Items

/-! ## 3. Frames -/

/-- The cells a frame names. -/
def namedCells (q : Frame) : Set Cell := {c | ∃ a ∈ asked q, c ∈ cells a}

/-- The function code of a frame that the PLC can read. -/
def function (q : Frame) : Option UInt8 := (parseS7Request q).bind fun req => req.params.head?

/-- The cells a frame may change. -/
def storedCells (q : Frame) : Set Cell := {c | function q = some 0x05 ∧ c ∈ namedCells q}

/-- What the PLC can do with a request: nothing, a read or a write. -/
theorem handleS7Request_cases (req : Request) :
    (∀ m, handleS7Request m req = none) ∨
    (∀ m, handleS7Request m req = some (buildReadResp
      (req.items.flatMap fun it => window (m it.region) it.byteOff it.dataLen) req.refn, m)) ∨
    req.params.head? = some 0x05 ∧ ∀ m, handleS7Request m req =
      some (buildWriteResp req.refn, storeItems m req.data req.items) := by
  unfold handleS7Request
  split
  · rename_i func n rest hp
    by_cases h4 : func = 0x04
    · exact Or.inr (Or.inl fun m => if_pos h4)
    by_cases h5 : func = 0x05
    · exact Or.inr (Or.inr ⟨by rw [hp, h5]; rfl, fun m => by rw [if_neg h4, if_pos h5]⟩)
    · exact Or.inl fun m => by rw [if_neg h4, if_neg h5]
  · exact Or.inl fun m => rfl

theorem mem_namedCells {q : Frame} {req : Request} (hq : parseS7Request q = some req) {it : PlcItem}
    (hit : it ∈ req.items) : cells it.range ⊆ namedCells q := by
  intro c hc
  refine ⟨it.range, ?_, hc⟩
  rw [asked, hq]
  exact List.mem_map_of_mem hit

/-- **A reply depends on the cells its request names**: memories that agree there, and elsewhere as
    they may, give the same reply and go on agreeing. -/
theorem plcServe_agree {F : Set Cell} {m m' : Mem} (h : AgreeOn F m m') {q : Frame}
    (hq : namedCells q ⊆ F) :
    (plcServe m q = none ∧ plcServe m' q = none) ∨
    ∃ resp m₁ m₁', plcServe m q = some (resp, m₁) ∧ plcServe m' q = some (resp, m₁') ∧
      AgreeOn F m₁ m₁' := by
  unfold plcServe
  cases hp : parseS7Request q with
  | none => exact Or.inl ⟨rfl, rfl⟩
  | some req =>
    show (handleS7Request m req = none ∧ handleS7Request m' req = none) ∨ _
    rcases handleS7Request_cases req with hn | hr | ⟨-, hw⟩
    · exact Or.inl ⟨hn m, hn m'⟩
    · refine Or.inr ⟨_, m, m', hr m, ?_, h⟩
      have hitems := h.readItems fun it hit => (mem_namedCells hp hit).trans hq
      rw [hitems]
      exact hr m'
    · exact Or.inr ⟨_, _, _, hw m, hw m', h.storeItems _ _⟩

/-- **A request changes the cells it names, if it is a write**, and no others. -/
theorem plcServe_changed {m m' : Mem} {q resp : Frame} (h : plcServe m q = some (resp, m')) {c : Cell}
    (hc : m' c.1 c.2 ≠ m c.1 c.2) : c ∈ storedCells q := by
  unfold plcServe at h
  cases hp : parseS7Request q with
  | none => rw [hp] at h; cases h
  | some req =>
    rw [hp] at h
    have h : handleS7Request m req = some (resp, m') := h
    rcases handleS7Request_cases req with hn | hr | ⟨hf, hw⟩
    · cases (hn m).symm.trans h
    · cases (hr m).symm.trans h
      exact absurd rfl hc
    · cases (hw m).symm.trans h
      refine ⟨by rw [function, hp]; exact hf, ?_⟩
      by_contra ht
      exact hc (storeItems_outside m _ fun it hit hcell => ht (mem_namedCells hp hit hcell))

/-! ## 4. The frames of the client -/

theorem function_packet (refn : Int32) {params wdata : List UInt8}
    (h : params.length + wdata.length ≤ 947) :
    function (packet refn params wdata) = params.head? := by
  rw [function, parseS7Request_packet _ h]
  rfl

theorem namedCells_eq {q : Frame} {a : Region × Nat × Nat} (h : asked q = [a]) : namedCells q = cells a := by
  refine Set.ext fun c => ?_
  rw [namedCells, h]
  exact ⟨fun ⟨a', ha', hc⟩ => List.mem_singleton.mp ha' ▸ hc, fun hc => ⟨a, List.mem_singleton_self a, hc⟩⟩

/-- A read request changes nothing. -/
theorem storedCells_readFrame (area : Area) (off c refn : Int32) : storedCells (readFrame area off c refn) = ∅ := by
  refine Set.eq_empty_of_forall_notMem fun _ hc => ?_
  have hf := hc.1
  rw [readFrame, function_packet _ (Nat.le_of_ble_eq_true rfl)] at hf
  cases hf

end MoonS7
