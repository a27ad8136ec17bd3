import MoonS7.Lib.Slices
import MoonS7.Plc.Locality

/-!
# The data blocks of the simulator (`tools/s7_sim.py`, 45-309)

The memory of the simulator as it is: a table of data blocks, each a list of bytes of a fixed size,
made on its first use. A read past the end of a block is cut off there, and so is a write; the other
areas read as zeros and take no writes. Userdata requests have replies of their own.

Main results: `handleSimRequest_keeps` -- no request changes the size of a block or removes one; and
`simServe_refines` -- a request inside of the blocks is answered and carried out as by `plcServe`.
-/

namespace MoonS7

open Ranges

/-! ## 1. Data blocks -/

/-- `db_memory`. -/
abbrev DbMemory : Type := Nat → Option (List UInt8)

def ensureDb (d : DbMemory) (dbNum size : Nat) : DbMemory :=
  if (d dbNum).isSome then d else Function.update d dbNum (some (List.replicate size 0))

/-- The bytes of a block; a block that there is not has none. -/
def DbMemory.bytes (d : DbMemory) (dbNum : Nat) : List UInt8 := (d dbNum).getD []

/-- `for j in range(min(len(wdata), len(mem) - byte_off)): mem[byte_off + j] = wdata[j]`. -/
def storeLoop (mem : List UInt8) (byteOff : Nat) (wdata : List UInt8) : List UInt8 :=
  (List.range (min wdata.length (mem.length - byteOff))).foldl
    (fun mem j => mem.set (byteOff + j) (wdata[j]?.getD 0)) mem

section Blocks

variable (d : DbMemory) (n size : Nat)

theorem ensureDb_some : ∃ l, ensureDb d n size n = some l := by
  unfold ensureDb
  split
  · exact Option.isSome_iff_exists.mp ‹_›
  · exact ⟨_, Function.update_self ..⟩

theorem ensureDb_of_some {l : List UInt8} {d : DbMemory} {n : Nat} (h : d n = some l) :
    ensureDb d n size = d := by
  rw [ensureDb, h]
  rfl

theorem ensureDb_of_none {d : DbMemory} {n : Nat} (h : d n = none) :
    ensureDb d n size = Function.update d n (some (List.replicate size 0)) := by
  rw [ensureDb, h]
  rfl

theorem ensureDb_other {k : Nat} (h : k ≠ n) : ensureDb d n size k = d k := by
  unfold ensureDb
  split
  · rfl
  · exact Function.update_of_ne h _ _

theorem ensureDb_idem : ensureDb (ensureDb d n size) n size = ensureDb d n size := by
  obtain ⟨l, hl⟩ := ensureDb_some d n size
  exact ensureDb_of_some size hl

end Blocks

/-- **The loop stores what there is room for.** -/
theorem storeLoop_eq (mem : List UInt8) (byteOff : Nat) (wdata : List UInt8) :
    storeLoop mem byteOff wdata = clip mem byteOff wdata := by
  -- after `k` turns the first `k` bytes are stored
  have hk : ∀ k, k ≤ min wdata.length (mem.length - byteOff) →
      (List.range k).foldl (fun mem j => mem.set (byteOff + j) (wdata[j]?.getD 0)) mem =
        clip mem byteOff (wdata.take k) := by
    intro k
    induction k with
    | zero => exact fun _ => (clip_nil mem byteOff).symm
    | succ k ih =>
      intro hk
      have hlt : k < wdata.length := by omega
      rw [List.range_succ, List.foldl_append, ih (by omega), List.take_add_one,
        List.getElem?_eq_getElem hlt]
      refine List.ext_getElem? fun i => ?_
      rw [clip_append, List.length_take_of_le (by omega)]
      generalize hc : clip mem byteOff (wdata.take k) = mem'
      have hlen : mem'.length = mem.length := by rw [← hc, length_clip]
      show (mem'.set (byteOff + k) _)[i]? = _
      rw [clip_getElem?, List.getElem?_set]
      by_cases hi : byteOff + k = i
      · subst hi
        rw [if_pos rfl, if_pos (by omega), List.getElem?_eq_getElem (show byteOff + k < mem'.length by omega)]
        simp [List.getElem?_eq_getElem hlt]
      · rw [if_neg hi]
        cases mem'[i]? with
        | none => rfl
        | some x =>
          simp only [Option.map_some, Option.some.injEq]
          split
          · rw [List.getElem?_eq_none (by simp only [Option.toList, List.length_singleton]; omega)]
            rfl
          · rfl
  rw [storeLoop, hk _ (Nat.le_refl _)]
  refine List.ext_getElem? fun i => ?_
  rw [clip_getElem?, clip_getElem?]
  cases hm : mem[i]? with
  | none => rfl
  | some x =>
    have hi := (List.getElem?_eq_some_iff.mp hm).1
    simp only [Option.map_some, Option.some.injEq, List.getElem?_take]
    by_cases h₁ : byteOff ≤ i
    · rw [if_pos h₁, if_pos h₁]
      by_cases h₂ : i - byteOff < wdata.length
      · rw [if_pos (by omega)]
      · rw [List.getElem?_eq_none (Nat.le_of_not_lt h₂), ite_self]
    · rw [if_neg h₁, if_neg h₁]

/-! ## 2. Replies -/

/-- `bytearray(n)` with the pieces `ps` put over it, one after the other. -/
def patched (n : Nat) (ps : List (Nat × List UInt8)) : List UInt8 :=
  (List.range n).map fun i => ps.foldl (fun b p => if p.1 ≤ i then p.2[i - p.1]?.getD b else b) 0

@[simp] theorem length_patched (n : Nat) (ps : List (Nat × List UInt8)) : (patched n ps).length = n := by
  rw [patched, List.length_map, List.length_range]

def ascii (cs : List Char) : List UInt8 := cs.map fun c => UInt8.ofNat c.toNat

def buildPlcStatusResp (refn : Nat) (status : UInt8) : List UInt8 :=
  patched 45 [(0, [0x03, 0x00, 0x00, 45]), (4, [0x02, 0xF0, 0x80]), (7, [0x32]), (8, [0x07]),
    (11, [UInt8.ofNat (refn / 256), UInt8.ofNat refn]), (13, [0x00, 0x08]), (15, [0x00, 0x08]),
    (18, [0x01]), (19, [0x12]), (20, [0x04]), (21, [0x11]), (22, [0x44]), (23, [0x01]), (25, [0xFF]),
    (26, [0x09]), (28, [0x04]), (29, [0x04]), (30, [0x24]), (44, [status])]

def asn : List Char := ['M', 'O', 'O', 'N', 'B', 'I', 'T', '-', 'A', 'S']

def mn : List Char := ['C', 'P', 'U', '1', '2', '1', '4', 'C', '-', 'D', 'E', 'M', 'O']

def cp : List Char := ['C', 'o', 'p', 'y', 'r', 'i', 'g', 'h', 't', ' ', 'M', 'o', 'o', 'n', 'B', 'i', 't',
  ' ', '2', '0', '2', '6']

def sn : List Char := ['S', 'Z', '-', '0', '0', '0', '0', '0', '0', '0', '1']

def mt : List Char := ['C', 'P', 'U', ' ', '1', '2', '1', '4', 'C']

/-- The CPU information, each string at the place where `parse_cpu_info` looks for it. -/
def szlPayload : List UInt8 :=
  patched 205 [(2, ascii asn), (36, ascii mn), (104, ascii cp), (138, ascii sn), (172, ascii mt)]

/-- The 41 bytes in front of the payload: its length is 205, that of the frame 246. -/
def szlHeader (refn : Nat) : List UInt8 :=
  patched 41 [(0, [0x03, 0x00, 0x00, 246]), (4, [0x02, 0xF0, 0x80]), (7, [0x32]), (8, [0x07]),
    (11, [UInt8.ofNat (refn / 256), UInt8.ofNat refn]), (13, [0x00, 0x08]), (15, [0x00, 209]),
    (18, [0x01]), (19, [0x12]), (20, [0x08]), (21, [0x12]), (22, [0x44]), (23, [0x01]), (25, [0xFF]),
    (26, [0x00]), (27, [0x00, 209]), (29, [0xFF]), (31, [0x00, 213]), (37, [0x00, 0x02]),
    (39, [0x00, 0x01])]

/-- `build_szl_resp`; the payload does not depend on the list asked for. -/
def buildSzlResp (refn : Nat) : List UInt8 := szlHeader refn ++ szlPayload

/-! ## 3. Requests -/

/-- One item of a read: the part of the range that is inside of the block, or zeros. -/
def simReadItem (d : DbMemory) (it : PlcItem) : List UInt8 × DbMemory :=
  if it.area = 0x84 then
    let d := ensureDb d it.dbNum 256
    (slice (d.bytes it.dbNum) it.byteOff it.dataLen, d)
  else (List.replicate it.dataLen 0, d)

def simReadItems (d : DbMemory) : List PlcItem → List UInt8 × DbMemory
  | [] => ([], d)
  | it :: its =>
    let (data, d) := simReadItem d it
    let (rest, d) := simReadItems d its
    (data ++ rest, d)

def simWriteItem (d : DbMemory) (it : PlcItem) (wdata : List UInt8) : DbMemory :=
  if it.area = 0x84 then
    let d := ensureDb d it.dbNum 256
    Function.update d it.dbNum (some (storeLoop (d.bytes it.dbNum) it.byteOff wdata))
  else d

/-- The items of a write; `wd` is the rest of the data section. -/
def simWriteItems (d : DbMemory) (wd : List UInt8) : List PlcItem → DbMemory
  | [] => d
  | it :: its =>
    if 4 ≤ wd.length then
      simWriteItems (simWriteItem d it ((wd.drop 4).take it.dataLen)) (wd.drop (4 + it.dataLen)) its
    else simWriteItems d wd its

/-- The parameters of a userdata request. -/
def isUserdata : List UInt8 → Bool
  | func :: b1 :: b2 :: _ :: b4 :: b5 :: _ =>
    func == 0x00 && b1 == 0x01 && b2 == 0x12 && b4 == 0x11 && b5 == 0x44
  | _ => false

/-- The data section of a status request. -/
def isStatus : List UInt8 → Bool
  | _ :: _ :: _ :: _ :: b4 :: b5 :: _ => b4 == 0x04 && b5 == 0x24
  | _ => false

/-- `handle_s7_request`. -/
def handleSimRequest (d : DbMemory) (req : Request) : Option (Frame × DbMemory) :=
  match req.params with
  | func :: _ :: _ =>
    if isUserdata req.params then
      if isStatus req.data then some (buildPlcStatusResp req.refn 0x08, d)
      else some (buildSzlResp req.refn, d)
    else if func = 0x04 then
      let (data, d) := simReadItems d req.items
      some (buildReadResp data req.refn, d)
    else if func = 0x05 then some (buildWriteResp req.refn, simWriteItems d req.data req.items)
    else none
  | _ => none

/-- The function code of a userdata request is neither that of a read nor that of a write. -/
theorem isUserdata_head {func : UInt8} {rest : List UInt8} (h : isUserdata (func :: rest) = true) :
    func = 0x00 := by
  rcases rest with _ | ⟨b1, _ | ⟨b2, _ | ⟨b3, _ | ⟨b4, _ | ⟨b5, rest⟩⟩⟩⟩⟩
  · cases h
  · cases h
  · cases h
  · cases h
  · cases h
  · simp only [isUserdata, Bool.and_eq_true, beq_iff_eq] at h
    exact h.1.1.1.1

/-- What the simulator does with a request, and what `handleS7Request` does with it: a read, a
    write, or something that has nothing to do with the blocks. -/
theorem handleSimRequest_cases (req : Request) :
    ((∀ m, handleS7Request m req = none) ∧
      ((∀ d, handleSimRequest d req = none) ∨
        (∀ d, handleSimRequest d req = some (buildPlcStatusResp req.refn 0x08, d)) ∨
        ∀ d, handleSimRequest d req = some (buildSzlResp req.refn, d))) ∨
    (req.params.head? = some 0x04 ∧
      (∀ m, handleS7Request m req = some (buildReadResp
        (req.items.flatMap fun it => window (m it.region) it.byteOff it.dataLen) req.refn, m)) ∧
      ∀ d, handleSimRequest d req =
        some (buildReadResp (simReadItems d req.items).1 req.refn, (simReadItems d req.items).2)) ∨
    req.params.head? = some 0x05 ∧
      (∀ m, handleS7Request m req = some (buildWriteResp req.refn, storeItems m req.data req.items)) ∧
      ∀ d, handleSimRequest d req = some (buildWriteResp req.refn, simWriteItems d req.data req.items) := by
  obtain ⟨mt, refn, params, data⟩ := req
  rcases params with _ | ⟨func, _ | ⟨n, rest⟩⟩
  · exact Or.inl ⟨fun _ => rfl, Or.inl fun _ => rfl⟩
  · exact Or.inl ⟨fun _ => rfl, Or.inl fun _ => rfl⟩
  unfold handleSimRequest handleS7Request
  by_cases hu : isUserdata (func :: n :: rest) = true
  · cases isUserdata_head hu
    refine Or.inl ⟨fun _ => rfl, Or.inr ?_⟩
    simp only [if_pos hu]
    by_cases hs : isStatus data = true
    · exact Or.inl fun d => if_pos hs
    · exact Or.inr fun d => if_neg hs
  simp only [if_neg hu]
  by_cases h4 : func = 0x04
  · exact Or.inr (Or.inl ⟨congrArg some h4, fun _ => if_pos h4, fun _ => if_pos h4⟩)
  by_cases h5 : func = 0x05
  · refine Or.inr (Or.inr ⟨congrArg some h5, fun _ => ?_, fun _ => ?_⟩)
    · rw [if_neg h4, if_pos h5]
    · rw [if_neg h4, if_pos h5]
  · refine Or.inl ⟨fun _ => ?_, Or.inl fun _ => ?_⟩
    · rw [if_neg h4, if_neg h5]
    · rw [if_neg h4, if_neg h5]

/-! ## 4. The table of the blocks -/

/-- The blocks of `d` are there in `d'`, as long as they were; one that is new has 256 bytes. -/
structure Keeps (d d' : DbMemory) : Prop where
  kept : ∀ n l, d n = some l → ∃ l', d' n = some l' ∧ l'.length = l.length
  made : ∀ n l', d n = none → d' n = some l' → l'.length = 256

section Keeps

variable {d d' d'' : DbMemory}

theorem Keeps.refl (d : DbMemory) : Keeps d d :=
  ⟨fun _ l h => ⟨l, h, rfl⟩, fun _ _ hn hs => by cases hn.symm.trans hs⟩

theorem Keeps.trans (h : Keeps d d') (h' : Keeps d' d'') : Keeps d d'' where
  kept n l hl := by
    obtain ⟨l', hl', hlen⟩ := h.kept n l hl
    obtain ⟨l'', hl'', hlen'⟩ := h'.kept n l' hl'
    exact ⟨l'', hl'', hlen'.trans hlen⟩
  made n l'' hn hl'' := by
    cases hd : d' n with
    | none => exact h'.made n l'' hd hl''
    | some l' =>
      obtain ⟨_, hl, hlen⟩ := h'.kept n l' hd
      cases hl.symm.trans hl''
      exact hlen.trans (h.made n l' hn hd)

theorem keeps_ensureDb (d : DbMemory) (n : Nat) : Keeps d (ensureDb d n 256) := by
  unfold ensureDb
  split
  · exact .refl d
  · rename_i hnone
    refine ⟨fun k l hl => ?_, fun k l' hk hl' => ?_⟩
    · have hne : k ≠ n := by
        rintro rfl
        exact hnone (by rw [hl]; rfl)
      exact ⟨l, by rw [Function.update_of_ne hne, hl], rfl⟩
    · by_cases hkn : k = n
      · subst hkn
        rw [Function.update_self] at hl'
        cases hl'
        exact List.length_replicate
      · rw [Function.update_of_ne hkn, hk] at hl'
        cases hl'

/-- A block put in the place of one of the same length. -/
theorem keeps_update {n : Nat} {l l' : List UInt8} (h : d n = some l) (hlen : l'.length = l.length) :
    Keeps d (Function.update d n (some l')) := by
  refine ⟨fun k m hm => ?_, fun k m hk hm => ?_⟩
  · by_cases hkn : k = n
    · subst hkn
      cases h.symm.trans hm
      exact ⟨l', Function.update_self .., hlen⟩
    · exact ⟨m, by rw [Function.update_of_ne hkn, hm], rfl⟩
  · have hkn : k ≠ n := by
      rintro rfl
      cases h.symm.trans hk
    rw [Function.update_of_ne hkn, hk] at hm
    cases hm

theorem keeps_readItem (d : DbMemory) (it : PlcItem) : Keeps d (simReadItem d it).2 := by
  unfold simReadItem
  split
  · exact keeps_ensureDb d it.dbNum
  · exact .refl d

theorem keeps_writeItem (d : DbMemory) (it : PlcItem) (wdata : List UInt8) :
    Keeps d (simWriteItem d it wdata) := by
  unfold simWriteItem
  split
  · obtain ⟨l, hl⟩ := ensureDb_some d it.dbNum 256
    refine (keeps_ensureDb d it.dbNum).trans (keeps_update hl ?_)
    rw [storeLoop_eq, length_clip, DbMemory.bytes, hl]
    rfl
  · exact .refl d

theorem keeps_readItems (d : DbMemory) (its : List PlcItem) : Keeps d (simReadItems d its).2 := by
  induction its generalizing d with
  | nil => exact .refl d
  | cons it its ih => exact (keeps_readItem d it).trans (ih _)

theorem keeps_writeItems (d : DbMemory) (wd : List UInt8) (its : List PlcItem) :
    Keeps d (simWriteItems d wd its) := by
  induction its generalizing d wd with
  | nil => exact .refl d
  | cons it its ih =>
    rw [simWriteItems]
    split
    · exact (keeps_writeItem d it _).trans (ih _ _)
    · exact ih _ _

/-- **No request changes the size of a block, or removes one.** -/
theorem handleSimRequest_keeps {req : Request} {resp : Frame}
    (h : handleSimRequest d req = some (resp, d')) : Keeps d d' := by
  rcases handleSimRequest_cases req with ⟨-, hn | hst | hszl⟩ | ⟨-, -, hr⟩ | ⟨-, -, hw⟩
  · cases (hn d).symm.trans h
  · obtain ⟨-, rfl⟩ := Prod.mk.inj (Option.some.inj ((hst d).symm.trans h))
    exact .refl d
  · obtain ⟨-, rfl⟩ := Prod.mk.inj (Option.some.inj ((hszl d).symm.trans h))
    exact .refl d
  · cases (hr d).symm.trans h
    exact keeps_readItems d _
  · cases (hw d).symm.trans h
    exact keeps_writeItems d _ _

/-- How many bytes an item of a read returns does not depend on what the blocks hold. -/
theorem length_readItem {d₀ : DbMemory} (h : Keeps d₀ d) (it : PlcItem) :
    (simReadItem d it).1.length = (simReadItem d₀ it).1.length := by
  -- a block that is not there yet is made as long as it would have been made before
  have hlen : ((ensureDb d it.dbNum 256).bytes it.dbNum).length =
      ((ensureDb d₀ it.dbNum 256).bytes it.dbNum).length := by
    have hmade := h.trans (keeps_ensureDb d it.dbNum)
    obtain ⟨l, hl⟩ := ensureDb_some d it.dbNum 256
    rw [DbMemory.bytes, DbMemory.bytes, hl]
    cases h₀ : d₀ it.dbNum with
    | some l₀ =>
      obtain ⟨l', hl', hlen⟩ := hmade.kept _ l₀ h₀
      cases hl.symm.trans hl'
      rw [ensureDb_of_some 256 h₀, h₀]
      exact hlen
    | none =>
      rw [ensureDb_of_none 256 h₀, Function.update_self]
      exact (hmade.made _ l h₀ hl).trans List.length_replicate.symm
  unfold simReadItem
  split
  · simp only [length_slice, hlen]
  · rfl

theorem length_readItems {d₀ : DbMemory} (h : Keeps d₀ d) (its : List PlcItem) :
    (simReadItems d its).1.length = (its.map fun it => (simReadItem d₀ it).1.length).sum := by
  induction its generalizing d with
  | nil => rfl
  | cons it its ih =>
    show ((simReadItem d it).1 ++ (simReadItems (simReadItem d it).2 its).1).length = _
    rw [List.length_append, length_readItem h, ih (h.trans (keeps_readItem d it)), List.map_cons,
      List.sum_cons]

end Keeps

/-- A byte of a block; a block not made yet is one of zeros. -/
def byteOf (d : DbMemory) (n i : Nat) : Option UInt8 := ((d n).getD (List.replicate 256 0))[i]?

section Bytes

variable (d : DbMemory) (n i : Nat)

theorem byteOf_ensureDb (k : Nat) : byteOf (ensureDb d k 256) n i = byteOf d n i := by
  by_cases hn : n = k
  · subst hn
    cases hd : d n with
    | some l => rw [ensureDb_of_some 256 hd]
    | none =>
      rw [byteOf, byteOf, ensureDb, if_neg (by rw [hd]; decide), Function.update_self, hd]
      rfl
  · rw [byteOf, byteOf, ensureDb_other _ _ _ hn]

theorem byteOf_readItems (its : List PlcItem) : byteOf (simReadItems d its).2 n i = byteOf d n i := by
  induction its generalizing d with
  | nil => rfl
  | cons it its ih =>
    refine (ih (simReadItem d it).2).trans ?_
    unfold simReadItem
    split
    · exact byteOf_ensureDb d n i it.dbNum
    · rfl

variable {n i}

theorem byteOf_writeItem {it : PlcItem} {wdata : List UInt8} (hlen : wdata.length ≤ it.dataLen)
    (hc : (Region.db n, i) ∉ cells it.range) : byteOf (simWriteItem d it wdata) n i = byteOf d n i := by
  unfold simWriteItem
  split
  case isFalse => rfl
  case isTrue harea =>
    rw [← byteOf_ensureDb d n i it.dbNum]
    obtain ⟨l, hl⟩ := ensureDb_some d it.dbNum 256
    by_cases hn : n = it.dbNum
    · subst hn
      have hout : ¬(it.byteOff ≤ i ∧ i < it.byteOff + it.dataLen) := fun hi =>
        hc ⟨(if_pos harea).symm, hi.1, hi.2⟩
      rw [byteOf, byteOf, Function.update_self, storeLoop_eq, DbMemory.bytes, hl]
      show (clip l it.byteOff wdata)[i]? = l[i]?
      rw [clip_getElem?]
      cases l[i]? with
      | none => rfl
      | some x =>
        refine congrArg some ?_
        split
        · rw [List.getElem?_eq_none (by omega)]
          rfl
        · rfl
    · rw [byteOf, byteOf, Function.update_of_ne hn]

theorem byteOf_writeItems (wd : List UInt8) {its : List PlcItem}
    (hc : ∀ it ∈ its, (Region.db n, i) ∉ cells it.range) :
    byteOf (simWriteItems d wd its) n i = byteOf d n i := by
  induction its generalizing d wd with
  | nil => rfl
  | cons it its ih =>
    obtain ⟨hit, hits⟩ := List.forall_mem_cons.mp hc
    rw [simWriteItems]
    split
    · rw [ih _ _ hits, byteOf_writeItem d (List.length_take_le _ _) hit]
    · exact ih _ _ hits

/-- **A request changes the bytes it names, if it is a write**, and no others. -/
theorem handleSimRequest_bytes {q : Frame} {req : Request} (hq : parseS7Request q = some req)
    {d d' : DbMemory} {resp : Frame} (h : handleSimRequest d req = some (resp, d'))
    (hc : (Region.db n, i) ∉ storedCells q) : byteOf d' n i = byteOf d n i := by
  rcases handleSimRequest_cases req with ⟨-, hn | hst | hszl⟩ | ⟨-, -, hr⟩ | ⟨hf, -, hw⟩
  · cases (hn d).symm.trans h
  · obtain ⟨-, rfl⟩ := Prod.mk.inj (Option.some.inj ((hst d).symm.trans h))
    rfl
  · obtain ⟨-, rfl⟩ := Prod.mk.inj (Option.some.inj ((hszl d).symm.trans h))
    rfl
  · cases (hr d).symm.trans h
    exact byteOf_readItems d n i _
  · cases (hw d).symm.trans h
    refine byteOf_writeItems d _ fun it hit hcell => hc ⟨?_, mem_namedCells hq hit hcell⟩
    rw [function, hq]
    exact hf

end Bytes

/-! ## 5. Inside of the blocks -/

/-- The memory `m` holds what the blocks of `d` do. -/
def Holds (d : DbMemory) (m : Mem) : Prop := ∀ n l, d n = some l → BeginsWith (m (.db n)) l

/-- A range inside of a block. -/
def Inside (d : DbMemory) (a : Region × Nat × Nat) : Prop :=
  ∃ n l, a.1 = .db n ∧ d n = some l ∧ a.2.1 + a.2.2 ≤ l.length

/-- The blocks of `d'` are those of `d`, of the same sizes. -/
def SameSizes (d d' : DbMemory) : Prop := ∀ n, (d' n).map List.length = (d n).map List.length

def simServe (d : DbMemory) (q : Frame) : Option (Frame × DbMemory) :=
  (parseS7Request q).bind (handleSimRequest d)

section Inside

variable {d d' : DbMemory} {m : Mem}

theorem Inside.sameSizes {a : Region × Nat × Nat} (h : Inside d a) (hs : SameSizes d d') :
    Inside d' a := by
  obtain ⟨n, l, hr, hl, hlen⟩ := h
  have hmap := hs n
  rw [hl] at hmap
  obtain ⟨l', hl', hlen'⟩ := Option.map_eq_some_iff.mp hmap
  exact ⟨n, l', hr, hl', by rw [hlen']; exact hlen⟩

theorem region_eq_db {it : PlcItem} {n : Nat} (h : it.region = .db n) : it.area = 0x84 ∧ it.dbNum = n := by
  unfold PlcItem.region regionOf at h
  repeat' split at h
  all_goals first
    | exact ⟨‹_›, Region.db.inj h⟩
    | cases h

/-- One item in a block that there is. -/
theorem simReadItem_db {it : PlcItem} (harea : it.area = 0x84) {l : List UInt8} (hl : d it.dbNum = some l) :
    simReadItem d it = (slice l it.byteOff it.dataLen, d) := by
  rw [simReadItem, if_pos harea, ensureDb_of_some 256 hl]
  show (slice (d.bytes it.dbNum) it.byteOff it.dataLen, d) = _
  rw [DbMemory.bytes, hl]
  rfl

theorem simWriteItem_db {it : PlcItem} (harea : it.area = 0x84) {l : List UInt8}
    (hl : d it.dbNum = some l) (wdata : List UInt8) :
    simWriteItem d it wdata = Function.update d it.dbNum (some (clip l it.byteOff wdata)) := by
  rw [simWriteItem, if_pos harea, ensureDb_of_some 256 hl]
  show Function.update d it.dbNum (some (storeLoop (d.bytes it.dbNum) it.byteOff wdata)) = _
  rw [storeLoop_eq, DbMemory.bytes, hl]
  rfl

theorem simReadItem_inside (h : Holds d m) {it : PlcItem} (hin : Inside d it.range) :
    simReadItem d it = (window (m it.region) it.byteOff it.dataLen, d) := by
  obtain ⟨n, l, hr, hl, hlen⟩ := hin
  obtain ⟨harea, rfl⟩ := region_eq_db hr
  have hreg : it.region = .db it.dbNum := hr
  have hwin : slice l it.byteOff it.dataLen = window (m (.db it.dbNum)) it.byteOff it.dataLen :=
    slice_window (h _ _ hl) hlen
  rw [simReadItem_db harea hl, hreg, hwin]

theorem simWriteItem_inside (h : Holds d m) {it : PlcItem} (hin : Inside d it.range)
    (wdata : List UInt8) : Holds (simWriteItem d it wdata) (m.store it.region it.byteOff wdata) ∧
      SameSizes d (simWriteItem d it wdata) := by
  obtain ⟨n, l, hr, hl, hlen⟩ := hin
  obtain ⟨harea, rfl⟩ := region_eq_db hr
  have hreg : it.region = .db it.dbNum := hr
  rw [simWriteItem_db harea hl, hreg]
  refine ⟨fun k l' hk => ?_, fun k => ?_⟩
  · by_cases hkn : k = it.dbNum
    · subst hkn
      rw [Function.update_self] at hk
      cases hk
      rw [Mem.store_same]
      exact clip_window (h _ _ hl) _ _
    · rw [Function.update_of_ne hkn] at hk
      rw [Mem.store_other m (fun e => hkn (Region.db.inj e))]
      exact h k l' hk
  · by_cases hkn : k = it.dbNum
    · subst hkn
      rw [Function.update_self, hl]
      exact congrArg some (length_clip ..)
    · rw [Function.update_of_ne hkn]

theorem simReadItems_inside (h : Holds d m) {its : List PlcItem} (hin : ∀ it ∈ its, Inside d it.range) :
    simReadItems d its =
      (its.flatMap fun it => window (m it.region) it.byteOff it.dataLen, d) := by
  induction its with
  | nil => rfl
  | cons it its ih =>
    obtain ⟨hit, hits⟩ := List.forall_mem_cons.mp hin
    simp only [simReadItems, simReadItem_inside h hit, ih hits, List.flatMap_cons]

theorem simWriteItems_inside (h : Holds d m) (wd : List UInt8) {its : List PlcItem}
    (hin : ∀ it ∈ its, Inside d it.range) :
    Holds (simWriteItems d wd its) (storeItems m wd its) ∧ SameSizes d (simWriteItems d wd its) := by
  induction its generalizing d m wd with
  | nil => exact ⟨h, fun _ => rfl⟩
  | cons it its ih =>
    obtain ⟨hit, hits⟩ := List.forall_mem_cons.mp hin
    rw [simWriteItems, storeItems]
    split
    · obtain ⟨hh, hs⟩ := simWriteItem_inside h hit ((wd.drop 4).take it.dataLen)
      obtain ⟨hh', hs'⟩ := ih hh (wd.drop (4 + it.dataLen)) fun it' hit' => (hits it' hit').sameSizes hs
      exact ⟨hh', fun n => (hs' n).trans (hs n)⟩
    · exact ih h wd hits

/-- **Requests inside of the blocks**: the simulator replies as `plcServe` does, and goes on holding
    what its memory does; the blocks keep their sizes. -/
theorem simServe_refines (h : Holds d m) {q resp : Frame} {m' : Mem}
    (hin : ∀ a ∈ asked q, Inside d a) (hs : plcServe m q = some (resp, m')) :
    ∃ d', simServe d q = some (resp, d') ∧ Holds d' m' ∧ SameSizes d d' := by
  unfold plcServe at hs
  unfold simServe
  cases hp : parseS7Request q with
  | none => rw [hp] at hs; cases hs
  | some req =>
    rw [hp] at hs
    have hs : handleS7Request m req = some (resp, m') := hs
    show ∃ d', handleSimRequest d req = some (resp, d') ∧ _
    have hitems : ∀ it ∈ req.items, Inside d it.range := fun it hit => hin _ (by
      rw [asked, hp]
      exact List.mem_map_of_mem hit)
    rcases handleSimRequest_cases req with ⟨hn, -⟩ | ⟨-, hr, hsim⟩ | ⟨-, hw, hsim⟩
    · cases (hn m).symm.trans hs
    · cases (hr m).symm.trans hs
      rw [hsim d, simReadItems_inside h hitems]
      exact ⟨d, rfl, h, fun _ => rfl⟩
    · cases (hw m).symm.trans hs
      obtain ⟨hh, hsize⟩ := simWriteItems_inside h req.data hitems
      exact ⟨_, hsim d, hh, hsize⟩

/-- Requests one after the other, each of which is replied to. -/
def serveAll {σ : Type} (serve : σ → Frame → Option (Frame × σ)) : List Frame → σ → Option (List Frame × σ)
  | [], s => some ([], s)
  | q :: qs, s => do
    let (resp, s) ← serve s q
    let (resps, s) ← serveAll serve qs s
    return (resp :: resps, s)

theorem serveAll_cons {σ : Type} {serve : σ → Frame → Option (Frame × σ)} {q resp : Frame}
    {qs resps : List Frame} {s s₁ s₂ : σ} (h₁ : serve s q = some (resp, s₁))
    (h₂ : serveAll serve qs s₁ = some (resps, s₂)) :
    serveAll serve (q :: qs) s = some (resp :: resps, s₂) := by
  rw [serveAll, h₁]
  show (serveAll serve qs s₁).bind _ = _
  rw [h₂]
  rfl

/-- **Any run of requests inside of the blocks**: the simulator gives the replies that `plcServe`
    gives, and holds in the end what its memory does, in blocks of the same sizes. -/
theorem serveAll_refines {qs : List Frame} (h : Holds d m) (hin : ∀ q ∈ qs, ∀ a ∈ asked q, Inside d a)
    {resps : List Frame} {m' : Mem} (hs : serveAll plcServe qs m = some (resps, m')) :
    ∃ d', serveAll simServe qs d = some (resps, d') ∧ Holds d' m' ∧ SameSizes d d' := by
  induction qs generalizing d m resps with
  | nil =>
    cases hs
    exact ⟨d, rfl, h, fun _ => rfl⟩
  | cons q qs ih =>
    obtain ⟨hq, hqs⟩ := List.forall_mem_cons.mp hin
    obtain ⟨⟨resp, m₁⟩, h₁, hrest⟩ := Option.bind_eq_some_iff.mp hs
    obtain ⟨⟨resps', m₂⟩, h₂, hret⟩ := Option.bind_eq_some_iff.mp hrest
    cases hret
    obtain ⟨d₁, hd₁, hh₁, hsize₁⟩ := simServe_refines h hq h₁
    obtain ⟨d', hd', hh', hsize'⟩ :=
      ih hh₁ (fun q' hq' a ha => (hqs q' hq' a ha).sameSizes hsize₁) h₂
    exact ⟨d', serveAll_cons hd₁ hd', hh', fun n => (hsize' n).trans (hsize₁ n)⟩

end Inside

/-- One block of four bytes, and a memory that holds it. -/
def fourBytes : DbMemory := Function.update (fun _ => none) 1 (some [1, 2, 3, 4])

def fourMem : Mem := fun _ i => [1, 2, 3, 4].getD i 0

theorem holds_fourBytes : Holds fourBytes fourMem := by
  intro n l hl
  by_cases hn : n = 1
  · subst hn
    cases (Function.update_self ..).symm.trans hl
    intro i x hx
    show [1, 2, 3, 4].getD i 0 = x
    rw [List.getD_eq_getElem?_getD, hx]
    rfl
  · rw [fourBytes, Function.update_of_ne hn] at hl
    cases hl

theorem inside_fourBytes {off n : Nat} (h : off + n ≤ 4) : Inside fourBytes (.db 1, off, n) :=
  ⟨1, [1, 2, 3, 4], rfl, rfl, h⟩

/-- Two bytes are stored in the middle of the block, and the whole of it is read. -/
theorem serveAll_refines_four : ∃ d', serveAll simServe
      [writeFrame (.dataBlock 1) 1 [9, 9] 1, readFrame (.dataBlock 1) 0 4 1] fourBytes =
        some ([buildWriteResp 1, buildReadResp [1, 9, 9, 4] 1], d') ∧
    Holds d' (fourMem.store (.db 1) 1 [9, 9]) ∧ SameSizes fourBytes d' := by
  have hw : plcServe fourMem (writeFrame (.dataBlock 1) 1 [9, 9] 1) =
      some (buildWriteResp 1, fourMem.store (.db 1) 1 [9, 9]) :=
    plcServe_writeFrame fourMem (.dataBlock 1) 1 1 (by decide)
  have hr : plcServe (fourMem.store (.db 1) 1 [9, 9]) (readFrame (.dataBlock 1) 0 4 1) =
      some (buildReadResp [1, 9, 9, 4] 1, fourMem.store (.db 1) 1 [9, 9]) :=
    plcServe_readFrame _ (.dataBlock 1) 0 4 1
  have hrun : serveAll plcServe [writeFrame (.dataBlock 1) 1 [9, 9] 1, readFrame (.dataBlock 1) 0 4 1]
      fourMem = some ([buildWriteResp 1, buildReadResp [1, 9, 9, 4] 1], fourMem.store (.db 1) 1 [9, 9]) :=
    serveAll_cons hw (serveAll_cons hr rfl)
  refine serveAll_refines holds_fourBytes ?_ hrun
  intro q hq a ha
  simp only [List.mem_cons, List.not_mem_nil, or_false] at hq
  rcases hq with rfl | rfl
  · rw [asked_writeFrame _ _ _ (by decide)] at ha
    cases List.mem_singleton.mp ha
    exact inside_fourBytes (by decide)
  · rw [asked_readFrame] at ha
    cases List.mem_singleton.mp ha
    exact inside_fourBytes (by decide)

end MoonS7
