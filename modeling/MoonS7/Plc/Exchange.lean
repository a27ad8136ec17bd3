import MoonS7.Client.Client
import MoonS7.Plc.Simulator

/-!
# The client against the PLC

The PLC as the other end of the client's connection (`plc`): it serves each request as it comes
and keeps the replies until the client takes them.

Main results: the runs of the two loops for arbitrary areas, offsets and data
(`run_chunkedRead`, `run_chunkedWrite`), and from them

* `byteRead_exact` -- a read of a range the PLC can address returns exactly its bytes;
* `byteWrite_exact` -- a write to such a range changes exactly its bytes.
-/

namespace MoonS7

open Interaction Port Ranges

/-! ## 1. The PLC as an environment -/

/-- The PLC's memory, the replies not taken yet, and the requests served so far. -/
structure PlcLink where
  mem : Mem
  replies : List Frame
  served : List Frame

def plcSend (q : Frame) (s : PlcLink) : Except S7Error Unit × PlcLink :=
  match plcServe s.mem q with
  | some (resp, m) => (.ok (), ⟨m, s.replies ++ [resp], s.served ++ [q]⟩)
  | none => (.ok (), { s with served := s.served ++ [q] })

def plcReceive (s : PlcLink) : Except S7Error Frame × PlcLink :=
  match s.replies with
  | r :: rs => (.ok r, { s with replies := rs })
  | [] => (.error (.timeout "read timeout"), s)

def plc : (c : Call Frame) → PlcLink → Reply Frame Frame S7Error c × PlcLink :=
  handler plcSend plcReceive

/-- With no reply outstanding, an exchange returns the reply to its own request. -/
theorem run_plc_exchange {s : PlcLink} {q resp : Frame} {m : Mem}
    (h : plcServe s.mem q = some (resp, m)) (hs : s.replies = []) :
    run plc (exchange Stop.err q : Client Frame).run s = (.ok resp, ⟨m, [], s.served ++ [q]⟩) := by
  have hsend : plcSend q s = (.ok (), ⟨m, [resp], s.served ++ [q]⟩) := by
    rw [plcSend, h, hs]
    rfl
  exact run_exchange_ok hsend rfl

section Loops

variable (cl : S7Client) (area : Area) (start : Int32)

/-- The bytes a read takes for the pieces `l`. -/
def readPieces (m : Mem) (l : List (Nat × Nat)) : List (List UInt8) :=
  l.map fun p => window (m area.region) (bits (start + Int32.ofNat p.1) % 2 ^ 21) p.2

/-- The memory after the pieces `l` of `data` have been written. -/
def writePieces (data : List UInt8) (m : Mem) (l : List (Nat × Nat)) : Mem :=
  l.foldl (fun m p => m.store area.region (bits (start + Int32.ofNat p.1) % 2 ^ 21)
    ((data.drop p.1).take p.2)) m

theorem run_readReqs {l : List (Nat × Nat)} (hl : ∀ p ∈ l, p.2 ≤ 937) {s : PlcLink}
    (hs : s.replies = []) :
    run plc (session Stop.err readCheck (l.map (readReq cl area start)) :
        Client (List (List UInt8))).run s =
      (.ok (readPieces area start s.mem l), { s with
        served := s.served ++ l.map fun p =>
          readFrame area (start + Int32.ofNat p.1) (Int32.ofNat p.2) cl.pduRef }) := by
  induction l generalizing s with
  | nil =>
    obtain ⟨m, rs, served⟩ := s
    simp [readPieces]
  | cons p l ih =>
    have hp := hl p List.mem_cons_self
    have hn : bits (Int32.ofNat p.2) % 65536 = p.2 := by
      rw [bits_ofNat]
      omega
    have hserve := plcServe_readFrame s.mem area (start + Int32.ofNat p.1) (Int32.ofNat p.2) cl.pduRef
    rw [hn] at hserve
    have hcheck : readCheck (buildReadResp (window (s.mem area.region)
        (bits (start + Int32.ofNat p.1) % 2 ^ 21) p.2) (bits cl.pduRef % 65536)) =
        .ok (window (s.mem area.region) (bits (start + Int32.ofNat p.1) % 2 ^ 21) p.2) := by
      rw [readCheck, parseResponse_buildReadResp (by rw [length_window]; omega)]
      rfl
    rw [List.map_cons, readReq, run_session_cons (run_plc_exchange hserve hs) hcheck,
      ih (fun q hq => hl q (List.mem_cons_of_mem _ hq)) rfl]
    simp [readPieces, hs, Except.bind]

theorem run_writeReqs (data : List UInt8) {l : List (Nat × Nat)}
    (hl : ∀ p ∈ l, p.2 ≤ 929 ∧ p.1 + p.2 ≤ data.length) {s : PlcLink} (hs : s.replies = []) :
    ∃ bs, run plc (session Stop.err writeReply (l.map (writeReq cl area start data)) :
        Client (List Unit)).run s =
      (.ok bs, ⟨writePieces area start data s.mem l, [],
        s.served ++ l.map fun p =>
          writeFrame area (start + Int32.ofNat p.1) ((data.drop p.1).take p.2) cl.pduRef⟩) := by
  induction l generalizing s with
  | nil =>
    obtain ⟨m, rs, served⟩ := s
    cases hs
    exact ⟨[], by simp [writePieces]⟩
  | cons p l ih =>
    obtain ⟨hp, hb⟩ := hl p List.mem_cons_self
    have hlen : ((data.drop p.1).take p.2).length ≤ 929 := by
      rw [List.length_take]
      omega
    have hserve := plcServe_writeFrame s.mem area (start + Int32.ofNat p.1) cl.pduRef hlen
    have hcheck := (writeReply_writeResp 0xFF (bits cl.pduRef % 65536)).mpr rfl
    obtain ⟨bs, hbs⟩ := ih (fun q hq => hl q (List.mem_cons_of_mem _ hq))
      (s := ⟨s.mem.store area.region (bits (start + Int32.ofNat p.1) % 2 ^ 21)
        ((data.drop p.1).take p.2), [], s.served ++ [writeFrame area (start + Int32.ofNat p.1)
        ((data.drop p.1).take p.2) cl.pduRef]⟩) rfl
    refine ⟨() :: bs, ?_⟩
    rw [List.map_cons, writeReq, if_pos hp, run_session_cons (run_plc_exchange hserve hs) hcheck, hbs]
    simp [writePieces, Except.bind]

end Loops

/-! ## 2. The runs of the loops -/

section Runs

variable {cl : S7Client} (hc : cl.connected = true) (hpdu : cl.pduSize.toInt ≤ 960) (area : Area)
  (start : Int32)

include hc hpdu

/-- **A read of any range**: one request for each piece, the payloads joined. -/
theorem run_chunkedRead (size : Int32) {s : PlcLink} (hs : s.replies = []) :
    run plc (chunkedRead cl area start size).run s =
      (if size.toInt ≤ 0 then err (.itemNotFound "No data")
        else .ok (readPieces area start s.mem
          (cuts (maxChunk cl.pduSize 23) 0 size.toInt.toNat)).flatten,
      { s with served := s.served ++ (cuts (maxChunk cl.pduSize 23) 0 size.toInt.toNat).map fun p =>
          readFrame area (start + Int32.ofNat p.1) (Int32.ofNat p.2) cl.pduRef }) := by
  have hl : ∀ p ∈ cuts (maxChunk cl.pduSize 23) 0 size.toInt.toNat, p.2 ≤ 937 := fun p hp =>
    chunk_le hpdu (by decide) hp
  have hlen : (readPieces area start s.mem
      (cuts (maxChunk cl.pduSize 23) 0 size.toInt.toNat)).flatten.length = size.toInt.toNat := by
    rw [List.length_flatten, readPieces, List.map_map]
    refine Eq.trans ?_ (tiles_cuts (maxChunk cl.pduSize 23) 0 size.toInt.toNat).sum
    congr 1
    exact List.map_congr_left fun p _ => length_window _ _ _
  rw [chunkedRead_eq hc, readReqs, run_op_ok plc (run_readReqs cl area start hl hs)]
  simp only [hlen]
  split
  · rw [if_pos (by omega)]
    rfl
  · rw [if_neg (by omega)]
    rfl

/-- **A write of any data**: one request for each piece, stored one after the other. -/
theorem run_chunkedWrite (data : List UInt8) {s : PlcLink} (hs : s.replies = []) :
    run plc (chunkedWrite cl area start data).run s =
      (.ok (), ⟨writePieces area start data s.mem (cuts (maxChunk cl.pduSize 35) 0 data.length), [],
        s.served ++ (cuts (maxChunk cl.pduSize 35) 0 data.length).map fun p =>
          writeFrame area (start + Int32.ofNat p.1) ((data.drop p.1).take p.2) cl.pduRef⟩) := by
  have hl : ∀ p ∈ cuts (maxChunk cl.pduSize 35) 0 data.length,
      p.2 ≤ 929 ∧ p.1 + p.2 ≤ data.length := fun p hp =>
    ⟨Nat.le_trans (chunk_le hpdu (by decide) hp) (by decide),
      by have := ((tiles_cuts _ 0 data.length).bounds hp).2.2; omega⟩
  obtain ⟨bs, hbs⟩ := run_writeReqs cl area start data hl hs
  rw [chunkedWrite_eq hc, writeReqs, run_op_ok plc hbs]
  rfl

end Runs

/-! ## 3. Ranges the PLC can address -/

/-- The offset of a piece, if its address fits the 24 bits of the field. -/
theorem bits_start_add {start : Int32} {k : Nat} (h₀ : 0 ≤ start.toInt)
    (h : start.toInt + k < 2 ^ 21) :
    bits (start + Int32.ofNat k) % 2 ^ 21 = start.toInt.toNat + k := by
  rw [bits_add, bits_of_nonneg h₀, bits_ofNat]
  omega

section Range

variable {area : Area} {r : Region} (ha : Names area r) {start : Int32} (h₀ : 0 ≤ start.toInt)

include ha h₀

/-- What is read piece by piece is the range. -/
theorem readPieces_eq {n : Nat} {l : List (Nat × Nat)} (ht : Tiles 0 n l)
    (hr : start.toInt + n ≤ 2 ^ 21) (m : Mem) :
    (readPieces area start m l).flatten = window (m r) start.toInt.toNat n := by
  have hm := (ht.shift start.toInt.toNat).flatten_window (m r)
  rw [List.map_map, Nat.add_zero] at hm
  rw [← hm, readPieces]
  congr 1
  refine List.map_congr_left fun p hp => ?_
  have hb := ht.bounds hp
  rw [ha.region, bits_start_add h₀ (by omega)]
  rfl

/-- What is written piece by piece, after the first `s` bytes, is the data up to `s + n`. -/
theorem writePieces_eq {data : List UInt8} {s n : Nat} {l : List (Nat × Nat)} (ht : Tiles s n l)
    (hn : s + n ≤ data.length) (hr : start.toInt + data.length ≤ 2 ^ 21) (m : Mem) :
    writePieces area start data (m.store r start.toInt.toNat (data.take s)) l =
      m.store r start.toInt.toNat (data.take (s + n)) := by
  induction ht with
  | nil => rfl
  | cons hc _ ih =>
    rename_i s c n l _
    have hstore : (m.store r start.toInt.toNat (data.take s)).store area.region
        (bits (start + Int32.ofNat s) % 2 ^ 21) ((data.drop s).take c) =
        m.store r start.toInt.toNat (data.take (s + c)) := by
      rw [ha.region, bits_start_add h₀ (by omega), Mem.store_take _ _ _ (by omega)]
    rw [writePieces, List.foldl_cons, hstore, ← Nat.add_assoc]
    exact ih (by omega)

end Range

section Range

variable {cl : S7Client} (hc : cl.connected = true) (hpdu : cl.pduSize.toInt ≤ 960) {area : Area}
  {r : Region} (ha : Names area r) {start : Int32} (h₀ : 0 ≤ start.toInt)

include hc hpdu ha h₀

/-- **A read of a range that the PLC can address**: its bytes. -/
theorem run_byteRead {size : Int32} (h₁ : 1 ≤ size.toInt) (hr : start.toInt + size.toInt ≤ 2 ^ 21)
    {p : Client (List UInt8)} (hp : ByteRead cl start size area p) {s : PlcLink}
    (hs : s.replies = []) :
    run plc p.run s = (.ok (window (s.mem r) start.toInt.toNat size.toInt.toNat),
      { s with served := s.served ++ (cuts (maxChunk cl.pduSize 23) 0 size.toInt.toNat).map fun p =>
          readFrame area (start + Int32.ofNat p.1) (Int32.ofNat p.2) cl.pduRef }) := by
  rw [hp.eq, run_chunkedRead hc hpdu area start size hs, if_neg (by omega),
    readPieces_eq ha h₀ (tiles_cuts _ _ _) (by omega)]

/-- **A write to a range that the PLC can address**: the data, stored there. -/
theorem run_byteWrite {data : List UInt8} (hr : start.toInt + data.length ≤ 2 ^ 21)
    {p : Client Unit} (hp : ByteWrite cl start data area p) {s : PlcLink} (hs : s.replies = []) :
    run plc p.run s = (.ok (), ⟨s.mem.store r start.toInt.toNat data, [],
        s.served ++ (cuts (maxChunk cl.pduSize 35) 0 data.length).map fun p =>
          writeFrame area (start + Int32.ofNat p.1) ((data.drop p.1).take p.2) cl.pduRef⟩) := by
  have hmem := writePieces_eq ha h₀ (tiles_cuts (maxChunk cl.pduSize 35) 0 data.length)
    (by omega) hr s.mem
  rw [List.take_zero, Mem.store_nil, Nat.zero_add, List.take_length] at hmem
  rw [hp.eq, run_chunkedWrite hc hpdu area start data hs, hmem]

end Range

/-! ## 4. Exact reads -/

/-- Against the PLC with the memory `M`, the program `p` returns the `n` bytes of `r` from `off`
    on; its requests tile that range in pieces of at most `pdu - 23` bytes. -/
def ReadsExactly (M : Mem) (r : Region) (off n : Nat) (pdu : Int) (p : Client (List UInt8)) : Prop :=
  ∀ s : PlcLink, s.mem = M → s.replies = [] →
    ∃ (qs : List Frame) (l : List (Nat × Nat)),
      run plc p.run s = (.ok (window (M r) off n), { s with served := s.served ++ qs }) ∧
      qs.map asked = l.map (fun p => [(r, p.1, p.2)]) ∧ Tiles off n l ∧
      ∀ p ∈ l, (p.2 : Int) ≤ pdu - 23

/-- **Reads are exact**: every read of a range that the PLC can address. -/
theorem byteRead_exact (M : Mem) {cl : S7Client} (hc : cl.connected = true)
    (h24 : 24 ≤ cl.pduSize.toInt) (h960 : cl.pduSize.toInt ≤ 960) {area : Area} {r : Region}
    (ha : Names area r) {start size : Int32} (h₀ : 0 ≤ start.toInt) (h₁ : 1 ≤ size.toInt)
    (hr : start.toInt + size.toInt ≤ 2 ^ 21) {p : Client (List UInt8)}
    (hp : ByteRead cl start size area p) :
    ReadsExactly M r start.toInt.toNat size.toInt.toNat cl.pduSize.toInt p := by
  rintro s rfl hs
  have ht := tiles_cuts (maxChunk cl.pduSize 23) 0 size.toInt.toNat
  refine ⟨(cuts (maxChunk cl.pduSize 23) 0 size.toInt.toNat).map fun p =>
      readFrame area (start + Int32.ofNat p.1) (Int32.ofNat p.2) cl.pduRef,
    (cuts (maxChunk cl.pduSize 23) 0 size.toInt.toNat).map
      fun p => (start.toInt.toNat + p.1, p.2), ?_, ?_, ?_, ?_⟩
  · exact run_byteRead hc h960 ha h₀ h₁ hr hp hs
  · rw [List.map_map, List.map_map]
    refine List.map_congr_left fun p hp => ?_
    have hb := ht.bounds hp
    have hm := chunk_le h960 (by decide) hp
    show asked _ = [(r, start.toInt.toNat + p.1, p.2)]
    rw [asked_readFrame, ha.region, bits_start_add h₀ (by omega), bits_ofNat]
    congr 3
    omega
  · exact ht.shift start.toInt.toNat
  · intro p hp
    obtain ⟨q, hq, rfl⟩ := List.mem_map.mp hp
    have hm := cuts_le _ _ _ q hq
    rw [maxChunk_of_lt (by omega)] at hm
    show (q.2 : Int) ≤ _
    omega

/-- A read of 20 bytes of a data block, in chunks of eight bytes. -/
theorem byteRead_exact_db :
    ReadsExactly (fun _ o => UInt8.ofNat o) (.db 7) 3 20 31
      (S7Client.agRead { S7Client.new with connected := true, pduSize := 31 } 7 3 20) :=
  byteRead_exact (fun _ o => UInt8.ofNat o) rfl (by decide) (by decide)
    (.db (by decide) (by decide)) (by decide) (by decide) (by decide) (.ag 7)

/-! ## 5. Exact writes -/

/-- Against the PLC with the memory `M`, the program `p` succeeds and leaves the memory in which
    `data` is stored in `r` from `off` on. -/
def WritesExactly (M : Mem) (r : Region) (off : Nat) (data : List UInt8) (p : Client Unit) : Prop :=
  ∀ s : PlcLink, s.mem = M → s.replies = [] →
    ∃ s', run plc p.run s = (.ok (), s') ∧
      window (s'.mem r) off data.length = data ∧
      ∀ r' o, (r' ≠ r ∨ o < off ∨ off + data.length ≤ o) → s'.mem r' o = M r' o

/-- **Writes are an exact splice**: every write to a range that the PLC can address. -/
theorem byteWrite_exact (M : Mem) {cl : S7Client} (hc : cl.connected = true)
    (h960 : cl.pduSize.toInt ≤ 960) {area : Area} {r : Region} (ha : Names area r) {start : Int32}
    {data : List UInt8} (h₀ : 0 ≤ start.toInt) (hr : start.toInt + data.length ≤ 2 ^ 21)
    {p : Client Unit} (hp : ByteWrite cl start data area p) :
    WritesExactly M r start.toInt.toNat data p := by
  rintro s rfl hs
  refine ⟨_, run_byteWrite hc h960 ha h₀ hr hp hs, ?_, ?_⟩
  · show window (s.mem.store r start.toInt.toNat data r) _ _ = data
    rw [Mem.store_same]
    exact window_splice _ _ _
  · intro r' o ho
    show s.mem.store r start.toInt.toNat data r' o = s.mem r' o
    by_cases hr' : r' = r
    · subst hr'
      rw [Mem.store_same]
      exact splice_outside _ _ _ _ (ho.resolve_left fun h => h rfl)
    · rw [Mem.store_other _ hr']

/-- A write of three bytes of the flags, in chunks of one byte. -/
theorem byteWrite_exact_flags :
    WritesExactly (fun _ o => UInt8.ofNat o) .flags 7 [1, 2, 3]
      (S7Client.mbWrite { S7Client.new with connected := true, pduSize := 36 } 7 [1, 2, 3]) :=
  byteWrite_exact (fun _ o => UInt8.ofNat o) rfl (by decide) .flags (by decide) (by decide) .mb

end MoonS7
