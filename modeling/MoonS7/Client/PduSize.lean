import MoonS7.Client.Client
import MoonS7.Plc.Simulator

/-!
# The PDU size

The two loops cut their chunks by the negotiated PDU size: it leaves 23 bytes of overhead for a
read and 35 for a write, a size that leaves nothing gives chunks of 240 bytes, and
`build_write_pdu` refuses a frame of more than 960.

Main results: `read_discipline_iff` and `write_discipline_iff`, together `pdu_discipline_iff` --
the sizes, and for a write the lengths of data, for which every frame and every full answer fits;
`pdu_discipline_refuted` is a read that asks a PLC with a PDU of 23 bytes for 100.
-/

namespace MoonS7

open Interaction Port Ranges

/-! ## 1. The discipline -/

/-- The S7 part of each request, and of a full answer to it, is at most `pdu`; where no request
    fits, the operation fails before it sends one. The smallest read request has 24 bytes. -/
def ReadDiscipline (pdu : Int) (tr : List (Event Frame Frame S7Error))
    (x : S7Result (List UInt8)) : Prop :=
  (24 ≤ pdu → ∀ q ∈ attempts tr, (q.length : Int) - 7 ≤ pdu ∧
    ∀ a ∈ asked q, (18 + a.2.2 : Int) ≤ pdu) ∧
  (pdu < 24 → attempts tr = [] ∧ ∃ e, x = err e)

/-- No request is refused by its builder, and the S7 part of each is at most `pdu`; where no
    request fits, the operation fails before it sends one. The smallest write request has 29
    bytes. -/
def WriteDiscipline (pdu : Int) (tr : List (Event Frame Frame S7Error)) (x : S7Result Unit) : Prop :=
  (29 ≤ pdu → (x = err (.invalidPdu "PDU too big") → .invalidPdu "PDU too big" ∈ failures tr) ∧
    ∀ q ∈ attempts tr, (q.length : Int) - 7 ≤ pdu) ∧
  (pdu < 29 → attempts tr = [] ∧ ∃ e, x = err e)

/-! ## 2. The requests of the loops -/

section Requests

variable {cl : S7Client} {area : Area} {start : Int32} {tr : List (Event Frame Frame S7Error)}

theorem read_attempts {size : Int32} {x : S7Result (List UInt8)}
    (h : Follows (chunkedRead cl area start size).run tr x) {q : Frame} (hq : q ∈ attempts tr) :
    ∃ p ∈ cuts (maxChunk cl.pduSize 23) 0 size.toInt.toNat,
      q = readFrame area (start + Int32.ofNat p.1) (Int32.ofNat p.2) cl.pduRef := by
  rcases follows_chunkedRead h with ⟨-, rfl, -⟩ | ⟨-, y, hs, -⟩
  · cases hq
  · obtain ⟨p, hp, he⟩ := List.mem_map.mp (hs.attempts.subset (List.mem_map_of_mem hq))
    exact ⟨p, hp, (Except.ok.inj he).symm⟩

theorem write_attempts {data : List UInt8} {x : S7Result Unit}
    (h : Follows (chunkedWrite cl area start data).run tr x) {q : Frame} (hq : q ∈ attempts tr) :
    ∃ p ∈ cuts (maxChunk cl.pduSize 35) 0 data.length, q.length = 35 + p.2 := by
  rcases follows_chunkedWrite h with ⟨-, rfl, -⟩ | ⟨-, y, hs, -⟩
  · cases hq
  · obtain ⟨p, hp, he⟩ := List.mem_map.mp (hs.attempts.subset (List.mem_map_of_mem hq))
    refine ⟨p, hp, ?_⟩
    have hb := ((tiles_cuts _ 0 data.length).bounds hp).2.2
    unfold writeReq at he
    split at he
    · cases he
      rw [length_writeFrame, List.length_take, List.length_drop]
      omega
    · cases he

/-- A write whose chunks are all short enough for a PDU is not refused by its builder. -/
theorem write_not_refused {data : List UInt8} {x : S7Result Unit}
    (h : Follows (chunkedWrite cl area start data).run tr x)
    (hl : ∀ p ∈ cuts (maxChunk cl.pduSize 35) 0 data.length, p.2 ≤ 929)
    (hx : x = err (.invalidPdu "PDU too big")) : .invalidPdu "PDU too big" ∈ failures tr := by
  rcases follows_chunkedWrite h with ⟨-, -, rfl⟩ | ⟨-, y, hs, rfl⟩
  · cases hx
  · cases y with
    | ok bs => cases hx
    | error d =>
      cases hx
      rcases hs.error.2 with ⟨e, he, hd⟩ | hd | ⟨f, -, hf⟩
      · cases hd
        exact he
      · obtain ⟨p, hp, hr⟩ := List.mem_map.mp hd
        rw [writeReq, if_pos (hl p hp)] at hr
        cases hr
      · exact absurd hf (writeReply_ne_tooBig f)

variable (hc : cl.connected = true)

include hc

/-- From 965 bytes on, the first chunk of more than 929 bytes is too long for any PDU. -/
theorem follows_first_refused {data : List UInt8} (h : 965 ≤ cl.pduSize.toInt)
    (hlen : 930 ≤ data.length) :
    Follows (chunkedWrite cl area start data).run [] (err (.invalidPdu "PDU too big")) := by
  have hfirst : writeReq cl area start data
      (0, min (maxChunk cl.pduSize 35 : Nat) data.length) = err (.invalidPdu "PDU too big") := by
    rw [writeReq, maxChunk_of_lt (by omega), if_neg (by show ¬ min _ _ ≤ 929; omega)]
  rw [chunkedWrite_eq hc, writeReqs, cuts_pos _ _ (by omega), List.map_cons, hfirst]
  exact follows_ofResult_iff.mpr ⟨_, follows_session_iff.mpr (.refused _ _), rfl⟩

/-- Up to 35 bytes, the first request carries up to 240. -/
theorem follows_first_write {data : List UInt8} (h : cl.pduSize.toInt ≤ 35) (h₁ : 1 ≤ data.length)
    (e : S7Error) :
    ∃ q : Frame, q.length = 35 + min 240 data.length ∧
      Follows (chunkedWrite cl area start data).run [Event.sent q (.error e)] (err e) := by
  refine ⟨writeFrame area (start + Int32.ofNat 0) ((data.drop 0).take (min 240 data.length)) cl.pduRef,
    ?_, ?_⟩
  · rw [length_writeFrame, List.drop_zero, List.length_take]
    omega
  · have hfirst : writeReq cl area start data (0, min (maxChunk cl.pduSize 35 : Nat) data.length) =
        .ok (writeFrame area (start + Int32.ofNat 0)
          ((data.drop 0).take (min 240 data.length)) cl.pduRef) := by
      rw [writeReq, maxChunk_of_le (by omega), if_pos (by show min _ _ ≤ 929; omega)]
    rw [chunkedWrite_eq hc, writeReqs, cuts_pos _ _ h₁, List.map_cons, hfirst]
    exact follows_ofResult_iff.mpr ⟨_, follows_session_iff.mpr (.unsent _ _ _), rfl⟩

/-- Up to 23 bytes, the first request of a read is sent all the same. -/
theorem follows_first_read (area : Area) (start : Int32) {size : Int32}
    (h : cl.pduSize.toInt ≤ 23) (h₁ : 1 ≤ size.toInt) (e : S7Error) :
    ∃ q : Frame, Follows (chunkedRead cl area start size).run [Event.sent q (.error e)] (err e) := by
  refine ⟨readFrame area (start + Int32.ofNat 0) (Int32.ofNat (min 240 size.toInt.toNat)) cl.pduRef, ?_⟩
  rw [chunkedRead_eq hc, readReqs, cuts_pos _ _ (by omega), maxChunk_of_le (by omega)]
  exact follows_ofResult_iff.mpr ⟨_, follows_session_iff.mpr (.unsent _ _ _), rfl⟩

end Requests

/-! ## 3. When the discipline holds -/

/-- **Reads** keep to the PDU size exactly from 24 bytes on. -/
theorem read_discipline_iff {cl : S7Client} (hc : cl.connected = true) (hpdu : cl.pduSize.toInt ≤ 65535)
    {area : Area} {start size : Int32} (h₁ : 1 ≤ size.toInt) {p : Client (List UInt8)}
    (hp : ByteRead cl start size area p) :
    (∀ tr x, Follows p.run tr x → ReadDiscipline cl.pduSize.toInt tr x) ↔ 24 ≤ cl.pduSize.toInt := by
  rw [hp.eq]
  constructor
  · intro h
    by_contra hlt
    obtain ⟨q, hs⟩ := follows_first_read hc area start (by omega) h₁ .connectionClosed
    obtain ⟨hno, -⟩ := (h _ _ hs).2 (by omega)
    cases hno
  · intro h24 tr x h
    refine ⟨fun _ q hq => ?_, fun hlt => absurd h24 (by omega)⟩
    obtain ⟨p, hp, rfl⟩ := read_attempts h hq
    have hb := cuts_le _ _ _ p hp
    rw [maxChunk_of_lt (by omega)] at hb
    refine ⟨by rw [length_readFrame]; omega, fun a ha => ?_⟩
    rw [asked_readFrame] at ha
    cases List.mem_singleton.mp ha
    show (18 + (bits (Int32.ofNat p.2) % 65536 : Nat) : Int) ≤ _
    rw [bits_ofNat]
    omega

/-- **Writes** keep to the PDU size from 36 to 964 bytes, above that for data of at most 929
    bytes, and below for data that fits in one PDU. -/
theorem write_discipline_iff {cl : S7Client} (hc : cl.connected = true) {area : Area}
    {start : Int32} {data : List UInt8} (h₁ : 1 ≤ data.length) {p : Client Unit}
    (hp : ByteWrite cl start data area p) :
    (∀ tr x, Follows p.run tr x → WriteDiscipline cl.pduSize.toInt tr x) ↔
      (36 ≤ cl.pduSize.toInt ∧ cl.pduSize.toInt ≤ 964) ∨
      (965 ≤ cl.pduSize.toInt ∧ data.length ≤ 929) ∨
      (cl.pduSize.toInt ≤ 35 ∧ (data.length : Int) + 28 ≤ cl.pduSize.toInt) := by
  rw [hp.eq]
  constructor
  · intro h
    by_contra hno
    by_cases hbig : 36 ≤ cl.pduSize.toInt
    · have hfail := ((h _ _ (follows_first_refused hc (by omega) (by omega))).1 (by omega)).1 rfl
      cases hfail
    · obtain ⟨q, hlen, hs⟩ := follows_first_write hc (by omega) h₁ .connectionClosed
      by_cases h29 : 29 ≤ cl.pduSize.toInt
      · have hfits := ((h _ _ hs).1 h29).2 q (List.mem_singleton.mpr rfl)
        omega
      · obtain ⟨hnone, -⟩ := (h _ _ hs).2 (by omega)
        cases hnone
  · intro hcond tr x h
    have hl : ∀ p ∈ cuts (maxChunk cl.pduSize 35) 0 data.length,
        p.2 ≤ 929 ∧ (p.2 : Int) + 28 ≤ cl.pduSize.toInt := fun p hp => by
      have hb := ((tiles_cuts _ 0 data.length).bounds hp).2.2
      have hm := cuts_le _ _ _ p hp
      by_cases h36 : 36 ≤ cl.pduSize.toInt
      · rw [maxChunk_of_lt (by omega)] at hm
        omega
      · omega
    refine ⟨fun _ => ⟨write_not_refused h fun p hp => (hl p hp).1, fun q hq => ?_⟩,
      fun hlt => by omega⟩
    obtain ⟨p, hp, hq⟩ := write_attempts h hq
    have := (hl p hp).2
    rw [hq]
    omega

/-- **PDU-size discipline**, for every size `parse_setup_resp` can return. -/
theorem pdu_discipline_iff {cl : S7Client} (hc : cl.connected = true)
    (hpdu : cl.pduSize.toInt ≤ 65535) :
    (∀ (area : Area) (start size : Int32) (p : Client (List UInt8)), 1 ≤ size.toInt →
      ByteRead cl start size area p →
      ((∀ tr x, Follows p.run tr x → ReadDiscipline cl.pduSize.toInt tr x) ↔
        24 ≤ cl.pduSize.toInt)) ∧
    (∀ (area : Area) (start : Int32) (data : List UInt8) (p : Client Unit), 1 ≤ data.length →
      ByteWrite cl start data area p →
      ((∀ tr x, Follows p.run tr x → WriteDiscipline cl.pduSize.toInt tr x) ↔
        (36 ≤ cl.pduSize.toInt ∧ cl.pduSize.toInt ≤ 964) ∨
        (965 ≤ cl.pduSize.toInt ∧ data.length ≤ 929) ∨
        (cl.pduSize.toInt ≤ 35 ∧ (data.length : Int) + 28 ≤ cl.pduSize.toInt))) :=
  ⟨fun _ _ _ _ h₁ hp => read_discipline_iff hc hpdu h₁ hp,
    fun _ _ _ _ h₁ hp => write_discipline_iff hc h₁ hp⟩

/-- A connected client whose PLC takes PDUs of 240 bytes. -/
def client240 : S7Client := { S7Client.new with connected := true, pduSize := 240 }

theorem pdu_discipline_240 :
    ((∀ tr x, Follows (client240.mbRead 0 1000).run tr x → ReadDiscipline 240 tr x) ↔
      24 ≤ (240 : Int)) ∧
    ((∀ tr x, Follows (client240.mbWrite 0 [1, 2, 3]).run tr x → WriteDiscipline 240 tr x) ↔
      (36 ≤ (240 : Int) ∧ (240 : Int) ≤ 964) ∨ (965 ≤ (240 : Int) ∧ [1, 2, 3].length ≤ 929) ∨
      ((240 : Int) ≤ 35 ∧ ([1, 2, 3].length : Int) + 28 ≤ 240)) :=
  have h := pdu_discipline_iff (show client240.connected = true from rfl) (by decide)
  ⟨h.1 .flags 0 1000 _ (by decide) .mb, h.2 .flags 0 [1, 2, 3] _ (by decide) .mb⟩

/-- **A chunk that does not fit**: with a PDU of 23 bytes a read of 100 bytes sends one request
    for all of them. -/
theorem pdu_discipline_refuted :
    ¬ ∀ (cl : S7Client) (area : Area) (start size : Int32) (p : Client (List UInt8))
      (tr : List (Event Frame Frame S7Error)) (x : S7Result (List UInt8)),
      cl.connected = true → 0 ≤ cl.pduSize.toInt → cl.pduSize.toInt ≤ 65535 → 1 ≤ size.toInt →
      ByteRead cl start size area p → Follows p.run tr x →
      ReadDiscipline cl.pduSize.toInt tr x := by
  intro h
  have h23 := (read_discipline_iff
    (show S7Client.connected { S7Client.new with connected := true, pduSize := 23 } = true from rfl)
    (by decide) (by decide) (show ByteRead _ 0 100 _ _ from .mb)).mp
    fun tr x hf => h _ _ _ _ _ tr x rfl (by decide) (by decide) (by decide) .mb hf
  revert h23
  decide

end MoonS7
