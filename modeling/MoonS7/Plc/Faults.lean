import MoonS7.Plc.Exchange

/-!
# Writes over a connection that fails

Each write request meets one of four fates: it does not arrive, it is carried out and
acknowledged, it is carried out but the acknowledgement does not reach the client, or the PLC
rejects it.

Main result: `byteWrite_prefix` -- whatever the fates, a write that fails leaves the acknowledged
chunks, or these and the chunk whose acknowledgement was lost, and has sent nothing after the chunk
that failed.
-/

namespace MoonS7

open Interaction Port Ranges

/-! ## 1. The connection -/

inductive Fate where
  | undelivered
  | acked
  | lost
  | rejected (rc : UInt8)
  deriving DecidableEq

/-- The PLC's memory, the reply on its way, and the requests sent so far with their fates. -/
structure FaultyLink where
  mem : Mem
  reply : Option Frame
  log : List (Frame × Fate)

/-- The reply to a read whose item is rejected: its return code, and no bytes. -/
def readRejection (rc : UInt8) (refn : Nat) : Frame :=
  [0x03, 0x00, 0x00, 0x19, 0x02, 0xF0, 0x80, 0x32, 0x03, 0x00, 0x00, UInt8.ofNat (refn / 256),
    UInt8.ofNat refn, 0x00, 0x02, 0x00, 0x04, 0x00, 0x00, 0x04, 0x01, rc, 0x00, 0x00, 0x00]

def isRead (q : Frame) : Bool := ((parseS7Request q).bind fun req => req.params.head?) == some 0x04

/-- The reply of a PLC that rejects the request `q` with the return code `rc`. -/
def rejection (q : Frame) (rc : UInt8) (refn : Nat) : Frame :=
  if isRead q then readRejection rc refn else writeResp rc refn

theorem rejection_readFrame (area : Area) (off c pduRef : Int32) (rc : UInt8) (refn : Nat) :
    rejection (readFrame area off c pduRef) rc refn = readRejection rc refn := by
  rw [rejection, isRead, readFrame, parseS7Request_packet _ (Nat.le_of_ble_eq_true rfl)]
  rfl

theorem rejection_writeFrame (area : Area) (off pduRef : Int32) {chunk : List UInt8}
    (h : chunk.length ≤ 929) (rc : UInt8) (refn : Nat) :
    rejection (writeFrame area off chunk pduRef) rc refn = writeResp rc refn := by
  rw [rejection, isRead, writeFrame, parseS7Request_packet _ (by
    simp only [List.length_append, length_itemParams, List.length_cons, List.length_nil]
    omega)]
  rfl

/-- A request is sent. Where no reply will come, the send itself may already have failed. -/
inductive FaultSend (q : Frame) : FaultyLink → Except S7Error Unit → FaultyLink → Prop where
  | undelivered (L : FaultyLink) (x : Except S7Error Unit) :
      FaultSend q L x { L with log := L.log ++ [(q, .undelivered)] }
  | acked {L : FaultyLink} {resp : Frame} {m : Mem} (h : plcServe L.mem q = some (resp, m)) :
      FaultSend q L (.ok ()) ⟨m, some resp, L.log ++ [(q, .acked)]⟩
  | lost {L : FaultyLink} {resp : Frame} {m : Mem} (h : plcServe L.mem q = some (resp, m))
      (x : Except S7Error Unit) : FaultSend q L x ⟨m, none, L.log ++ [(q, .lost)]⟩
  | rejected (L : FaultyLink) {rc : UInt8} (h : rc ≠ 0xFF) (refn : Nat) :
      FaultSend q L (.ok ()) ⟨L.mem, some (rejection q rc refn), L.log ++ [(q, .rejected rc)]⟩

/-- The client waits for a reply: it gets the one on its way, or gives up. -/
inductive FaultReceive : FaultyLink → Except S7Error Frame → FaultyLink → Prop where
  | reply {L : FaultyLink} {resp : Frame} (h : L.reply = some resp) :
      FaultReceive L (.ok resp) { L with reply := none }
  | giveUp {L : FaultyLink} (h : L.reply = none) (e : S7Error) : FaultReceive L (.error e) L

def faultStep : (c : Call Frame) → FaultyLink → Reply Frame Frame S7Error c → FaultyLink → Prop
  | .send q, L, x, L' => FaultSend q L x L'
  | .receive, L, x, L' => FaultReceive L x L'

/-! ## 2. One chunk -/

/-- What an exchange of `q` finds and leaves, by its fate. -/
def Meets (q : Frame) (L : FaultyLink) (resp : Frame) (m : Mem) (x : Except Stop Frame)
    (L' : FaultyLink) : Fate → Prop
  | .undelivered => (∃ e, x = err e) ∧ L'.mem = L.mem
  | .acked => x = .ok resp ∧ L'.mem = m
  | .lost => (∃ e, x = err e) ∧ L'.mem = m
  | .rejected rc => rc ≠ 0xFF ∧ (∃ refn, x = .ok (rejection q rc refn)) ∧ L'.mem = L.mem

section Receive

variable {L L' : FaultyLink} {x : Except Stop Frame}
  (h : (∃ e, faultStep .receive L (Except.error e : Except S7Error Frame) L' ∧ x = .error (.err e)) ∨
    ∃ a, faultStep .receive L (Except.ok a : Except S7Error Frame) L' ∧ x = .ok a)

include h

/-- The wait for a reply that is on its way. -/
theorem received_some {resp : Frame} (hr : L.reply = some resp) :
    x = .ok resp ∧ L' = { L with reply := none } := by
  rcases h with ⟨e, h, rfl⟩ | ⟨a, h, rfl⟩
  · cases h with
    | giveUp hn => cases hr.symm.trans hn
  · cases h with
    | reply ha =>
      cases hr.symm.trans ha
      exact ⟨rfl, rfl⟩

/-- The wait for a reply that does not come. -/
theorem received_none (hr : L.reply = none) : (∃ e, x = err e) ∧ L' = L := by
  rcases h with ⟨e, h, rfl⟩ | ⟨a, h, rfl⟩
  · cases h
    exact ⟨⟨e, rfl⟩, rfl⟩
  · cases h with
    | reply ha => cases hr.symm.trans ha

end Receive

/-- **One exchange meets one fate.** -/
theorem exec_fault_exchange {q resp : Frame} {m : Mem} {L L' : FaultyLink} {x : Except Stop Frame}
    (hq : plcServe L.mem q = some (resp, m)) (hL : L.reply = none)
    (h : Exec faultStep (exchange Stop.err q : Client Frame).run L x L') :
    ∃ f, L'.log = L.log ++ [(q, f)] ∧ L'.reply = none ∧ Meets q L resp m x L' f := by
  rcases exec_exchange_iff.mp h with ⟨e, h₁, rfl⟩ | ⟨L₁, h₁, h₂⟩
  · cases h₁ with
    | undelivered => exact ⟨.undelivered, rfl, hL, ⟨e, rfl⟩, rfl⟩
    | lost hs =>
      cases hq.symm.trans hs
      exact ⟨.lost, rfl, rfl, ⟨e, rfl⟩, rfl⟩
  · cases h₁ with
    | undelivered =>
      obtain ⟨hx, rfl⟩ := received_none h₂ hL
      exact ⟨.undelivered, rfl, hL, hx, rfl⟩
    | acked hs =>
      cases hq.symm.trans hs
      obtain ⟨hx, rfl⟩ := received_some h₂ rfl
      exact ⟨.acked, rfl, rfl, hx, rfl⟩
    | lost hs =>
      cases hq.symm.trans hs
      obtain ⟨hx, rfl⟩ := received_none h₂ rfl
      exact ⟨.lost, rfl, rfl, hx, rfl⟩
    | rejected hrc refn =>
      obtain ⟨hx, rfl⟩ := received_some h₂ rfl
      exact ⟨.rejected _, rfl, rfl, hrc, ⟨refn, hx⟩, rfl⟩

/-- **One request of a write** meets a fate that ends the write, or it is acknowledged and the
    requests behind it follow. -/
theorem exec_fault_request {q resp : Frame} {m : Mem} {qs : List (S7Result Frame)}
    {L L' : FaultyLink} {x : Except Stop (List Unit)} (hq : plcServe L.mem q = some (resp, m))
    (hresp : writeReply resp = .ok ()) (hrej : ∀ rc refn, rejection q rc refn = writeResp rc refn)
    (hL : L.reply = none)
    (h : Exec faultStep (session Stop.err writeReply (.ok q :: qs) : Client (List Unit)).run L x L') :
    (∃ e f, x = err e ∧ f ≠ .acked ∧ L'.log = L.log ++ [(q, f)] ∧
      L'.mem = if f = .lost then m else L.mem) ∨
    ∃ L₁ y, L₁.log = L.log ++ [(q, .acked)] ∧ L₁.reply = none ∧ L₁.mem = m ∧
      (x = y.bind fun bs => .ok (() :: bs)) ∧
      Exec faultStep (session Stop.err writeReply qs : Client (List Unit)).run L₁ y L' := by
  rcases exec_session_cons.mp h with ⟨d, he, rfl⟩ | ⟨a, L₁, he, hrest⟩
  · obtain ⟨f, hlog, -, hf⟩ := exec_fault_exchange hq hL he
    cases f with
    | undelivered =>
      obtain ⟨⟨e, hx⟩, hm⟩ := hf
      cases hx
      exact Or.inl ⟨e, .undelivered, rfl, Fate.noConfusion, hlog, hm⟩
    | acked => cases hf.1
    | lost =>
      obtain ⟨⟨e, hx⟩, hm⟩ := hf
      cases hx
      exact Or.inl ⟨e, .lost, rfl, Fate.noConfusion, hlog, hm⟩
    | rejected rc =>
      obtain ⟨-, ⟨refn, hx⟩, -⟩ := hf
      cases hx
  · obtain ⟨f, hlog, hL₁, hf⟩ := exec_fault_exchange hq hL he
    cases f with
    | undelivered =>
      obtain ⟨⟨e, hx⟩, -⟩ := hf
      cases hx
    | lost =>
      obtain ⟨⟨e, hx⟩, -⟩ := hf
      cases hx
    | rejected rc =>
      obtain ⟨hrc, ⟨refn, hx⟩, hm⟩ := hf
      rw [hrej] at hx
      cases hx
      rcases writeReply_cases (writeResp rc refn) with ⟨hok, -⟩ | ⟨-, e, hbad, -⟩
      · exact absurd ((writeReply_writeResp rc refn).mp (writeReply_ok_iff.mpr hok)) hrc
      · rcases hrest with ⟨d, hd, rfl, rfl⟩ | ⟨b, y, hb, -⟩
        · cases hbad.symm.trans hd
          exact Or.inl ⟨e, .rejected rc, rfl, Fate.noConfusion, hlog, hm⟩
        · cases hbad.symm.trans hb
    | acked =>
      obtain ⟨hx, hm⟩ := hf
      cases hx
      rcases hrest with ⟨d, hd, -⟩ | ⟨b, y, hb, rfl, hs⟩
      · cases hresp.symm.trans hd
      · exact Or.inr ⟨L₁, y, hlog, hL₁, hm, rfl, hs⟩

/-- An exchange can be acknowledged, and its acknowledgement can be lost. -/
theorem exec_acked {q resp : Frame} {m : Mem} {L : FaultyLink}
    (hq : plcServe L.mem q = some (resp, m)) :
    Exec faultStep (exchange Stop.err q : Client Frame).run L (.ok resp)
      ⟨m, none, L.log ++ [(q, .acked)]⟩ :=
  exec_exchange_iff.mpr (Or.inr ⟨_, .acked hq, Or.inr ⟨_, .reply rfl, rfl⟩⟩)

theorem exec_lost {q resp : Frame} {m : Mem} {L : FaultyLink}
    (hq : plcServe L.mem q = some (resp, m)) (e : S7Error) :
    Exec faultStep (exchange Stop.err q : Client Frame).run L (err e)
      ⟨m, none, L.log ++ [(q, .lost)]⟩ :=
  exec_exchange_iff.mpr (Or.inr ⟨_, .lost hq _, Or.inl ⟨e, .giveUp rfl e, rfl⟩⟩)

/-! ## 3. All chunks -/

section Chunks

variable (cl : S7Client) (area : Area) (start : Int32) (data : List UInt8)

/-- The request for the piece `p`. -/
def chunkFrame (p : Nat × Nat) : Frame :=
  writeFrame area (start + Int32.ofNat p.1) ((data.drop p.1).take p.2) cl.pduRef

/-- The chunks `done` have been acknowledged and the next one, `p`, has met the fate `f`: nothing
    else has been sent, and the memory holds the data up to the end of `done`, or up to the end of
    `p` if only its acknowledgement is missing. -/
structure FailedAt (M : Mem) (r : Region) (l done : List (Nat × Nat)) (p : Nat × Nat) (f : Fate)
    (L L' : FaultyLink) : Prop where
  pieces : ∃ rest, l = done ++ p :: rest
  fate : f ≠ .acked
  log : L'.log = L.log ++ done.map (fun p => (chunkFrame cl area start data p, .acked)) ++
    [(chunkFrame cl area start data p, f)]
  mem : L'.mem = M.store r start.toInt.toNat
    (data.take (if f = .lost then p.1 + p.2 else p.1))

variable {cl area start data} {M : Mem} {r : Region} (ha : Names area r) (h₀ : 0 ≤ start.toInt)
  (hr : start.toInt + data.length ≤ 2 ^ 21)

include ha h₀ hr

/-- **The requests of a write**, one after the other, up to the first that fails. -/
theorem exec_fault_writes {off n : Nat} {l : List (Nat × Nat)} (ht : Tiles off n l)
    (hn : off + n ≤ data.length) (hl : ∀ p ∈ l, p.2 ≤ 929) {L L' : FaultyLink}
    {x : Except Stop (List Unit)} (hL : L.reply = none)
    (hmem : L.mem = M.store r start.toInt.toNat (data.take off))
    (h : Exec faultStep (session Stop.err writeReply (l.map (writeReq cl area start data)) :
      Client (List Unit)).run L x L') :
    (∃ bs, x = .ok bs ∧
      L'.log = L.log ++ l.map (fun p => (chunkFrame cl area start data p, .acked)) ∧
      L'.mem = M.store r start.toInt.toNat (data.take (off + n))) ∨
    ∃ e done p f, x = err e ∧ FailedAt cl area start data M r l done p f L L' := by
  induction ht generalizing L x with
  | nil =>
    obtain ⟨rfl, rfl⟩ := exec_ret_iff.mp h
    exact Or.inl ⟨[], rfl, by simp, hmem⟩
  | @cons off c n l hc _ ih =>
    have hp := hl _ List.mem_cons_self
    have hlen : ((data.drop off).take c).length ≤ 929 := by
      rw [List.length_take]
      omega
    have hserve := plcServe_writeFrame L.mem area (start + Int32.ofNat off) cl.pduRef hlen
    have hstore : L.mem.store area.region (bits (start + Int32.ofNat off) % 2 ^ 21)
        ((data.drop off).take c) = M.store r start.toInt.toNat (data.take (off + c)) := by
      rw [hmem, ha.region, bits_start_add h₀ (by omega), Mem.store_take _ _ _ (by omega)]
    rw [hstore] at hserve
    rw [List.map_cons, writeReq, if_pos hp] at h
    rcases exec_fault_request hserve ((writeReply_writeResp 0xFF _).mpr rfl)
      (rejection_writeFrame area _ cl.pduRef hlen) hL h with
      ⟨e, f, rfl, hf, hlog, hm⟩ | ⟨L₁, y, hlog, hL₁, hm, rfl, hs⟩
    · refine Or.inr ⟨e, [], (off, c), f, rfl, ⟨l, rfl⟩, hf, ?_, ?_⟩
      · rw [hlog, List.map_nil, List.append_nil]
        rfl
      · rw [hm, hmem]
        split <;> rfl
    · rcases ih (by omega) (fun q hq => hl q (List.mem_cons_of_mem _ hq)) hL₁ hm hs with
        ⟨bs, rfl, hlog', hm'⟩ | ⟨e, done, p, f, rfl, hfail⟩
      · refine Or.inl ⟨() :: bs, rfl, ?_, by rw [hm', Nat.add_assoc]⟩
        rw [hlog', hlog, List.append_assoc]
        rfl
      · obtain ⟨rest, rfl⟩ := hfail.pieces
        refine Or.inr ⟨e, (off, c) :: done, p, f, rfl, ⟨rest, rfl⟩, hfail.fate, ?_, hfail.mem⟩
        rw [hfail.log, hlog, List.append_assoc L.log]
        rfl

end Chunks

/-- **A failed write leaves a prefix.** A write that succeeds has had every chunk acknowledged,
    and the memory holds the data. A write that fails has had the chunks `done` acknowledged, `j`
    bytes together, and has sent one chunk after them and no other: the memory holds the first
    `j` bytes of the data, or these and that chunk if its acknowledgement was lost. -/
theorem byteWrite_prefix {cl : S7Client} (hc : cl.connected = true) (h960 : cl.pduSize.toInt ≤ 960)
    {area : Area} {r : Region} (ha : Names area r) {start : Int32} {data : List UInt8}
    (h₀ : 0 ≤ start.toInt) (hr : start.toInt + data.length ≤ 2 ^ 21) {p : Client Unit}
    (hp : ByteWrite cl start data area p) {L L' : FaultyLink} {x : Except Stop Unit}
    (hL : L.reply = none) (h : Exec faultStep p.run L x L') :
    (x = .ok () ∧ L'.mem = L.mem.store r start.toInt.toNat data ∧
      L'.log = L.log ++ (cuts (maxChunk cl.pduSize 35) 0 data.length).map
        (fun p => (chunkFrame cl area start data p, .acked))) ∨
    ∃ e done p f, x = err e ∧ p.1 = (done.map (·.2)).sum ∧
      FailedAt cl area start data L.mem r (cuts (maxChunk cl.pduSize 35) 0 data.length) done p f
        L L' := by
  have ht := tiles_cuts (maxChunk cl.pduSize 35) 0 data.length
  have hl : ∀ p ∈ cuts (maxChunk cl.pduSize 35) 0 data.length, p.2 ≤ 929 := fun p hp =>
    Nat.le_trans (chunk_le h960 (by decide) hp) (by decide)
  have hmem : L.mem = L.mem.store r start.toInt.toNat (data.take 0) := by
    rw [List.take_zero, Mem.store_nil]
  rw [hp.eq, chunkedWrite_eq hc, writeReqs] at h
  rcases exec_op_bind_iff.mp h with ⟨d, hs, rfl⟩ | ⟨bs, L₁, hs, hend⟩
  · rcases exec_fault_writes ha h₀ hr ht (by omega) hl hL hmem hs with
      ⟨_, hx, -⟩ | ⟨e, done, p, f, hx, hfail⟩
    · cases hx
    · cases hx
      obtain ⟨rest, hpieces⟩ := hfail.pieces
      rw [hpieces] at ht
      exact Or.inr ⟨e, done, p, f, rfl, by rw [ht.start, Nat.zero_add], hfail⟩
  · obtain ⟨rfl, rfl⟩ := exec_ret_iff.mp hend
    rcases exec_fault_writes ha h₀ hr ht (by omega) hl hL hmem hs with
      ⟨_, -, hlog, hm⟩ | ⟨e, _, _, _, hx, -⟩
    · rw [Nat.zero_add, List.take_length] at hm
      exact Or.inl ⟨rfl, hm, hlog⟩
    · cases hx

/-- The second byte of two is stored, but the client does not hear of it. -/
theorem exec_lost_second (cl : S7Client) (hc : cl.connected = true) (h36 : cl.pduSize = 36) :
    ∃ L', Exec faultStep (cl.mbWrite 5 [1, 2]).run ⟨fun _ _ => 0, none, []⟩
      (err (.timeout "read timeout")) L' := by
  have hreqs : writeReqs cl .flags 5 [1, 2] =
      [.ok (writeFrame .flags (5 + Int32.ofNat 0) [1] cl.pduRef),
        .ok (writeFrame .flags (5 + Int32.ofNat 1) [2] cl.pduRef)] := by
    rw [writeReqs, h36, List.length_cons, List.length_singleton, cuts_pos _ _ (by decide),
      cuts_single _ (by decide) (by decide)]
    rfl
  have hfirst := plcServe_writeFrame (fun _ _ => 0) .flags (5 + Int32.ofNat 0) cl.pduRef
    (show [1].length ≤ 929 by decide)
  have hsecond := fun m => plcServe_writeFrame m .flags (5 + Int32.ofNat 1) cl.pduRef
    (show [2].length ≤ 929 by decide)
  have hok := (writeReply_writeResp 0xFF (bits cl.pduRef % 65536)).mpr rfl
  rw [S7Client.mbWrite, chunkedWrite_eq hc, hreqs]
  refine ⟨_, exec_op_bind_iff.mpr (Or.inl ⟨_, exec_session_cons.mpr (Or.inr ⟨_, _,
    exec_acked hfirst, Or.inr ⟨(), err (.timeout "read timeout"), hok, rfl,
      exec_session_cons.mpr (Or.inl ⟨_, exec_lost (hsecond _) _, rfl⟩)⟩⟩), rfl⟩)⟩

theorem byteWrite_prefix_lost :
    ∃ L' : FaultyLink, ∃ e done p f,
      p.1 = (done.map (·.2)).sum ∧
      FailedAt { S7Client.new with connected := true, pduSize := 36 } .flags 5 [1, 2]
        (fun _ _ => 0) .flags (cuts (maxChunk 36 35) 0 2) done p f ⟨fun _ _ => 0, none, []⟩ L' ∧
      err (.timeout "read timeout") = (err e : S7Result Unit) := by
  obtain ⟨L', h⟩ := exec_lost_second { S7Client.new with connected := true, pduSize := 36 } rfl rfl
  rcases byteWrite_prefix rfl (by decide) .flags (by decide) (by decide) .mb rfl h with
    ⟨hx, -⟩ | ⟨e, done, p, f, hx, hj, hf⟩
  · cases hx
  · exact ⟨L', e, done, p, f, hj, hf, hx⟩

end MoonS7
