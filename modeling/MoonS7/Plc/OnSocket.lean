import MoonS7.Plc.Exchange
import MoonS7.Transport.Traces

/-!
# The client against the PLC, on a socket

`plc` takes and gives whole frames. `plcSocket` is the same PLC behind a socket: it gets the bytes of
each write, and its replies are read as bytes.

Main results: `run_onSocket` -- a program whose requests have replies that fit a frame does on the
socket what it does against `plc`; and so, for the client's reads and writes, `byteRead_onSocket`
and `byteWrite_onSocket`.
-/

namespace MoonS7

open Interaction Port Ranges

/-! ## 1. The PLC behind a socket -/

/-- The PLC's memory, the bytes of its replies not read yet, and the requests served so far. -/
structure PlcSocket where
  mem : Mem
  unread : List UInt8
  served : List Frame

def plcWrite (q : Frame) (s : PlcSocket) : Await Unit × PlcSocket :=
  match plcServe s.mem q with
  | some (resp, m) => (.value (), ⟨m, s.unread ++ resp, s.served ++ [q]⟩)
  | none => (.value (), { s with served := s.served ++ [q] })

/-- The PLC is silent once its replies are read, until the timer runs out. -/
def plcRead (n : Nat) (s : PlcSocket) : Await (Vector UInt8 n) × PlcSocket :=
  if h : n ≤ s.unread.length then
    (.value ⟨(s.unread.take n).toArray, by rw [List.size_toArray, List.length_take_of_le h]⟩,
      { s with unread := s.unread.drop n })
  else (.expired, { s with unread := [] })

def plcSocket : (c : SockCall) → PlcSocket → SockReply c × PlcSocket
  | .connectToHost _ _, s => (Await.value ⟨0⟩, s)
  | .write _ q, s => plcWrite q s
  | .readExactly _ n, s => plcRead n s
  | .close _, s => ((), s)

/-- The replies not taken yet, as bytes. -/
def PlcLink.onSocket (t : PlcLink) : PlcSocket := ⟨t.mem, t.replies.flatten, t.served⟩

/-- The socket carries the replies of `t`, and these are frames. -/
structure Carries (s : PlcSocket) (t : PlcLink) : Prop where
  eq : s = t.onSocket
  frames : ∀ r ∈ t.replies, TpktFrame r

/-- A read of the bytes that come next. -/
theorem plcRead_value {n : Nat} (v : Vector UInt8 n) (m : Mem) (rest : List UInt8)
    (served : List Frame) :
    plcRead n ⟨m, v.toList ++ rest, served⟩ = (.value v, ⟨m, rest, served⟩) := by
  have hn : n ≤ (v.toList ++ rest).length := by
    rw [List.length_append, Vector.length_toList]
    exact Nat.le_add_right _ _
  rw [plcRead, dif_pos hn]
  refine Prod.ext ?_ ?_
  · refine congrArg Await.value (Vector.toList_inj.mp ?_)
    show (v.toList ++ rest).take n = v.toList
    exact List.take_left' Vector.length_toList
  · show PlcSocket.mk m ((v.toList ++ rest).drop n) served = _
    rw [List.drop_left' Vector.length_toList]

/-! ## 2. The two calls -/

/-- A request whose reply, in whatever memory, is a frame that can be read. -/
def FramedReply : Call Frame → Prop
  | .send q => ∀ m resp m', plcServe m q = some (resp, m') → TpktFrame resp
  | .receive => True

section Calls

variable {tcp : TcpConnection} {sock : Socket} (ho : tcp.Open sock) {pduSize : Int32}

include ho

theorem run_send_plcSocket (q : Frame) (t : PlcLink) :
    run plcSocket (transport tcp pduSize (.send q)).run t.onSocket =
      (.ok (plcSend q t).1, (plcSend q t).2.onSocket) := by
  refine exec_run_iff.mp (exec_iff_path.mpr
    ⟨_, (follows_send_transport_iff ho).mpr ⟨.value (), rfl, ?_⟩, .cons ?_ (.nil _)⟩)
  · rw [plcSend]
    cases plcServe t.mem q <;> rfl
  · show plcWrite q t.onSocket = _
    rw [plcWrite, plcSend, show t.onSocket.mem = t.mem from rfl]
    cases plcServe t.mem q with
    | none => rfl
    | some ans =>
      refine congrArg (Prod.mk _) ?_
      show PlcSocket.mk _ (t.replies.flatten ++ ans.1) _ = PlcSocket.mk _ (t.replies ++ [ans.1]).flatten _
      rw [List.flatten_append, List.flatten_singleton]
      rfl

theorem run_receive_plcSocket {t : PlcLink} (ht : ∀ r ∈ t.replies, TpktFrame r) :
    run plcSocket (transport tcp pduSize .receive).run t.onSocket =
      (.ok (plcReceive t).1, (plcReceive t).2.onSocket) := by
  obtain ⟨m, replies, served⟩ := t
  cases replies with
  | nil =>
    exact exec_run_iff.mp (exec_iff_path.mpr
      ⟨_, (follows_receive_transport_iff ho).mpr ⟨_, .headerExpired, rfl⟩, .cons rfl (.nil _)⟩)
  | cons f fs =>
    obtain ⟨hdr, body, hh, rfl⟩ := tpktFrame_iff.mp (ht f List.mem_cons_self)
    have hhdr := plcRead_value hdr m (body.toList ++ fs.flatten) served
    rw [← List.append_assoc] at hhdr
    have hbody := plcRead_value body m fs.flatten served
    exact exec_run_iff.mp (exec_iff_path.mpr
      ⟨_, (follows_receive_transport_iff ho).mpr ⟨_, .frame hdr body hh, rfl⟩,
        .cons hhdr (.cons hbody (.nil _))⟩)

/-- **The two calls on the socket** do what they do against the PLC. -/
theorem run_transport_plcSocket {c : Call Frame} (hc : FramedReply c) {s : PlcSocket} {t : PlcLink}
    (h : Carries s t) :
    ∃ s', run plcSocket (transport tcp pduSize c).run s = (.ok (plc c t).1, s') ∧
      Carries s' (plc c t).2 := by
  obtain ⟨rfl, ht⟩ := h
  cases c with
  | send q =>
    refine ⟨_, run_send_plcSocket ho q t, rfl, ?_⟩
    show ∀ r ∈ (plcSend q t).2.replies, TpktFrame r
    rw [plcSend]
    cases hq : plcServe t.mem q with
    | none => exact ht
    | some ans =>
      intro r hr
      rcases List.mem_append.mp hr with hr | hr
      · exact ht r hr
      · cases List.mem_singleton.mp hr
        exact hc t.mem _ _ hq
  | receive =>
    refine ⟨_, run_receive_plcSocket ho ht, rfl, ?_⟩
    show ∀ r ∈ (plcReceive t).2.replies, TpktFrame r
    obtain ⟨m, replies, served⟩ := t
    cases replies with
    | nil => exact ht
    | cons f fs => exact fun r hr => ht r (List.mem_cons_of_mem _ hr)

end Calls

/-- **A program on the socket** returns what it returns against the PLC, and leaves it where it
    does. -/
theorem run_onSocket {cl : S7Client} {sock : Socket} (ho : cl.tcp.Open sock) {α : Type}
    {p : Client α} (hp : Asks FramedReply p.run) {s : PlcSocket} {t : PlcLink} (h : Carries s t) :
    ∃ s', run plcSocket (cl.onSocket p).run s = (.ok (run plc p.run t).1, s') ∧
      Carries s' (run plc p.run t).2 :=
  run_interp (fun _ _ _ hc hst => run_transport_plcSocket ho hc hst) hp h

/-! ## 3. The client's requests -/

theorem tpktFrame_buildReadResp {data : List UInt8} (h : data.length < 65511) (refn : Nat) :
    TpktFrame (buildReadResp data refn) := by
  refine ⟨0x00, UInt8.ofNat ((4 + 3 + 10 + 4 + (4 + data.length)) / 256),
    UInt8.ofNat (4 + 3 + 10 + 4 + (4 + data.length)), _, rfl, ?_⟩
  show (_ ++ data).length = u16 _ _
  rw [u16_ofNat, List.length_append]
  show 25 + data.length = _
  omega

theorem framedReply_readFrame {area : Area} {off c refn : Int32} (h : bits c % 65536 < 65511) :
    FramedReply (.send (readFrame area off c refn)) := by
  intro m resp m' hs
  rw [plcServe_readFrame] at hs
  cases hs
  exact tpktFrame_buildReadResp (by rwa [length_window]) _

theorem framedReply_writeFrame {area : Area} {off refn : Int32} {chunk : List UInt8}
    (h : chunk.length ≤ 929) : FramedReply (.send (writeFrame area off chunk refn)) := by
  intro m resp m' hs
  rw [plcServe_writeFrame _ _ _ _ h] at hs
  cases hs
  refine ⟨0x00, 0x00, 0x16, _, rfl, ?_⟩
  rw [show (0x00 : UInt8).toNat * 256 + (0x16 : UInt8).toNat = 22 from rfl]
  rfl

section Client

variable {cl : S7Client} (hc : cl.connected = true) (area : Area) (start : Int32)

include hc

theorem asks_chunkedRead (hpdu : cl.pduSize.toInt ≤ 960) (size : Int32) :
    Asks FramedReply (chunkedRead cl area start size).run := by
  rw [chunkedRead_eq hc]
  refine Asks.op_bind (asks_session trivial fun q hq => ?_) fun bs => .ret _
  obtain ⟨p, hp, hpq⟩ := List.mem_map.mp hq
  cases hpq
  have hm := chunk_le hpdu (by decide) hp
  refine framedReply_readFrame ?_
  rw [bits_ofNat]
  omega

theorem asks_chunkedWrite (data : List UInt8) :
    Asks FramedReply (chunkedWrite cl area start data).run := by
  rw [chunkedWrite_eq hc]
  refine Asks.op_bind (asks_session trivial fun q hq => ?_) fun _ => .ret _
  obtain ⟨p, hp, hpq⟩ := List.mem_map.mp hq
  rw [writeReq] at hpq
  split at hpq
  · cases hpq
    refine framedReply_writeFrame ?_
    rw [List.length_take]
    omega
  · cases hpq

end Client

section Range

variable {cl : S7Client} {sock : Socket} (hc : cl.connected = true) (ho : cl.tcp.Open sock)
  (hpdu : cl.pduSize.toInt ≤ 960) {area : Area} {r : Region} (ha : Names area r) {start : Int32}
  (h₀ : 0 ≤ start.toInt) (M : Mem) (served : List Frame)

include hc ho hpdu ha h₀

/-- **Reads on the socket are exact**, and leave nothing to be read. -/
theorem byteRead_onSocket {size : Int32} (h₁ : 1 ≤ size.toInt)
    (hr : start.toInt + size.toInt ≤ 2 ^ 21) {p : Client (List UInt8)}
    (hp : ByteRead cl start size area p) :
    ∃ qs, run plcSocket (cl.onSocket p).run ⟨M, [], served⟩ =
      (.ok (.ok (window (M r) start.toInt.toNat size.toInt.toNat)), ⟨M, [], served ++ qs⟩) := by
  have hasks : Asks FramedReply p.run := by
    rw [hp.eq]
    exact asks_chunkedRead hc area start hpdu size
  have hlink := run_byteRead hc hpdu ha h₀ h₁ hr hp (s := ⟨M, [], served⟩) rfl
  obtain ⟨s', hs, rfl, -⟩ := run_onSocket ho hasks (t := ⟨M, [], served⟩) ⟨rfl, nofun⟩
  rw [hlink] at hs
  exact ⟨_, hs⟩

/-- **Writes on the socket are an exact splice**, and leave nothing to be read. -/
theorem byteWrite_onSocket {data : List UInt8} (hr : start.toInt + data.length ≤ 2 ^ 21)
    {p : Client Unit} (hp : ByteWrite cl start data area p) :
    ∃ qs, run plcSocket (cl.onSocket p).run ⟨M, [], served⟩ =
      (.ok (.ok ()), ⟨M.store r start.toInt.toNat data, [], served ++ qs⟩) := by
  have hasks : Asks FramedReply p.run := by
    rw [hp.eq]
    exact asks_chunkedWrite hc area start data
  have hlink := run_byteWrite hc hpdu ha h₀ hr hp (s := ⟨M, [], served⟩) rfl
  obtain ⟨s', hs, rfl, -⟩ := run_onSocket ho hasks (t := ⟨M, [], served⟩) ⟨rfl, nofun⟩
  rw [hlink] at hs
  exact ⟨_, hs⟩

end Range

end MoonS7
