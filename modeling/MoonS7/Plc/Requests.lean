import MoonS7.Client.Accesses
import MoonS7.Lib.Series
import MoonS7.Transport.Peers

/-!
# The requests of a client

Main results: `sent_clientFrame` -- whatever operations a client makes, in whatever environment, it
hands over frames of a few kinds (`ClientFrame`); `ClientFrame.readWhole` -- such a frame is one
telegram, of which the PLC reads every byte.
-/

namespace MoonS7

open Interaction Port Ranges

/-! ## 1. Frames -/

/-- A frame of fewer than 256 bytes. -/
theorem tpktFrame_short {f : Frame} {b : UInt8} (lo : UInt8) {rest : List UInt8}
    (hf : f = 0x03 :: b :: 0x00 :: lo :: rest) (h : f.length = lo.toNat) : TpktFrame f :=
  ⟨b, 0x00, lo, rest, hf, by
    rw [h, show (0x00 : UInt8).toNat = 0 from rfl, Nat.zero_mul, Nat.zero_add]⟩

/-- A telegram is read back whole. -/
theorem parseS7Request_service (refn : Int32) {total mt plen dlen : UInt8} (hmt : simMsgType mt = true)
    (rest : List UInt8) :
    parseS7Request (servicePdu total mt refn plen dlen rest) =
      some ⟨mt, bits refn % 65536, rest.take plen.toNat, (rest.drop plen.toNat).take dlen.toNat⟩ := by
  have hu : ∀ b : UInt8, u16 0x00 b = b.toNat := fun b => by
    rw [u16, show (0x00 : UInt8).toNat = 0 from rfl, Nat.zero_mul, Nat.zero_add]
  have hfind : findS7Header (servicePdu total mt refn plen dlen rest) = some 7 :=
    findHeader_frame (by decide) (by decide) hmt
  rw [parseS7Request, hfind]
  show some (Request.mk mt (u16 (hi8 refn) (lo8 refn)) (rest.take (u16 0x00 plen))
    ((rest.drop (u16 0x00 plen)).take (u16 0x00 dlen))) = _
  rw [u16_hi8_lo8, hu, hu]

/-- The frames that a client sends. -/
inductive ClientFrame (cl : S7Client) : Frame → Prop where
  | read (area : Area) (off : Int32) {c : Nat} (h : c ≤ maxChunk cl.pduSize 23) :
      ClientFrame cl (readFrame area off (Int32.ofNat c) cl.pduRef)
  | write (area : Area) (off : Int32) {chunk : List UInt8} (h : chunk.length ≤ 929) :
      ClientFrame cl (writeFrame area off chunk cl.pduRef)
  | start : ClientFrame cl (buildPlcStartPdu cl.pduRef)
  | stop : ClientFrame cl (buildPlcStopPdu cl.pduRef)
  | restart : ClientFrame cl (buildPlcRestartPdu cl.pduRef)
  | status : ClientFrame cl (buildPlcStatusPdu cl.pduRef)
  | szlCpu : ClientFrame cl (buildSzlFirstPdu cl.pduRef 0x001C 0x000)
  | szlCp : ClientFrame cl (buildSzlFirstPdu cl.pduRef 0x0131 0x000)
  | szlNext : ClientFrame cl (buildSzlNextPdu cl.pduRef cl.pduRef)

/-- The frame `q` is the telegram of `req`: its parameters and data are as long as its header says. -/
inductive Telegram (q : Frame) (req : Request) : Prop where
  | mk {hi lo x y r1 r0 p1 p0 d1 d0 : UInt8}
      (hq : q = [0x03, 0x00, hi, lo] ++ cotpDt ++ (pid :: req.msgType :: x :: y :: r1 :: r0 :: p1 :: p0 ::
        d1 :: d0 :: (req.params ++ req.data)))
      (hhi : hi ≠ pid) (hmt : simMsgType req.msgType = true) (hr : u16 r1 r0 = req.refn)
      (hp : u16 p1 p0 = req.params.length) (hd : u16 d1 d0 = req.data.length) : Telegram q req

theorem Telegram.length {q : Frame} {req : Request} (h : Telegram q req) :
    q.length = 17 + (req.params.length + req.data.length) := by
  obtain ⟨hq, -⟩ := h
  rw [hq, List.length_append, List.length_append]
  simp only [List.length_cons, List.length_append, List.length_nil, cotpDt]
  omega

/-- A frame that is one telegram. -/
structure ReadWhole (q : Frame) : Prop where
  framed : TpktFrame q
  length : q.length ≤ maxPdu + 4
  telegram : ∃ req, Telegram q req

/-- A telegram of the CPU's services. -/
theorem readWhole_service {total mt plen dlen : UInt8} (refn : Int32) {rest : List UInt8}
    (hmt : simMsgType mt = true) (hp : plen.toNat + dlen.toNat = rest.length)
    (ht : total.toNat = 17 + rest.length) : ReadWhole (servicePdu total mt refn plen dlen rest) where
  framed := tpktFrame_short total rfl (by
    rw [servicePdu, List.length_append, ht]
    rfl)
  length := by
    have := total.toNat_lt
    rw [servicePdu, List.length_append, List.length_cons]
    show 16 + 1 + rest.length ≤ 964
    omega
  telegram := by
    have hu : ∀ b : UInt8, u16 0x00 b = b.toNat := fun b => by
      rw [u16, show (0x00 : UInt8).toNat = 0 from rfl, Nat.zero_mul, Nat.zero_add]
    have hq : servicePdu total mt refn plen dlen rest = [0x03, 0x00, 0x00, total] ++ cotpDt ++
        (pid :: mt :: 0x00 :: 0x00 :: hi8 refn :: lo8 refn :: 0x00 :: plen :: 0x00 :: dlen ::
          (rest.take plen.toNat ++ rest.drop plen.toNat)) := by
      rw [List.take_append_drop]
      rfl
    refine ⟨⟨mt, u16 (hi8 refn) (lo8 refn), rest.take plen.toNat, rest.drop plen.toNat⟩,
      .mk hq (show (0x00 : UInt8) ≠ pid by decide) hmt rfl ((hu plen).trans ?_) ((hu dlen).trans ?_)⟩
    · rw [List.length_take]
      omega
    · rw [List.length_drop]
      omega

/-- A job, if it is not too long to be sent. -/
theorem readWhole_packet (refn : Int32) {params wdata : List UInt8}
    (h : params.length + wdata.length ≤ 947) : ReadWhole (packet refn params wdata) where
  framed := by
    refine ⟨_, _, _, _, packet_eq refn params wdata, ?_⟩
    show _ = u16 (hi8 (Int32.ofNat (packet refn params wdata).length))
      (lo8 (Int32.ofNat (packet refn params wdata).length))
    rw [u16_hi8_lo8, bits_ofNat, length_packet]
    omega
  length := by
    rw [length_packet]
    show _ ≤ 964
    omega
  telegram := ⟨⟨0x01, u16 (hi8 refn) (lo8 refn), params, wdata⟩,
    .mk (packet_eq refn params wdata) (hi8_packet_ne_pid refn h) (show simMsgType 0x01 = true by decide) rfl
      (u16_length (show params.length < 65536 by omega))
      (u16_length (show wdata.length < 65536 by omega))⟩

/-- **Every frame of a client** is one telegram. -/
theorem ClientFrame.readWhole {cl : S7Client} {q : Frame} (h : ClientFrame cl q) : ReadWhole q := by
  cases h with
  | read area off h => exact readWhole_packet _ (Nat.le_of_ble_eq_true rfl)
  | write area off h =>
    refine readWhole_packet _ ?_
    simp only [List.length_append, length_itemParams, List.length_cons, List.length_nil]
    omega
  | start => exact readWhole_service _ (by decide) rfl rfl
  | stop => exact readWhole_service _ (by decide) rfl rfl
  | restart => exact readWhole_service _ (by decide) rfl rfl
  | status => exact readWhole_service _ (by decide) rfl rfl
  | szlCpu => exact readWhole_service _ (by decide) rfl rfl
  | szlCp => exact readWhole_service _ (by decide) rfl rfl
  | szlNext => exact readWhole_service _ (by decide) rfl rfl

/-! ## 2. Operations -/

/-- A program that begins with a request. -/
theorem asks_request {P : Frame → Prop} {q : Frame} (hq : P q) {β : Type} {k : Frame → Client β}
    (hk : ∀ a, Asks (Requests P) (k a).run) :
    Asks (Requests P) (send Stop.err q >>= fun _ => receive Stop.err >>= k : Client β).run := by
  have hsend : Asks (Requests P) (send Stop.err q : Client Unit).run := .ask hq fun _ => .ret _
  have hreceive : Asks (Requests P) (receive Stop.err : Client Frame).run := .ask trivial fun _ => .ret _
  exact hsend.op_bind fun _ => hreceive.op_bind hk

section Operations

variable (cl : S7Client)

theorem asks_reads (area : Area) (start size : Int32) :
    Asks (Requests (ClientFrame cl)) (chunkedRead cl area start size).run := by
  cases hc : cl.connected with
  | false =>
    rw [chunkedRead_not_connected hc]
    exact .ret _
  | true =>
    rw [chunkedRead_eq hc]
    refine Asks.op_bind (asks_session trivial fun q hq => ?_) fun bs => .ret _
    obtain ⟨p, hp, hpq⟩ := List.mem_map.mp hq
    cases hpq
    exact .read area _ (cuts_le _ _ _ p hp)

theorem asks_writes (area : Area) (start : Int32) (data : List UInt8) :
    Asks (Requests (ClientFrame cl)) (chunkedWrite cl area start data).run := by
  cases hc : cl.connected with
  | false =>
    rw [chunkedWrite_not_connected hc]
    exact .ret _
  | true =>
    rw [chunkedWrite_eq hc]
    refine Asks.op_bind (asks_session trivial fun q hq => ?_) fun _ => .ret _
    obtain ⟨p, hp, hpq⟩ := List.mem_map.mp hq
    rw [writeReq] at hpq
    split at hpq
    · cases hpq
      refine .write area _ ?_
      rw [List.length_take]
      omega
    · cases hpq

theorem asks_ctrl {q : Frame} (hq : ClientFrame cl q) (startCmp alreadyCmp : UInt8) :
    Asks (Requests (ClientFrame cl)) (doCtrl cl q startCmp alreadyCmp).run := by
  unfold doCtrl
  split
  · exact .ret _
  · exact asks_request hq fun _ => .ret _

/-- **An operation sends frames of the client**, and no others. -/
theorem asks_operation (takes : Int32 → Bool) (o : Operation) :
    Asks (Requests (ClientFrame cl)) (o.prog takes cl).run := by
  cases hc : cl.connected with
  | false =>
    rw [Operation.prog_not_connected takes hc]
    exact .ret _
  | true =>
    cases ha : o.access takes with
    | some a =>
      rw [Operation.prog_eq hc ha]
      cases a with
      | reads area start size dec => exact (asks_reads cl area start size).op_bind fun _ => .ret _
      | writes area start data res => exact (asks_writes cl area start data).op_bind fun _ => .ret _
    | none =>
      have hcl : ¬ cl.connected = false := by rw [hc]; decide
      cases o with
      | plcStart => exact asks_ctrl cl .start 0x28 0x02
      | plcStop => exact asks_ctrl cl .stop 0x29 0x07
      | plcRestart => exact asks_ctrl cl .restart 0x28 0x02
      | plcStatus =>
        show Asks _ cl.plcStatus.run
        rw [S7Client.plcStatus, if_neg hcl]
        exact asks_request .status fun _ => .ret _
      | cpuInfo =>
        show Asks _ (szlRead cl 0x001C 0x000 205).run
        rw [szlRead, if_neg hcl]
        refine asks_request .szlCpu fun a => Asks.op_bind (.ret _) fun szl => ?_
        split
        · exact asks_request .szlNext fun a => Asks.op_bind (.ret _) fun _ => .ret _
        · exact .ret _
      | cpInfo =>
        show Asks _ (szlReadCp cl 0x0131 0x000).run
        rw [szlReadCp, if_neg hcl]
        exact asks_request .szlCp fun a => Asks.op_bind (.ret _) fun _ => .ret _
      | _ => cases ha

variable {cl}

/-- **What is sent**: whatever operations a client makes, one after the other and whatever comes of
    each, the frames handed to the connection are those of the client. -/
theorem sent_clientFrame {takes : Int32 → Bool} {os : List Operation}
    {tr : List (Event Frame Frame S7Error)} {x : S7Result (Results Operation Operation.Result Stop)}
    (h : Follows (series (Operation.prog takes cl) os : Client _).run tr x) {q : Frame}
    (hq : q ∈ attempts tr) : ClientFrame cl q := by
  have hasks : Asks (Requests (ClientFrame cl)) (series (Operation.prog takes cl) os : Client _).run :=
    asks_series fun o _ => asks_operation cl takes o
  obtain ⟨ev, hev, hsome⟩ := List.mem_filterMap.mp hq
  have hcall := hasks.follows h ev hev
  obtain ⟨c, r⟩ := ev
  cases c with
  | send q' => cases hsome; exact hcall
  | receive => cases hsome

end Operations

end MoonS7
