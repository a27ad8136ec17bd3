import MoonS7.Transport.Tcp

/-!
# The calls of the transport (`transport/tcp.mbt`)

What a write of a frame, a read of a frame and `connect` ask of the socket library, and what they
return for the replies they get.

Main results: `follows_writeAll_iff`, `follows_readTpkt_iff` and, for the client's two calls,
`follows_send_transport_iff` and `follows_receive_transport_iff`; `follows_tcpConnect_ok_iff` -- the
calls of a `connect` that succeeds, and the connection it returns.
-/

namespace MoonS7

open Interaction

abbrev SockEvent : Type := Σ c : SockCall, SockReply c

/-! ## 1. Single calls -/

section Calls

variable {sock : Socket} {tr : List SockEvent}

theorem follows_write_iff {data : List UInt8} {x : Except Interrupt Unit} :
    Follows (sock.write data).run tr x ↔
      ∃ r : Await Unit, tr = [⟨.write sock data, r⟩] ∧ x = r.toExcept :=
  follows_call_iff

theorem follows_readExactly_iff {n : Nat} {x : Except Interrupt (Vector UInt8 n)} :
    Follows (sock.readExactly n).run tr x ↔
      ∃ r : Await (Vector UInt8 n), tr = [⟨.readExactly sock n, r⟩] ∧ x = r.toExcept :=
  follows_call_iff

theorem follows_connectToHost_iff {host : String} {port : Int32} {x : Except Interrupt Socket} :
    Follows (Socket.connectToHost host port).run tr x ↔
      ∃ r : Await Socket, tr = [⟨.connectToHost host port, r⟩] ∧ x = r.toExcept :=
  follows_call_iff

/-- What a task returns after it has closed the socket. -/
theorem follows_close_return {α : Type} {a : α} {x : Except Interrupt α}
    (h : Follows (sock.close >>= fun _ => return a).run tr x) : x = .ok a := by
  obtain ⟨r, tr', -, hk⟩ := follows_ask_iff.mp h
  exact (follows_ret_iff.mp (show Follows (.ret (.ok a)) tr' x from hk)).1

/-- What a `catch` makes of how its block ends. -/
def caught {α : Type} (f : String → α) : Except Interrupt α → Except Interrupt α
  | .error (.raised m) => .ok (f m)
  | r => r

theorem catchRaised_run {α : Type} (t : Task α) (f : String → α) :
    (catchRaised t f).run = t.run >>= fun y => .ret (caught f y) := by
  show (t.run >>= _) = _
  congr 1
  funext y
  rcases y with (⟨m⟩ | _) | a <;> rfl

theorem follows_catchRaised_iff {α : Type} {t : Task α} {f : String → α} {x : Except Interrupt α} :
    Follows (catchRaised t f).run tr x ↔ ∃ y, Follows t.run tr y ∧ x = caught f y := by
  rw [catchRaised_run, follows_map_iff]

/-- What a `with_timeout_opt` makes of how its block ends. -/
def timed {α : Type} : Except Interrupt α → Except Interrupt (Option α)
  | .ok a => .ok (some a)
  | .error .expired => .ok none
  | .error (.raised m) => .error (.raised m)

theorem withTimeoutOpt_run {α : Type} (time : Int32) (t : Task α) :
    (withTimeoutOpt time t).run = t.run >>= fun y => .ret (timed y) := by
  show (t.run >>= _) = _
  congr 1
  funext y
  rcases y with (⟨m⟩ | _) | a <;> rfl

theorem follows_withTimeoutOpt_iff {α : Type} {t : Task α} {time : Int32}
    {x : Except Interrupt (Option α)} :
    Follows (withTimeoutOpt time t).run tr x ↔ ∃ y, Follows t.run tr y ∧ x = timed y := by
  rw [withTimeoutOpt_run, follows_map_iff]

end Calls

/-! ## 2. Frames -/

/-- A frame that `read_tpkt` can return: its version and its length are right. -/
def TpktFrame (f : Frame) : Prop :=
  ∃ (b hi lo : UInt8) (body : List UInt8), f = 0x03 :: b :: hi :: lo :: body ∧
    f.length = hi.toNat * 256 + lo.toNat

/-- The length that a header states. -/
def tpktLength (hdr : Vector UInt8 4) : Nat := (hdr.get 2).toNat * 256 + (hdr.get 3).toNat

/-- A header that `read_tpkt` goes on with. -/
def TpktHeader (hdr : Vector UInt8 4) : Prop := hdr.get 0 = 0x03 ∧ 4 ≤ tpktLength hdr

/-- How many bytes `read_tpkt` reads behind the header. -/
def bodyLength (hdr : Vector UInt8 4) : Nat := (be16 (hdr.get 2) (hdr.get 3) - 4).toInt.toNat

theorem bodyLength_eq {hdr : Vector UInt8 4} (h : TpktHeader hdr) :
    4 + bodyLength hdr = tpktLength hdr := by
  have h₂ := (hdr.get 2).toNat_lt
  have h₃ := (hdr.get 3).toNat_lt
  have h4 : 4 ≤ tpktLength hdr := h.2
  have hn : (be16 (hdr.get 2) (hdr.get 3) - 4).toInt = tpktLength hdr - 4 := by
    rw [tpktLength] at h4 ⊢
    rw [Int32.toInt_sub, be16_toInt]
    show Int.bmod (_ - 4) _ = _
    rw [Int.bmod_eq_of_le] <;> omega
  rw [bodyLength, hn]
  omega

theorem total_lt_iff (hdr : Vector UInt8 4) :
    be16 (hdr.get 2) (hdr.get 3) < 4 ↔ tpktLength hdr < 4 := by
  rw [Int32.lt_iff_toInt_lt, be16_toInt, tpktLength]
  show (_ : Int) < 4 ↔ _
  omega

/-- What `read_tpkt` can do: the two reads, the second only behind a good header, and what becomes
    of them. -/
inductive TpktRead (sock : Socket) :
    List SockEvent → Except Interrupt (Except S7Error Frame) → Prop where
  | noHeader (m : String) :
      TpktRead sock [⟨.readExactly sock 4, .raised m⟩] (.ok (.error .connectionClosed))
  | headerExpired : TpktRead sock [⟨.readExactly sock 4, .expired⟩] (.error .expired)
  | badVersion (hdr : Vector UInt8 4) (h : hdr.get 0 ≠ 0x03) :
      TpktRead sock [⟨.readExactly sock 4, .value hdr⟩] (.ok (.error (.invalidPdu "Bad TPKT")))
  | badLength (hdr : Vector UInt8 4) (h : hdr.get 0 = 0x03) (hl : tpktLength hdr < 4) :
      TpktRead sock [⟨.readExactly sock 4, .value hdr⟩]
        (.ok (.error (.invalidPdu "Invalid TPKT length")))
  | noBody (hdr : Vector UInt8 4) (m : String) (h : TpktHeader hdr) :
      TpktRead sock [⟨.readExactly sock 4, .value hdr⟩,
        ⟨.readExactly sock (bodyLength hdr), .raised m⟩] (.ok (.error .connectionClosed))
  | bodyExpired (hdr : Vector UInt8 4) (h : TpktHeader hdr) :
      TpktRead sock [⟨.readExactly sock 4, .value hdr⟩,
        ⟨.readExactly sock (bodyLength hdr), .expired⟩] (.error .expired)
  | frame (hdr : Vector UInt8 4) (body : Vector UInt8 (bodyLength hdr)) (h : TpktHeader hdr) :
      TpktRead sock [⟨.readExactly sock 4, .value hdr⟩,
        ⟨.readExactly sock (bodyLength hdr), .value body⟩] (.ok (.ok (hdr.toList ++ body.toList)))

section Frames

variable {sock : Socket} {tr : List SockEvent}

/-- What `write_all` returns for the reply to its one call. -/
def written : Await Unit → Except Interrupt (Except S7Error Unit)
  | .value _ => .ok (.ok ())
  | .raised m => .ok (.error (.transportError ("Write failed: " ++ m)))
  | .expired => .error .expired

theorem follows_writeAll_iff {data : List UInt8} {x : Except Interrupt (Except S7Error Unit)} :
    Follows (writeAll sock data).run tr x ↔
      ∃ r : Await Unit, tr = [⟨.write sock data, r⟩] ∧ x = written r := by
  rw [writeAll, follows_catchRaised_iff]
  constructor
  · rintro ⟨y, h, rfl⟩
    obtain ⟨z, hz, rfl⟩ := follows_return_iff.mp h
    obtain ⟨r, rfl, rfl⟩ := follows_write_iff.mp hz
    exact ⟨r, rfl, by cases r <;> rfl⟩
  · rintro ⟨r, rfl, rfl⟩
    exact ⟨_, follows_return_iff.mpr ⟨_, follows_write_iff.mpr ⟨r, rfl, rfl⟩, rfl⟩,
      by cases r <;> rfl⟩

/-- The part of `read_tpkt` behind the read of the header. -/
def readBody (sock : Socket) (hdr : Vector UInt8 4) : Task (Except S7Error Frame) :=
  if hdr.get 0 ≠ 0x03 then return .error (.invalidPdu "Bad TPKT")
  else
    let total := be16 (hdr.get 2) (hdr.get 3)
    if total < 4 then return .error (.invalidPdu "Invalid TPKT length")
    else do
      let body ← sock.readExactly (total - 4).toInt.toNat
      return .ok (hdr.toList ++ body.toList)

theorem readTpkt_eq : readTpkt sock =
    catchRaised (sock.readExactly 4 >>= readBody sock) fun _ => .error .connectionClosed := rfl

theorem readBody_eq {hdr : Vector UInt8 4} (h : TpktHeader hdr) : readBody sock hdr =
    sock.readExactly (bodyLength hdr) >>= fun body => return .ok (hdr.toList ++ body.toList) := by
  rw [readBody, if_neg (not_not_intro h.1)]
  exact if_neg fun hlt => Nat.not_lt.mpr h.2 ((total_lt_iff hdr).mp hlt)

theorem readBody_badVersion {hdr : Vector UInt8 4} (h : hdr.get 0 ≠ 0x03) :
    readBody sock hdr = return .error (.invalidPdu "Bad TPKT") := by
  rw [readBody, if_pos h]

theorem readBody_badLength {hdr : Vector UInt8 4} (h : hdr.get 0 = 0x03)
    (hl : tpktLength hdr < 4) :
    readBody sock hdr = return .error (.invalidPdu "Invalid TPKT length") := by
  rw [readBody, if_neg (not_not_intro h)]
  exact if_pos ((total_lt_iff hdr).mpr hl)

/-- Behind a good header one read is left. -/
theorem follows_readBody_iff {hdr : Vector UInt8 4} (h : TpktHeader hdr)
    {x : Except Interrupt (Except S7Error Frame)} :
    Follows (readBody sock hdr).run tr x ↔ ∃ r : Await (Vector UInt8 (bodyLength hdr)),
      tr = [⟨.readExactly sock (bodyLength hdr), r⟩] ∧
        x = r.toExcept.map fun body => .ok (hdr.toList ++ body.toList) := by
  rw [readBody_eq h, follows_return_iff]
  constructor
  · rintro ⟨y, hy, rfl⟩
    obtain ⟨r, rfl, rfl⟩ := follows_readExactly_iff.mp hy
    exact ⟨r, rfl, rfl⟩
  · rintro ⟨r, rfl, rfl⟩
    exact ⟨_, follows_readExactly_iff.mpr ⟨r, rfl, rfl⟩, rfl⟩

/-- **Reading a frame.** -/
theorem follows_readTpkt_iff {x : Except Interrupt (Except S7Error Frame)} :
    Follows (readTpkt sock).run tr x ↔ TpktRead sock tr x := by
  rw [readTpkt_eq, follows_catchRaised_iff]
  constructor
  · rintro ⟨y, h, rfl⟩
    rcases follows_op_bind_iff.mp h with ⟨i, h₁, rfl⟩ | ⟨hdr, tr₁, tr₂, rfl, h₁, h₂⟩
    · obtain ⟨r, rfl, hr⟩ := follows_readExactly_iff.mp h₁
      cases r with
      | value v => cases hr
      | raised m =>
        cases hr
        exact .noHeader m
      | expired =>
        cases hr
        exact .headerExpired
    · obtain ⟨r, rfl, hr⟩ := follows_readExactly_iff.mp h₁
      cases r with
      | raised m => cases hr
      | expired => cases hr
      | value v =>
        cases hr
        by_cases h0 : hdr.get 0 = 0x03
        · by_cases h4 : tpktLength hdr < 4
          · rw [readBody_badLength h0 h4] at h₂
            obtain ⟨rfl, rfl⟩ := follows_ret_iff.mp h₂
            exact .badLength hdr h0 h4
          · have hh : TpktHeader hdr := ⟨h0, Nat.le_of_not_lt h4⟩
            obtain ⟨r, rfl, rfl⟩ := (follows_readBody_iff hh).mp h₂
            cases r with
            | value body => exact .frame hdr body hh
            | raised m => exact .noBody hdr m hh
            | expired => exact .bodyExpired hdr hh
        · rw [readBody_badVersion h0] at h₂
          obtain ⟨rfl, rfl⟩ := follows_ret_iff.mp h₂
          exact .badVersion hdr h0
  · intro h
    have hread : ∀ r : Await (Vector UInt8 4),
        Follows (sock.readExactly 4).run [⟨.readExactly sock 4, r⟩] r.toExcept :=
      fun r => follows_readExactly_iff.mpr ⟨r, rfl, rfl⟩
    -- behind a header that was read, the trace of the rest
    have hrest : ∀ (hdr : Vector UInt8 4) {t y}, Follows (readBody sock hdr).run t y →
        Follows (sock.readExactly 4 >>= readBody sock).run (⟨.readExactly sock 4, .value hdr⟩ :: t) y :=
      fun hdr t y ht => follows_op_bind_iff.mpr (Or.inr ⟨hdr, _, t, rfl, hread (.value hdr), ht⟩)
    cases h with
    | noHeader m => exact ⟨_, follows_op_bind_iff.mpr (Or.inl ⟨_, hread (.raised m), rfl⟩), rfl⟩
    | headerExpired => exact ⟨_, follows_op_bind_iff.mpr (Or.inl ⟨_, hread .expired, rfl⟩), rfl⟩
    | badVersion hdr h =>
      refine ⟨.ok _, hrest hdr ?_, rfl⟩
      rw [readBody_badVersion h]
      exact .ret _
    | badLength hdr h hl =>
      refine ⟨.ok _, hrest hdr ?_, rfl⟩
      rw [readBody_badLength h hl]
      exact .ret _
    | noBody hdr m h =>
      exact ⟨_, hrest hdr ((follows_readBody_iff h).mpr ⟨.raised m, rfl, rfl⟩), rfl⟩
    | bodyExpired hdr h =>
      exact ⟨_, hrest hdr ((follows_readBody_iff h).mpr ⟨.expired, rfl, rfl⟩), rfl⟩
    | frame hdr body h =>
      exact ⟨_, hrest hdr ((follows_readBody_iff h).mpr ⟨.value body, rfl, rfl⟩), rfl⟩

theorem header_toList (hdr : Vector UInt8 4) :
    hdr.toList = [hdr.get 0, hdr.get 1, hdr.get 2, hdr.get 3] := by
  refine List.ext_getElem (by simp) fun i h₁ h₂ => ?_
  have hi : i < 4 := by simpa using h₁
  have hi : i = 0 ∨ i = 1 ∨ i = 2 ∨ i = 3 := by omega
  rcases hi with rfl | rfl | rfl | rfl
  · rfl
  · rfl
  · rfl
  · rfl

/-- **The frames that can be read** are those with a good header and their own length. -/
theorem tpktFrame_iff {f : Frame} : TpktFrame f ↔
    ∃ (hdr : Vector UInt8 4) (body : Vector UInt8 (bodyLength hdr)),
      TpktHeader hdr ∧ f = hdr.toList ++ body.toList := by
  constructor
  · rintro ⟨b, hi, lo, body, rfl, hl⟩
    have hh : TpktHeader #v[0x03, b, hi, lo] := by
      refine ⟨rfl, ?_⟩
      show 4 ≤ hi.toNat * 256 + lo.toNat
      rw [← hl]
      simp
    have hb : body.length = bodyLength #v[0x03, b, hi, lo] := by
      have := bodyLength_eq hh
      have hl' : 4 + body.length = hi.toNat * 256 + lo.toNat := by
        rw [← hl]
        simp only [List.length_cons]
        omega
      exact Nat.add_left_cancel (hl'.trans this.symm)
    exact ⟨_, ⟨body.toArray, hb⟩, hh, rfl⟩
  · rintro ⟨hdr, body, hh, rfl⟩
    refine ⟨hdr.get 1, hdr.get 2, hdr.get 3, body.toList, ?_, ?_⟩
    · rw [header_toList, hh.1]
      rfl
    · rw [List.length_append, Vector.length_toList, Vector.length_toList, bodyLength_eq hh]
      rfl

/-- A frame that was read. -/
theorem TpktRead.tpktFrame {f : Frame} (h : TpktRead sock tr (.ok (.ok f))) : TpktFrame f := by
  cases h with
  | frame hdr body hh => exact tpktFrame_iff.mpr ⟨hdr, body, hh, rfl⟩

end Frames

/-! ## 3. The client's two calls -/

section Transport

variable {tcp : TcpConnection} {pduSize : Int32} {tr : List SockEvent}

/-- A connection that is open, and its socket. -/
def TcpConnection.Open (tcp : TcpConnection) (sock : Socket) : Prop :=
  tcp.connected = true ∧ tcp.tcp = some sock

/-- What a send and a receive make of a frame written or read. -/
def sendResult : Await Unit → Except S7Error Unit
  | .value _ => .ok ()
  | .raised m => .error (.transportError ("Write failed: " ++ m))
  | .expired => .error (.timeout "write timeout")

def receiveResult : Except Interrupt (Except S7Error Frame) → Except S7Error Frame
  | .ok r => r
  | .error _ => .error (.timeout "read timeout")

/-- **Sending** is one write. -/
theorem follows_send_transport_iff {sock : Socket} (h : tcp.Open sock) {q : Frame}
    {x : Except Interrupt (Except S7Error Unit)} :
    Follows (transport tcp pduSize (.send q)).run tr x ↔
      ∃ r : Await Unit, tr = [⟨.write sock q, r⟩] ∧ x = .ok (sendResult r) := by
  have he : transport tcp pduSize (.send q) =
      withTimeoutOpt tcp.config.writeTimeout (writeAll sock q) >>= fun o =>
        return match o with
          | none => (.error (.timeout "write timeout") : Except S7Error Unit)
          | some r => r := by
    show (tcp.sendRaw q >>= fun r => (return r.map fun _ => () : Task (Except S7Error Unit))) = _
    rw [TcpConnection.sendRaw, if_neg (by rw [h.1]; decide), h.2, bind_assoc]
    congr 1
    funext o
    rcases o with _ | (e | u) <;> rfl
  rw [he, follows_return_iff]
  constructor
  · rintro ⟨y, hy, rfl⟩
    obtain ⟨z, hz, rfl⟩ := follows_withTimeoutOpt_iff.mp hy
    obtain ⟨r, rfl, rfl⟩ := follows_writeAll_iff.mp hz
    exact ⟨r, rfl, by cases r <;> rfl⟩
  · rintro ⟨r, rfl, rfl⟩
    exact ⟨_, follows_withTimeoutOpt_iff.mpr ⟨_, follows_writeAll_iff.mpr ⟨r, rfl, rfl⟩, rfl⟩,
      by cases r <;> rfl⟩

/-- **Receiving** is one read of a frame. -/
theorem follows_receive_transport_iff {sock : Socket} (h : tcp.Open sock)
    {x : Except Interrupt (Except S7Error Frame)} :
    Follows (transport tcp pduSize .receive).run tr x ↔
      ∃ y, TpktRead sock tr y ∧ x = .ok (receiveResult y) := by
  have he : transport tcp pduSize .receive =
      withTimeoutOpt tcp.config.readTimeout (readTpkt sock) >>= fun o =>
        return match o with
          | none => (.error (.timeout "read timeout") : Except S7Error Frame)
          | some r => r := by
    show tcp.receive pduSize = _
    rw [TcpConnection.receive, if_neg (by rw [h.1]; decide), h.2]
    show (withTimeoutOpt _ _ >>= _) = _
    congr 1
    funext o
    rcases o with _ | (e | u) <;> rfl
  rw [he, follows_return_iff]
  constructor
  · rintro ⟨y, hy, rfl⟩
    obtain ⟨z, hz, rfl⟩ := follows_withTimeoutOpt_iff.mp hy
    have hr := follows_readTpkt_iff.mp hz
    exact ⟨z, hr, by cases hr <;> rfl⟩
  · rintro ⟨y, hr, rfl⟩
    exact ⟨_, follows_withTimeoutOpt_iff.mpr ⟨y, follows_readTpkt_iff.mpr hr, rfl⟩,
      by cases hr <;> rfl⟩

end Transport

/-! ## 4. Connecting -/

section Connect

variable {tr : List SockEvent}

/-- A step that returns an `S7Result` with a rest that only goes on from `Ok`. -/
theorem follows_match_ok_iff {α β ε : Type} {t : Task (Except ε α)}
    {F : Except ε α → Task (S7Result β)} {g : ε → Stop} (hF : ∀ e, F (.error e) = return .error (g e))
    {b : β} :
    Follows (t >>= F).run tr (.ok (.ok b)) ↔ ∃ a tr₁ tr₂, tr = tr₁ ++ tr₂ ∧
      Follows t.run tr₁ (.ok (.ok a)) ∧ Follows (F (.ok a)).run tr₂ (.ok (.ok b)) := by
  rw [follows_op_bind_iff]
  constructor
  · rintro (⟨_, _, hb⟩ | ⟨r, tr₁, tr₂, rfl, h₁, h₂⟩)
    · cases hb
    · cases r with
      | ok a => exact ⟨a, tr₁, tr₂, rfl, h₁, h₂⟩
      | error e =>
        rw [hF] at h₂
        obtain ⟨hb, -⟩ := follows_ret_iff.mp h₂
        cases hb
  · rintro ⟨a, tr₁, tr₂, rfl, h₁, h₂⟩
    exact Or.inr ⟨.ok a, tr₁, tr₂, rfl, h₁, h₂⟩

/-- The calls of a negotiation that succeeds, around the two frames it reads. -/
def Negotiates (localTsap remoteTsap : List UInt8) (sock : Socket) (cc st : Frame)
    (tr : List SockEvent) : Prop :=
  ∃ tr₁ tr₂, TpktRead sock tr₁ (.ok (.ok cc)) ∧ TpktRead sock tr₂ (.ok (.ok st)) ∧
    tr = ⟨.write sock (buildCotpCr localTsap remoteTsap), .value ()⟩ :: (tr₁ ++
      ⟨.write sock (buildSetupPdu 1 1 1), .value ()⟩ :: tr₂)

theorem follows_writeAll_ok_iff {sock : Socket} {data : List UInt8} :
    Follows (writeAll sock data).run tr (.ok (.ok ())) ↔ tr = [⟨.write sock data, .value ()⟩] := by
  rw [follows_writeAll_iff]
  constructor
  · rintro ⟨r, rfl, hr⟩
    cases r with
    | value u => rfl
    | raised m => cases hr
    | expired => cases hr
  · rintro rfl
    exact ⟨.value (), rfl, rfl⟩

/-- **A negotiation that succeeds** has read a connection confirm and a setup reply. -/
theorem follows_negotiate_ok_iff {localTsap remoteTsap : List UInt8} {sock : Socket} {ps : Int32} :
    Follows (negotiate localTsap remoteTsap sock).run tr (.ok (.ok ps)) ↔
      ∃ cc st, Negotiates localTsap remoteTsap sock cc st tr ∧ (∃ n, parseCotpCc cc = .ok n) ∧
        parseSetupResp st = .ok ps := by
  unfold negotiate
  rw [follows_match_ok_iff (g := .err) fun _ => rfl]
  constructor
  · rintro ⟨u, _, _, rfl, hcr, h₁⟩
    cases follows_writeAll_ok_iff.mp hcr
    obtain ⟨cc, tr₁, _, rfl, hcc, h₂⟩ := (follows_match_ok_iff (g := .err) fun _ => rfl).mp h₁
    cases hp : parseCotpCc cc with
    | error e =>
      simp only [hp] at h₂
      obtain ⟨hb, -⟩ := follows_ret_iff.mp h₂
      cases hb
    | ok n =>
      simp only [hp] at h₂
      obtain ⟨u, _, _, rfl, hjob, h₃⟩ := (follows_match_ok_iff (g := .err) fun _ => rfl).mp h₂
      cases follows_writeAll_ok_iff.mp hjob
      obtain ⟨st, tr₂, _, rfl, hst, h₄⟩ := (follows_match_ok_iff (g := .err) fun _ => rfl).mp h₃
      obtain ⟨hb, rfl⟩ := follows_ret_iff.mp h₄
      refine ⟨cc, st, ⟨tr₁, tr₂, follows_readTpkt_iff.mp hcc, follows_readTpkt_iff.mp hst, ?_⟩,
        ⟨n, hp⟩, (Except.ok.inj hb).symm⟩
      rw [List.append_nil]
      rfl
  · rintro ⟨cc, st, ⟨tr₁, tr₂, hcc, hst, rfl⟩, ⟨n, hn⟩, hps⟩
    refine ⟨(), [_], _, rfl, follows_writeAll_ok_iff.mpr rfl, ?_⟩
    refine (follows_match_ok_iff (g := .err) fun _ => rfl).mpr
      ⟨cc, tr₁, _, rfl, follows_readTpkt_iff.mpr hcc, ?_⟩
    simp only [hn]
    refine (follows_match_ok_iff (g := .err) fun _ => rfl).mpr
      ⟨(), [_], tr₂, rfl, follows_writeAll_ok_iff.mpr rfl, ?_⟩
    refine (follows_match_ok_iff (g := .err) fun _ => rfl).mpr
      ⟨st, tr₂, [], (List.append_nil _).symm, follows_readTpkt_iff.mpr hst, ?_⟩
    simp only [hps]
    exact .ret _

/-- A wait for a socket whose failures are errors. -/
theorem follows_await_ok_iff {host : String} {port time : Int32} {f : String → S7Error}
    {o : Option Socket} :
    Follows (catchRaised (do return .ok (← withTimeoutOpt time (Socket.connectToHost host port)))
      fun m => (err (f m) : S7Result (Option Socket))).run tr (.ok (.ok o)) ↔
      (∃ sock, tr = [⟨.connectToHost host port, .value sock⟩] ∧ o = some sock) ∨
      (tr = [⟨.connectToHost host port, .expired⟩] ∧ o = none) := by
  rw [follows_catchRaised_iff]
  constructor
  · rintro ⟨y, h, hy⟩
    obtain ⟨z, hz, rfl⟩ := follows_return_iff.mp h
    obtain ⟨w, hw, rfl⟩ := follows_withTimeoutOpt_iff.mp hz
    obtain ⟨r, rfl, rfl⟩ := follows_connectToHost_iff.mp hw
    cases r with
    | value sock =>
      cases hy
      exact Or.inl ⟨sock, rfl, rfl⟩
    | raised m => cases hy
    | expired =>
      cases hy
      exact Or.inr ⟨rfl, rfl⟩
  · rintro (⟨sock, rfl, rfl⟩ | ⟨rfl, rfl⟩)
    · exact ⟨.ok (.ok (some sock)), follows_return_iff.mpr ⟨_, follows_withTimeoutOpt_iff.mpr
        ⟨_, follows_connectToHost_iff.mpr ⟨.value sock, rfl, rfl⟩, rfl⟩, rfl⟩, rfl⟩
    · exact ⟨.ok (.ok none), follows_return_iff.mpr ⟨_, follows_withTimeoutOpt_iff.mpr
        ⟨_, follows_connectToHost_iff.mpr ⟨.expired, rfl, rfl⟩, rfl⟩, rfl⟩, rfl⟩

/-- The connection that `connect` returns on the socket `sock`. -/
def TcpConnection.opened (self : TcpConnection) (sock : Socket) (ps : Int32) : TcpConnection :=
  { self with connected := true, tcp := some sock, pduRef := 2, pduSize := ps }

theorem follows_tcpConnect_ok_iff {self tc : TcpConnection} :
    Follows self.connect.run tr (.ok (.ok tc)) ↔ self.connected = false ∧
      ∃ sock ps tr', tr = ⟨.connectToHost self.config.host self.config.port, .value sock⟩ :: tr' ∧
        Follows (negotiate self.localTsap self.remoteTsap sock).run tr' (.ok (.ok ps)) ∧
        tc = self.opened sock ps := by
  unfold TcpConnection.connect
  cases self.connected with
  | true =>
    rw [if_pos rfl]
    refine ⟨fun h => ?_, fun ⟨h, _⟩ => by cases h⟩
    obtain ⟨hb, -⟩ := follows_ret_iff.mp h
    cases hb
  | false =>
    rw [if_neg Bool.false_ne_true, follows_match_ok_iff (g := id)]
    swap
    · exact fun _ => rfl
    constructor
    · rintro ⟨o, tr₁, tr₂, rfl, h₁, h₂⟩
      rcases follows_await_ok_iff.mp h₁ with ⟨sock, rfl, rfl⟩ | ⟨rfl, rfl⟩
      · rcases follows_op_bind_iff.mp h₂ with ⟨_, _, hb⟩ | ⟨n, tr₃, tr₄, rfl, h₃, h₄⟩
        · cases hb
        obtain ⟨y, hneg, hy⟩ := follows_withTimeoutOpt_iff.mp h₃
        rcases n with _ | (_ | e) | ps
        · cases follows_close_return h₄
        · cases follows_close_return h₄
        · obtain ⟨hb, -⟩ := follows_ret_iff.mp h₄
          cases hb
        · obtain ⟨hb, rfl⟩ := follows_ret_iff.mp h₄
          cases hb
          rcases y with (⟨m⟩ | _) | v
          · cases hy
          · cases hy
          · cases hy
            exact ⟨rfl, sock, ps, tr₃, by rw [List.append_nil]; rfl, hneg, rfl⟩
      · obtain ⟨hb, -⟩ := follows_ret_iff.mp h₂
        cases hb
    · rintro ⟨-, sock, ps, tr', rfl, h, rfl⟩
      refine ⟨some sock, [_], tr', rfl, follows_await_ok_iff.mpr (Or.inl ⟨sock, rfl, rfl⟩), ?_⟩
      exact follows_op_bind_iff.mpr (Or.inr ⟨some (.ok ps), tr', [], (List.append_nil _).symm,
        follows_withTimeoutOpt_iff.mpr ⟨_, h, rfl⟩, .ret _⟩)

end Connect

end MoonS7
