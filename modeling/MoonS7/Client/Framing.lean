import MoonS7.Client.Setup
import MoonS7.Transport.Wire

/-!
# Frame boundaries over the runs of a client

A send or a receive whose timer runs out leaves a frame half written or half read, and the client
goes on with the next request on the same connection.

Main result: `framing_iff` -- in every run in which no call follows one that was cut inside a frame
in its direction, each frame returned is a whole frame of the PLC, and the PLC gets whole frames
and the beginning of at most one more; and a call that follows such a cut and succeeds breaks this.
`framing_refuted` is a request written behind one byte of the request before it.
-/

namespace MoonS7

open Interaction Port Streams

/-! ## 1. Runs -/

/-- A wire, and the frames that have been returned, each with the place in the PLC's stream where
    its read began. -/
structure Traffic where
  wire : Wire
  got : List (Nat × Frame)

/-- What a call adds to the frames returned. -/
def returned (n : Nat) : (c : Call Frame) → Reply Frame Frame S7Error c → List (Nat × Frame)
  | .receive, .ok f => [(n, f)]
  | .receive, .error _ => []
  | .send _, _ => []

/-- One call of a client on its connection. -/
def trafficStep (cl : S7Client) (c : Call Frame) (T : Traffic) (r : Reply Frame Frame S7Error c)
    (T' : Traffic) : Prop :=
  Exec sockStep (transport cl.tcp cl.pduSize c).run T.wire (.ok r) T'.wire ∧
    T'.got = T.got ++ returned T.wire.pos c r

/-- **A program on the client's socket** takes the steps of its calls. -/
theorem exec_onSocket_iff {cl : S7Client} {α : Type} {p : Client α} {W W' : Wire} {x : S7Result α}
    (got : List (Nat × Frame)) :
    Exec sockStep (cl.onSocket p).run W (.ok x) W' ↔
      ∃ got', Exec (trafficStep cl) p.run ⟨W, got⟩ x ⟨W', got'⟩ := by
  rw [S7Client.onSocket, exec_interp_iff]
  constructor
  · intro h
    generalize p.run = t at h
    induction h generalizing got with
    | ret a W => exact ⟨got, .ret _ _⟩
    | @ask c k W W₁ W₂ r a hs _ ih =>
      obtain ⟨got', hk⟩ := ih (got ++ returned W.pos c r)
      have hstep : trafficStep cl c ⟨W, got⟩ r ⟨W₁, got ++ returned W.pos c r⟩ := ⟨hs, rfl⟩
      exact ⟨got', .ask hstep hk⟩
  · rintro ⟨got', h⟩
    generalize p.run = t at h
    generalize hT : (⟨W, got⟩ : Traffic) = T at h
    generalize hT' : (⟨W', got'⟩ : Traffic) = T' at h
    induction h generalizing W got with
    | ret a T =>
      cases hT
      cases hT'
      exact .ret _ _
    | @ask c k T T₁ T₂ r a hs _ ih =>
      cases hT
      exact .ask hs.1 (ih T₁.got rfl hT')

/-- The states of a connection, from the `connect` that opened it on, with every call made where
    `ok` allows it. -/
inductive Reached (ok : Call Frame → Wire → Prop) (cl : S7Client) : Traffic → Prop where
  | connected {cl₀ : S7Client} {sock : Socket} {cc st : Frame} {tr : List SockEvent} {W : Wire}
      (hf : Follows cl₀.connect.run
        (⟨.connectToHost cl₀.tcp.config.host cl₀.tcp.config.port, .value sock⟩ :: tr) (.ok (.ok cl)))
      (hn : Negotiates cl₀.tcp.localTsap cl₀.tcp.remoteTsap sock cc st tr)
      (hp : Path sockStep Wire.new
        (⟨.connectToHost cl₀.tcp.config.host cl₀.tcp.config.port, .value sock⟩ :: tr) W) :
      Reached ok cl ⟨W, [(0, cc), (cc.length, st)]⟩
  | op {α : Type} {p : Client α} {T T' : Traffic} {x : S7Result α} (h : Reached ok cl T)
      (hx : Exec (fun c T r T' => ok c T.wire ∧ trafficStep cl c T r T') p.run T x T') :
      Reached ok cl T'

/-- Every run of a program on the socket is among them. -/
theorem Reached.onSocket {cl : S7Client} {T : Traffic} (h : Reached (fun _ _ => True) cl T) {α : Type}
    {p : Client α} {x : S7Result α} {W' : Wire}
    (hx : Exec sockStep (cl.onSocket p).run T.wire (.ok x) W') :
    ∃ got', Reached (fun _ _ => True) cl ⟨W', got'⟩ := by
  obtain ⟨got', hx⟩ := (exec_onSocket_iff T.got).mp hx
  exact ⟨got', h.op (hx.mono fun _ _ _ _ hs => ⟨trivial, hs⟩)⟩

/-- Each frame returned is a whole frame of the PLC, read from its first byte on, and what has been
    written is whole frames with at most one cut at the end. -/
structure Framed (T : Traffic) : Prop where
  inbound : ∀ e ∈ T.got, ∃ i, e.1 = boundary T.wire.sent i ∧ T.wire.sent[i]? = some e.2
  outbound : Clean T.wire.out

/-- No earlier call in the direction of `c` was cut inside a frame, or the direction is closed. -/
def Uncut : Call Frame → Wire → Prop
  | .send _, W => (∀ e ∈ W.out, Whole e) ∨ W.outClosed = true
  | .receive, W => AtBoundary W.sent W.pos ∨ W.inClosed = true

/-! ## 2. One call -/

section Step

variable {cl : S7Client} {sock : Socket} (ho : cl.tcp.Open sock) {T T' : Traffic}

include ho

/-- A send writes a part of its frame. -/
theorem send_traffic {q : Frame} {r : Except S7Error Unit} (h : trafficStep cl (.send q) T r T') :
    T'.got = T.got ∧ ∃ k, Writes q k T.wire T'.wire ∧ (r = .ok () → k = q.length) ∧
      ((∀ m, r ≠ .error (.timeout m)) → k = q.length ∨ T'.wire.outClosed = true) := by
  obtain ⟨hx, hg⟩ := h
  obtain ⟨tr, hf, hp⟩ := exec_iff_path.mp hx
  obtain ⟨a, rfl, ha⟩ := (follows_send_transport_iff ho).mp hf
  obtain ⟨W₁, hs, hp⟩ := path_cons_iff.mp hp
  cases hp
  cases ha
  obtain ⟨k, hw, hok, hcut⟩ := write_step hs
  refine ⟨hg.trans (List.append_nil _), k, hw, fun h => hok ?_, fun h => hcut ?_⟩
  · cases a with
    | value u => rfl
    | raised m => cases h
    | expired => cases h
  · rintro rfl
    exact h _ rfl

/-- A receive reads a frame, or a part of one. -/
theorem receive_traffic {r : Except S7Error Frame} (h : trafficStep cl .receive T r T') :
    ∃ tr y, TpktRead sock tr y ∧ Path sockStep T.wire tr T'.wire ∧ r = receiveResult y ∧
      T'.got = T.got ++ returned T.wire.pos .receive r := by
  obtain ⟨hx, hg⟩ := h
  obtain ⟨tr, hf, hp⟩ := exec_iff_path.mp hx
  obtain ⟨y, hr, hy⟩ := (follows_receive_transport_iff ho).mp hf
  exact ⟨tr, y, hr, hp, Except.ok.inj hy, hg⟩

end Step

theorem receiveResult_ok {y : Except Interrupt (Except S7Error Frame)} {f : Frame}
    (h : receiveResult y = .ok f) : y = .ok (.ok f) := by
  cases y with
  | error i => cases h
  | ok r => exact congrArg _ h

/-- Frames returned stay frames of the PLC when it sends more. -/
theorem Framed.grows {W W' : Wire} {got : List (Nat × Frame)} (hg : Grows W W')
    (h : ∀ e ∈ got, ∃ i, e.1 = boundary W.sent i ∧ W.sent[i]? = some e.2) :
    ∀ e ∈ got, ∃ i, e.1 = boundary W'.sent i ∧ W'.sent[i]? = some e.2 := by
  intro e he
  obtain ⟨⟨fs, -, hs⟩, -⟩ := hg
  obtain ⟨i, hi, hget⟩ := h e he
  have hlt := (List.getElem?_eq_some_iff.mp hget).1
  refine ⟨i, ?_, ?_⟩
  · rw [hs, boundary_append (Nat.le_of_lt hlt), hi]
  · rw [hs, List.getElem?_append_left hlt, hget]

/-- The PLC's frames are frames, no more of them is read than there is, and the traffic is
    framed. -/
structure Inv (T : Traffic) : Prop where
  frames : ∀ f ∈ T.wire.sent, TpktFrame f
  pos : T.wire.pos ≤ T.wire.sent.flatten.length
  framed : Framed T

/-- **A call that no cut precedes** keeps the traffic framed. -/
theorem inv_step {cl : S7Client} {sock : Socket} (ho : cl.tcp.Open sock) {T T' : Traffic}
    (hT : Inv T) {c : Call Frame} {r : Reply Frame Frame S7Error c} (h : trafficStep cl c T r T')
    (hu : Uncut c T.wire) : Inv T' := by
  have hpos : T'.wire.pos ≤ T'.wire.sent.flatten.length :=
    h.1.invariant (fun _ _ _ _ hW hs => sockStep_pos hs hW) hT.pos
  cases c with
  | send q =>
    obtain ⟨hgot, k, hw, -, -⟩ := send_traffic ho h
    refine ⟨hw.grows.all hT.frames, hpos, ?_, ?_⟩
    · rw [hgot]
      exact Framed.grows hw.grows hT.framed.inbound
    · rw [hw.out]
      rcases hu with hu | hc
      · exact .of_whole hu _
      · exact hT.framed.outbound.silent (hw.silent hc)
  | receive =>
    obtain ⟨tr, y, hr, hp, rfl, hgot⟩ := receive_traffic ho h
    obtain ⟨hg, hout⟩ := hr.grows hp
    refine ⟨hg.all hT.frames, hpos, ?_, by rw [hout]; exact hT.framed.outbound⟩
    have hold := Framed.grows hg hT.framed.inbound
    cases hy : receiveResult y with
    | error e =>
      rw [hgot, hy, returned, List.append_nil]
      exact hold
    | ok f =>
      cases receiveResult_ok hy
      rw [hgot, hy, returned]
      intro e he
      rcases List.mem_append.mp he with he | he
      · exact hold e he
      · cases List.mem_singleton.mp he
        rcases hu with hb | hc
        · exact ((hr.at_boundary hp hT.frames hb).1 f rfl).1
        · cases (hr.taken hp).1.symm.trans hc

/-- The timer of the call has run out. -/
def TimedOut : (c : Call Frame) → Reply Frame Frame S7Error c → Prop
  | .send _, r => ∃ m, r = (.error (.timeout m) : Except S7Error Unit)
  | .receive, r => ∃ m, r = (.error (.timeout m) : Except S7Error Frame)

/-- A call whose timer does not run out leaves no cut behind. -/
theorem uncut_step {cl : S7Client} {sock : Socket} (ho : cl.tcp.Open sock) {T T' : Traffic}
    (hT : Inv T) {c : Call Frame} {r : Reply Frame Frame S7Error c} (h : trafficStep cl c T r T')
    (hr : ¬ TimedOut c r) {c' : Call Frame} (hu : Uncut c' T.wire) : Uncut c' T'.wire := by
  cases c with
  | send q =>
    obtain ⟨-, k, hw, -, hcut⟩ := send_traffic ho h
    cases c' with
    | receive =>
      refine hu.imp (fun hb => ?_) hw.grows.inClosed
      rw [hw.pos]
      exact hw.grows.atBoundary hb
    | send q' =>
      rcases hu with hu | hc
      · refine (hcut fun m hm => hr ⟨m, hm⟩).imp (fun hk e he => ?_) id
        rw [hw.out] at he
        rcases List.mem_append.mp he with he | he
        · exact hu e he
        · cases List.mem_singleton.mp he
          exact Or.inr hk
      · exact Or.inr (hw.grows.outClosed hc)
  | receive =>
    obtain ⟨tr, y, hread, hp, rfl, -⟩ := receive_traffic ho h
    obtain ⟨hg, hout⟩ := hread.grows hp
    cases c' with
    | send q' =>
      refine hu.imp (fun hw => ?_) hg.outClosed
      rw [hout]
      exact hw
    | receive =>
      rcases hu with hb | hc
      · refine (hread.at_boundary hp hT.frames hb).2 ?_
        rintro rfl
        exact hr ⟨_, rfl⟩
      · exact Or.inr (hg.inClosed hc)

/-- A send that succeeds behind a cut breaks the framing. -/
theorem framed_send_iff {cl : S7Client} {sock : Socket} (ho : cl.tcp.Open sock) {T T' : Traffic}
    (hT : Inv T) {q : Frame} (hq : q ≠ []) (h : trafficStep cl (.send q) T (.ok ()) T') :
    Framed T' ↔ Uncut (.send q) T.wire := by
  refine ⟨fun hf => Or.inl ?_, fun hu => (inv_step ho hT h hu).framed⟩
  obtain ⟨-, k, hw, hok, -⟩ := send_traffic ho h
  have hclean := hf.outbound
  rw [hw.out, hok rfl] at hclean
  exact hclean.whole fun h0 => hq (List.length_eq_zero_iff.mp h0)

/-- So does a receive. -/
theorem framed_receive_iff {cl : S7Client} {sock : Socket} (ho : cl.tcp.Open sock) {T T' : Traffic}
    (hT : Inv T) {f : Frame} (h : trafficStep cl .receive T (.ok f) T') :
    Framed T' ↔ Uncut .receive T.wire := by
  refine ⟨fun hf => Or.inl ?_, fun hu => (inv_step ho hT h hu).framed⟩
  obtain ⟨tr, y, hr, hp, -, hgot⟩ := receive_traffic ho h
  obtain ⟨⟨fs, -, hs⟩, -⟩ := (hr.grows hp).1
  obtain ⟨i, hi, -⟩ := hf.inbound (T.wire.pos, f) (by rw [hgot, returned]; simp)
  rw [hs] at hi
  exact .of_append hT.pos hi

/-! ## 3. Whole runs -/

/-- A wire no call on which was cut. -/
structure Ready (W : Wire) : Prop where
  frames : ∀ f ∈ W.sent, TpktFrame f
  pos : W.pos ≤ W.sent.flatten.length
  out : ∀ e ∈ W.out, Whole e
  aligned : AtBoundary W.sent W.pos

theorem Ready.write {sock : Socket} {q : Frame} {W W' : Wire} (h : Ready W)
    (hs : sockStep (.write sock q) W (.value () : Await Unit) W') : Ready W' ∧ Grows W W' := by
  obtain ⟨k, hw, hok, -⟩ := write_step hs
  refine ⟨⟨hw.grows.all h.frames, sockStep_pos hs h.pos, fun e he => ?_, ?_⟩, hw.grows⟩
  · rw [hw.out] at he
    rcases List.mem_append.mp he with he | he
    · exact h.out e he
    · cases List.mem_singleton.mp he
      exact Or.inr (hok rfl)
  · rw [hw.pos]
    exact hw.grows.atBoundary h.aligned

theorem Ready.read {sock : Socket} {f : Frame} {tr : List SockEvent} {W W' : Wire} (h : Ready W)
    (hr : TpktRead sock tr (.ok (.ok f))) (hp : Path sockStep W tr W') :
    Ready W' ∧ Grows W W' ∧ W'.pos = W.pos + f.length ∧
      ∃ i, W.pos = boundary W'.sent i ∧ W'.sent[i]? = some f := by
  obtain ⟨hg, hout⟩ := hr.grows hp
  obtain ⟨hi, hb⟩ := (hr.at_boundary hp h.frames h.aligned).1 f rfl
  obtain ⟨-, hpos, hv⟩ := hr.taken hp
  refine ⟨⟨hg.all h.frames, ?_, by rw [hout]; exact h.out, hb⟩, hg, hpos, hi⟩
  obtain ⟨j, hj, hjb⟩ := hb
  rw [hjb, ← boundary_length]
  exact boundary_mono hj

/-- **A connection that was just opened** has no cut: the negotiation has read two whole frames. -/
theorem inv_connected {localTsap remoteTsap : List UInt8} {host : String} {port : Int32}
    {sock : Socket} {cc st : Frame} {tr : List SockEvent} {W : Wire}
    (hn : Negotiates localTsap remoteTsap sock cc st tr)
    (hp : Path sockStep Wire.new (⟨.connectToHost host port, .value sock⟩ :: tr) W) :
    Ready W ∧ Inv ⟨W, [(0, cc), (cc.length, st)]⟩ := by
  obtain ⟨tr₁, tr₂, hcc, hst, rfl⟩ := hn
  obtain ⟨W₀, ⟨fs, hfs, hs⟩, hp⟩ := path_cons_iff.mp hp
  obtain ⟨W₁, hcr, hp⟩ := path_cons_iff.mp hp
  obtain ⟨W₂, hp₁, hp⟩ := path_append_iff.mp hp
  obtain ⟨W₃, hjob, hp₂⟩ := path_cons_iff.mp hp
  have h₀ : Ready W₀ ∧ W₀.pos = 0 := by
    cases hs with
    | connect => exact ⟨⟨by simpa [Wire.new] using hfs, Nat.zero_le _, by simp [Wire.new], .zero⟩, rfl⟩
  obtain ⟨h₁, -⟩ := h₀.1.write hcr
  obtain ⟨h₂, -, hpos₂, i, hi, hgi⟩ := h₁.read hcc hp₁
  obtain ⟨h₃, hg₃⟩ := h₂.write hjob
  obtain ⟨h₄, hg₄, -, j, hj, hgj⟩ := h₃.read hst hp₂
  have hpos : W₁.pos = 0 ∧ W₃.pos = W₂.pos := by
    obtain ⟨k, hw, -⟩ := write_step hcr
    obtain ⟨k', hw', -⟩ := write_step hjob
    exact ⟨hw.pos.trans h₀.2, hw'.pos⟩
  refine ⟨h₄, h₄.frames, h₄.pos, ?_, ?_⟩
  · have hcc₂ : ∀ e ∈ [(0, cc)], ∃ i, e.1 = boundary W₂.sent i ∧ W₂.sent[i]? = some e.2 := by
      intro e he
      cases List.mem_singleton.mp he
      exact ⟨i, by rw [← hi, hpos.1], hgi⟩
    intro e he
    rcases List.mem_cons.mp he with rfl | he
    · exact Framed.grows (hg₃.trans hg₄) hcc₂ _ List.mem_cons_self
    · cases List.mem_singleton.mp he
      exact ⟨j, by rw [← hj, hpos.2, hpos₂, hpos.1, Nat.zero_add], hgj⟩
  · rw [← List.append_nil W.out]
    exact ⟨W.out, [], rfl, h₄.out, by simp⟩

/-- A client that has been connected has a socket. -/
theorem open_of_connect {cl₀ cl : S7Client} {tr : List SockEvent}
    (hf : Follows cl₀.connect.run tr (.ok (.ok cl))) : ∃ sock, cl.tcp.Open sock := by
  obtain ⟨-, -, sock, cc, st, ps, tr', -, -, -, -, rfl⟩ := follows_connect_ok_iff.mp hf
  exact ⟨sock, rfl, rfl⟩

/-- **What holds in every state** of a run in which no call follows a cut. -/
theorem inv_reached {cl : S7Client} {T : Traffic} (h : Reached Uncut cl T) :
    Inv T ∧ ∃ sock, cl.tcp.Open sock := by
  induction h with
  | connected hf hn hp => exact ⟨(inv_connected hn hp).2, open_of_connect hf⟩
  | op _ hx ih =>
    obtain ⟨hT, sock, ho⟩ := ih
    exact ⟨Exec.invariant (I := Inv) (fun _ _ _ _ hT hs => inv_step ho hT hs.2 hs.1) hx hT, sock, ho⟩

/-- **Frame boundaries.** In every run in which no call follows one that was cut inside a frame in
    its direction, the frames are whole; a call that does and succeeds breaks this; and calls whose
    timers do not run out leave no cut. -/
theorem framing_iff {cl : S7Client} {T : Traffic} (h : Reached Uncut cl T) :
    Framed T ∧
    (∃ (qs : List Frame) (part : List UInt8), qs.Sublist (T.wire.out.map Prod.fst) ∧
      stream T.wire.out = qs.flatten ++ part ∧ (part = [] ∨ ∃ e ∈ T.wire.out, part <+: e.1)) ∧
    (∀ (q : Frame) (T' : Traffic), q ≠ [] → trafficStep cl (.send q) T (.ok ()) T' →
      (Framed T' ↔ Uncut (.send q) T.wire)) ∧
    (∀ (f : Frame) (T' : Traffic), trafficStep cl .receive T (.ok f) T' →
      (Framed T' ↔ Uncut .receive T.wire)) ∧
    (∀ (c c' : Call Frame) (r : Reply Frame Frame S7Error c) (T' : Traffic),
      trafficStep cl c T r T' → ¬ TimedOut c r → Uncut c' T.wire → Uncut c' T'.wire) := by
  obtain ⟨hT, sock, ho⟩ := inv_reached h
  exact ⟨hT.framed, hT.framed.outbound.stream, fun _ _ hq hs => framed_send_iff ho hT hq hs,
    fun _ _ hs => framed_receive_iff ho hT hs, fun _ _ _ _ hs hr hu => uncut_step ho hT hs hr hu⟩

/-! ## 4. A request behind a cut one -/

section Calls

variable {cl : S7Client} {sock : Socket} (ho : cl.tcp.Open sock) {T : Traffic}

include ho

theorem trafficStep_send (hc : T.wire.outClosed = false) (q : Frame) :
    trafficStep cl (.send q) T (Except.ok () : Except S7Error Unit)
      ⟨{ T.wire with out := T.wire.out ++ [(q, q.length)] }, T.got⟩ :=
  ⟨exec_iff_path.mpr ⟨_, (follows_send_transport_iff ho).mpr ⟨.value (), rfl, rfl⟩,
    .cons (sockStep_of (.write sock q hc)) (.nil _)⟩, (List.append_nil _).symm⟩

/-- The timer of a send runs out after `k` bytes. -/
theorem trafficStep_cut (hc : T.wire.outClosed = false) {q : Frame} {k : Nat} (hk : k ≤ q.length) :
    trafficStep cl (.send q) T (Except.error (.timeout "write timeout") : Except S7Error Unit)
      ⟨{ T.wire with out := T.wire.out ++ [(q, k)] }, T.got⟩ :=
  ⟨exec_iff_path.mpr ⟨_, (follows_send_transport_iff ho).mpr ⟨.expired, rfl, rfl⟩,
    .cons (sockStep_of (.writeExpired sock q hc hk)) (.nil _)⟩, (List.append_nil _).symm⟩

/-- The timer of a receive runs out before the first byte. -/
theorem trafficStep_unanswered (hc : T.wire.inClosed = false) :
    trafficStep cl .receive T (Except.error (.timeout "read timeout") : Except S7Error Frame) T :=
  ⟨exec_iff_path.mpr ⟨_, (follows_receive_transport_iff ho).mpr ⟨_, .headerExpired, rfl⟩,
    .cons (sockStep_of (.readExpired sock (k := 0) hc (Nat.zero_le _) (Nat.zero_le _))) (.nil _)⟩,
    (List.append_nil _).symm⟩

end Calls

/-- A client that has been granted 480 bytes, the wire behind its `connect`, and its request for
    two bytes of flags. -/
def grantedClient : S7Client where
  tcp := S7Client.new.tcp.opened ⟨0⟩ 480
  connected := true
  pduRef := 3
  pduSize := 480

def granted : Frame := setupReply 1 0 8 8 480 [0]

def connectedWire : Wire where
  out := [(buildCotpCr [0x01, 0x00] [0x01, 0x01], 22), (buildSetupPdu 1 1 1, 25)]
  sent := [confirmFrame, granted]
  pos := 35
  outClosed := false
  inClosed := false

def askFlags : Frame := readFrame .flags 0 2 3

theorem reached_connected (ok : Call Frame → Wire → Prop) :
    Reached ok grantedClient ⟨connectedWire, [(0, confirmFrame), (7, granted)]⟩ := by
  have hgranted : TpktFrame granted := tpktFrame_setupReply 1 0 8 8 480 [0] (by decide)
  obtain ⟨tr₁, h₁, hp₁⟩ := exists_path_tpktRead ⟨0⟩ tpktFrame_confirmFrame
    (W := ⟨[(buildCotpCr [0x01, 0x00] [0x01, 0x01], 22)], [confirmFrame, granted], 0, false,
      false⟩) rfl
    ⟨granted, rfl⟩
  obtain ⟨tr₂, h₂, hp₂⟩ := exists_path_tpktRead ⟨0⟩ hgranted
    (W := { connectedWire with pos := 7 }) rfl ⟨[], rfl⟩
  have hn : Negotiates [0x01, 0x00] [0x01, 0x01] ⟨0⟩ confirmFrame granted _ :=
    ⟨tr₁, tr₂, h₁, h₂, rfl⟩
  have hf := follows_connect_ok_iff.mpr (show S7Client.new.connected = false ∧ _ from
    ⟨rfl, rfl, ⟨0⟩, confirmFrame, granted, 480, _, rfl, hn, ⟨1024, by decide⟩,
      parseSetupResp_setupReply 1 0 8 8 480 [0], rfl⟩)
  refine .connected hf hn (.cons ⟨[confirmFrame, granted], ?_, .connect _ _ _ _⟩
    (.cons (sockStep_of (.write _ _ rfl)) (path_append_iff.mpr
      ⟨_, hp₁, .cons (sockStep_of (.write _ _ rfl)) hp₂⟩)))
  intro f hf
  rcases List.mem_cons.mp hf with rfl | hf
  · exact tpktFrame_confirmFrame
  · cases List.mem_singleton.mp hf
    exact hgranted

theorem follows_askFlags {tr : List (Event Frame Frame S7Error)} {d : Stop}
    (h : Session Stop.err readCheck [.ok askFlags] tr (.error d)) :
    Follows (grantedClient.mbRead 0 2).run tr (.error d) := by
  have hreqs : readReqs grantedClient .flags 0 2 = [.ok askFlags] :=
    readReqs_one (by decide) (by decide)
  rw [S7Client.mbRead, chunkedRead_eq rfl, hreqs]
  exact follows_ofResult_iff.mpr ⟨_, follows_session_iff.mpr h, rfl⟩

/-- After one byte of a request, and after the request that was made behind it. -/
def cutTraffic (out : List (Frame × Nat)) : Traffic :=
  ⟨{ connectedWire with out := connectedWire.out ++ out }, [(0, confirmFrame), (7, granted)]⟩

theorem reached_cut :
    Reached (fun _ _ => True) grantedClient
      (cutTraffic [(askFlags, 1), (askFlags, askFlags.length)]) := by
  have ho : grantedClient.tcp.Open ⟨0⟩ := ⟨rfl, rfl⟩
  have h₀ : Reached (fun _ _ => True) grantedClient (cutTraffic []) := reached_connected _
  have h₁ : Reached (fun _ _ => True) grantedClient (cutTraffic [(askFlags, 1)]) := by
    refine h₀.op (exec_iff_path.mpr ⟨_, follows_askFlags (.unsent askFlags [] (.timeout "write timeout")),
      .cons ⟨trivial, ?_⟩ (.nil _)⟩)
    exact trafficStep_cut ho (T := cutTraffic []) rfl (by decide)
  exact h₁.op (exec_iff_path.mpr
    ⟨_, follows_askFlags (.unanswered askFlags [] (.timeout "read timeout")),
      .cons ⟨trivial, trafficStep_send ho (T := cutTraffic [(askFlags, 1)]) rfl askFlags⟩
        (.cons ⟨trivial, trafficStep_unanswered ho rfl⟩ (.nil _))⟩)

/-- A read whose request is written, and whose reply does not come in time: no byte of it is read. -/
theorem reached_unanswered {out : List (Frame × Nat)}
    (h : Reached Uncut grantedClient (cutTraffic out)) (hout : ∀ e ∈ out, Whole e) :
    Reached Uncut grantedClient (cutTraffic (out ++ [(askFlags, askFlags.length)])) := by
  have ho : grantedClient.tcp.Open ⟨0⟩ := ⟨rfl, rfl⟩
  have hsend : Uncut (.send askFlags) (cutTraffic out).wire := by
    refine Or.inl fun e he => ?_
    rcases List.mem_append.mp he with he | he
    · have hwhole : ∀ e ∈ connectedWire.out, e.2 = e.1.length := by decide
      exact Or.inr (hwhole e he)
    · exact hout e he
  have hreceive : Uncut .receive (cutTraffic (out ++ [(askFlags, askFlags.length)])).wire :=
    Or.inl ⟨2, Nat.le_refl 2, show 35 = boundary [confirmFrame, granted] 2 by decide⟩
  have hwire : cutTraffic (out ++ [(askFlags, askFlags.length)]) =
      ⟨{ (cutTraffic out).wire with out := (cutTraffic out).wire.out ++ [(askFlags, askFlags.length)] },
        (cutTraffic out).got⟩ := by
    simp only [cutTraffic, List.append_assoc]
  have hwritten := trafficStep_send ho (T := cutTraffic out) rfl askFlags
  rw [← hwire] at hwritten
  exact h.op (exec_iff_path.mpr
    ⟨_, follows_askFlags (.unanswered askFlags [] (.timeout "read timeout")),
      .cons ⟨hsend, hwritten⟩ (.cons ⟨hreceive, trafficStep_unanswered ho rfl⟩ (.nil _))⟩)

/-- Two reads are not answered in time, the second one behind the first; a third one is made. -/
theorem framing_unanswered :
    Framed (cutTraffic [(askFlags, askFlags.length), (askFlags, askFlags.length)]) ∧
      (Framed (cutTraffic [(askFlags, askFlags.length), (askFlags, askFlags.length),
          (askFlags, askFlags.length)]) ↔
        Uncut (.send askFlags)
          (cutTraffic [(askFlags, askFlags.length), (askFlags, askFlags.length)]).wire) := by
  have h₁ : Reached Uncut grantedClient (cutTraffic [(askFlags, askFlags.length)]) :=
    @reached_unanswered [] (reached_connected _) (by simp)
  have h₂ := reached_unanswered h₁ (by simp [Whole])
  exact ⟨(framing_iff h₂).1,
    (framing_iff h₂).2.2.1 askFlags _ (by decide) (trafficStep_send ⟨rfl, rfl⟩ rfl askFlags)⟩

/-- **A request behind a cut one**: the timer of a read runs out when one byte of its request has
    been written, and the next read writes all of its own. -/
theorem framing_refuted :
    ¬ ∀ (cl : S7Client) (T : Traffic), Reached (fun _ _ => True) cl T → Framed T := by
  intro h
  have hclean : Clean ((connectedWire.out ++ [(askFlags, 1)]) ++ [(askFlags, askFlags.length)]) :=
    (h _ _ reached_cut).outbound
  rcases hclean.whole (by decide) (askFlags, 1) (by simp) with h0 | hall
  · cases h0
  · revert hall
    decide

end MoonS7
