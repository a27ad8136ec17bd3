import MoonS7.Client.Operations
import MoonS7.Client.Setup
import MoonS7.Protocol.ConnectionConfirm

/-!
# The life cycle of a connection

A program makes clients, connects and disconnects them and calls operations on them, in any order.
Clients are immutable records: `connect` returns a new one, `disconnect` closes the socket and
leaves the record as it is. So the flag `connected` of a client says how it was made, and not
whether it was disconnected since.

Main results: `ran_inv`, what the flags of the clients of any run are; `lifeCycle_iff` -- flag,
operations and `connect` follow the life cycle in a state of a run exactly if no
`disconnect` was called on a client that `connect` returned. `lifeCycle_refuted` is the run that
connects, disconnects, and finds the client connected.
-/

namespace MoonS7

open Interaction Port

/-! ## 1. How a connect fails -/

/-- The errors of a negotiation: never an abort, and never that there is a connection already. -/
def ConnectError (d : Stop) : Prop := d ≠ .abort ∧ d ≠ .err .alreadyConnected

/-- A result whose failure is a `ConnectError`. -/
def FailsWell {α : Type} (x : Except Interrupt (S7Result α)) : Prop :=
  ∀ d, x = .ok (.error d) → ConnectError d

section ConnectErrors

variable {α : Type}

theorem failsWell_ok (a : α) : FailsWell (.ok (.ok a)) := nofun

theorem failsWell_interrupt (i : Interrupt) : FailsWell (.error i : Except Interrupt (S7Result α)) :=
  nofun

theorem failsWell_err {e : S7Error} (h : e ≠ .alreadyConnected) :
    FailsWell (.ok (err e) : Except Interrupt (S7Result α)) := by
  intro d hd
  cases hd
  exact ⟨nofun, fun h' => h (Stop.err.inj h')⟩

/-- The errors of the calls to the socket. -/
def CallFailsWell (x : Except Interrupt (Except S7Error α)) : Prop :=
  ∀ e, x = .ok (.error e) → e ≠ .alreadyConnected

theorem yields_writeAll (sock : Socket) (data : List UInt8) :
    Yields CallFailsWell (writeAll sock data).run := by
  intro tr x hf e he
  obtain ⟨r, -, rfl⟩ := follows_writeAll_iff.mp hf
  cases r with
  | value u => cases he
  | raised m =>
    cases he
    nofun
  | expired => cases he

theorem yields_readTpkt (sock : Socket) : Yields CallFailsWell (readTpkt sock).run := by
  intro tr x hf e he
  have hr := follows_readTpkt_iff.mp hf
  cases hr <;> cases he <;> nofun

theorem parseCotpCc_error {data : List UInt8} {d : Stop} (h : parseCotpCc data = .error d) :
    ConnectError d := by
  rcases parseCotpCc_cases data with ⟨-, he⟩ | ⟨-, m, he⟩
  · cases he.symm.trans h
  · cases he.symm.trans h
    exact ⟨nofun, nofun⟩

theorem parseSetupResp_error {data : List UInt8} {d : Stop} (h : parseSetupResp data = .error d) :
    ConnectError d := by
  by_cases hlen : data.length < 22
  · rw [parseSetupResp_short hlen] at h
    cases h
    exact ⟨nofun, nofun⟩
  · cases hs : findS7 data with
    | none =>
      unfold parseSetupResp at h
      rw [if_neg hlen, hs] at h
      cases h
      exact ⟨nofun, nofun⟩
    | some s7 =>
      rcases parseSetupResp_eq hs (by omega) with ⟨-, he⟩ | ⟨_, _, -, -, -, he⟩
      · rw [he] at h
        cases h
      · rw [he] at h
        cases h

/-- A call and then the rest, which goes on from `Ok` and hands on an error. -/
theorem yields_call {β : Type} {t : Task (Except S7Error α)} {F : Except S7Error α → Task (S7Result β)}
    (ht : Yields CallFailsWell t.run) (he : ∀ e, F (.error e) = return err e)
    (hF : ∀ a, Yields FailsWell (F (.ok a)).run) : Yields FailsWell (t >>= F).run := by
  refine Yields.op_bind ht (fun i _ => failsWell_interrupt i) fun r hr => ?_
  cases r with
  | ok a => exact hF a
  | error e =>
    rw [he]
    exact yields_ret (failsWell_err (hr e rfl))

theorem yields_negotiate (localTsap remoteTsap : List UInt8) (sock : Socket) :
    Yields FailsWell (negotiate localTsap remoteTsap sock).run := by
  unfold negotiate
  refine yields_call (yields_writeAll sock _) (fun _ => rfl) fun _ => ?_
  refine yields_call (yields_readTpkt sock) (fun _ => rfl) fun cc => ?_
  cases hcc : parseCotpCc cc with
  | error d =>
    simp only [hcc]
    refine yields_ret fun d' hd => ?_
    cases hd
    exact parseCotpCc_error hcc
  | ok n =>
    simp only [hcc]
    refine yields_call (yields_writeAll sock _) (fun _ => rfl) fun _ => ?_
    refine yields_call (yields_readTpkt sock) (fun _ => rfl) fun st => ?_
    refine yields_ret fun d' hd => ?_
    exact parseSetupResp_error (Except.ok.inj hd)

theorem yields_tcpConnect {self : TcpConnection} (hc : self.connected = false) :
    Yields FailsWell self.connect.run := by
  unfold TcpConnection.connect
  rw [if_neg (by rw [hc]; decide)]
  refine Yields.op_bind (Q := FailsWell) ?_ (fun i _ => failsWell_interrupt i) fun r hr => ?_
  · intro tr x hf
    obtain ⟨y, hy, rfl⟩ := follows_catchRaised_iff.mp hf
    obtain ⟨z, -, rfl⟩ := follows_return_iff.mp hy
    rcases z with (⟨m⟩ | _) | o
    · exact failsWell_err nofun
    · exact failsWell_interrupt _
    · exact failsWell_ok o
  · rcases r with d | _ | sock
    · refine yields_ret fun d' hd => ?_
      cases hd
      exact hr d rfl
    · exact yields_ret (failsWell_err nofun)
    · have hneg : Yields (fun o => ∀ r, o = .ok (some r) → FailsWell (.ok r))
          (withTimeoutOpt self.config.connectTimeout
            (negotiate self.localTsap self.remoteTsap sock)).run := by
        intro tr x hf
        obtain ⟨y, hy, rfl⟩ := follows_withTimeoutOpt_iff.mp hf
        have hw := yields_negotiate _ _ _ tr y hy
        intro r hr
        rcases y with (⟨m⟩ | _) | v
        · cases hr
        · cases hr
        · cases hr
          exact hw
      refine Yields.op_bind hneg (fun i _ => failsWell_interrupt i) fun o ho => ?_
      rcases o with _ | (e | _) | ps
      · intro tr x hf
        rw [follows_close_return hf]
        exact failsWell_err nofun
      · intro tr x hf
        rw [follows_close_return hf]
        exact failsWell_err fun h => (ho _ rfl (.err e) rfl).2 (by rw [h])
      · exact absurd rfl (ho _ rfl .abort rfl).1
      · exact yields_ret (failsWell_ok _)

/-- **How `connect` fails**: with an error of its own, if neither the client nor its connection says
    that it is connected. -/
theorem yields_connect {cl : S7Client} (hc : cl.connected = false) (ht : cl.tcp.connected = false) :
    Yields FailsWell cl.connect.run := by
  unfold S7Client.connect
  rw [if_neg (by rw [hc]; decide)]
  refine Yields.op_bind (yields_tcpConnect ht) (fun i _ => failsWell_interrupt i) fun r hr => ?_
  cases r with
  | error d =>
    refine yields_ret fun d' hd => ?_
    cases hd
    exact hr d rfl
  | ok tc => exact yields_ret (failsWell_ok _)

/-- `connect` never aborts. -/
theorem yields_connect_total (cl : S7Client) :
    Yields (fun x => x ≠ .ok (.error .abort)) cl.connect.run := by
  unfold S7Client.connect
  by_cases hc : cl.connected = true
  · rw [if_pos hc]
    exact yields_ret nofun
  · rw [if_neg hc]
    have htcp : Yields (fun x => x ≠ .ok (.error .abort)) cl.tcp.connect.run := by
      cases ht : cl.tcp.connected with
      | true =>
        unfold TcpConnection.connect
        rw [if_pos ht]
        exact yields_ret nofun
      | false => exact (yields_tcpConnect ht).mono fun x hx he => (hx .abort he).1 rfl
    refine Yields.op_bind htcp (fun i _ => nofun) fun r hr => ?_
    cases r with
    | error d =>
      refine yields_ret fun hd => hr ?_
      cases hd
      rfl
    | ok tc => exact yields_ret nofun

end ConnectErrors

/-! ## 2. Runs of a program -/

/-- A call of a program on the `i`th client it has. -/
inductive ApiCall where
  | new (c : TcpConfig)
  | connect (i : Nat)
  | disconnect (i : Nat)
  | operation (i : Nat) (o : Operation)

/-- A client a program has, and whether a `connect` returned it. -/
structure Held where
  cl : S7Client
  opened : Bool

/-- `Ran takes calls ks`: the program has made the calls `calls`, one after the other, with
    whatever replies from the socket library, and now has the clients `ks`. -/
inductive Ran (takes : Int32 → Bool) : List ApiCall → List Held → Prop where
  | start : Ran takes [] []
  | new {calls : List ApiCall} {ks : List Held} (h : Ran takes calls ks) (c : TcpConfig) :
      Ran takes (calls ++ [.new c]) (ks ++ [⟨S7Client.newWithConfig c, false⟩])
  | connect {calls : List ApiCall} {ks : List Held} {i : Nat} {k : Held} {tr : List SockEvent}
      {cl' : S7Client} (h : Ran takes calls ks) (hk : ks[i]? = some k)
      (hf : Follows k.cl.connect.run tr (.ok (.ok cl'))) :
      Ran takes (calls ++ [.connect i]) (ks ++ [⟨cl', true⟩])
  | connectFailed {calls : List ApiCall} {ks : List Held} {i : Nat} {k : Held} {tr : List SockEvent}
      {x : Except Interrupt (S7Result S7Client)} (h : Ran takes calls ks) (hk : ks[i]? = some k)
      (hf : Follows k.cl.connect.run tr x) (hx : ∀ cl', x ≠ .ok (.ok cl')) :
      Ran takes (calls ++ [.connect i]) ks
  | disconnect {calls : List ApiCall} {ks : List Held} {i : Nat} {k : Held} {tr : List SockEvent}
      {x : Except Interrupt Unit} (h : Ran takes calls ks) (hk : ks[i]? = some k)
      (hf : Follows k.cl.disconnect.run tr x) : Ran takes (calls ++ [.disconnect i]) ks
  | operation {calls : List ApiCall} {ks : List Held} {i : Nat} {k : Held} {tr : List SockEvent}
      (o : Operation) {x : Except Interrupt (S7Result o.Result)} (h : Ran takes calls ks)
      (hk : ks[i]? = some k) (hf : Follows (k.cl.onSocket (o.prog takes k.cl)).run tr x) :
      Ran takes (calls ++ [.operation i o]) ks

/-- The `i`th client was opened by a `connect`, and `disconnect` was not called on it since. -/
def Live (calls : List ApiCall) (i : Nat) (k : Held) : Prop :=
  k.opened = true ∧ ApiCall.disconnect i ∉ calls

/-- **The life cycle of the clients of a program**: the flag says which are connected, operations
    on the others return `NotConnected` without a call to the socket, and a client that was
    disconnected can be connected again. -/
structure LifeCycle (takes : Int32 → Bool) (calls : List ApiCall) (ks : List Held) : Prop where
  flag : ∀ i k, ks[i]? = some k → (k.cl.isConnected = true ↔ Live calls i k)
  refused : ∀ i k, ks[i]? = some k → ¬ Live calls i k → ∀ (o : Operation) tr x,
    Follows (k.cl.onSocket (o.prog takes k.cl)).run tr x → x = .ok (err .notConnected) ∧ tr = []
  reconnect : ∀ i k, ks[i]? = some k → ApiCall.disconnect i ∈ calls → ∀ tr x,
    Follows k.cl.connect.run tr x → x ≠ .ok (err .alreadyConnected)

/-! ## 3. The flags in a run -/

section Runs

variable {takes : Int32 → Bool} {calls : List ApiCall} {ks : List Held}

/-- The flag of a client says how it was made. -/
structure FlagInv (k : Held) : Prop where
  flag : k.cl.connected = k.opened
  tcp : k.opened = false → k.cl.tcp.connected = false

theorem flagInv_new (c : TcpConfig) : FlagInv ⟨S7Client.newWithConfig c, false⟩ :=
  ⟨rfl, fun _ => rfl⟩

theorem flagInv_connect {cl cl' : S7Client} {tr : List SockEvent}
    (hf : Follows cl.connect.run tr (.ok (.ok cl'))) : FlagInv ⟨cl', true⟩ := by
  obtain ⟨-, -, sock, cc, st, ps, tr', -, -, -, -, rfl⟩ := follows_connect_ok_iff.mp hf
  exact ⟨rfl, nofun⟩

/-- **The flags of the clients of any run.** Only `new` and `connect` make a client, and no call
    changes one. -/
theorem ran_inv (h : Ran takes calls ks) : ∀ k ∈ ks, FlagInv k := by
  induction h with
  | start => simp
  | new _ c ih =>
    intro k hk
    rcases List.mem_append.mp hk with hk | hk
    · exact ih k hk
    · cases List.mem_singleton.mp hk
      exact flagInv_new c
  | connect _ _ hf ih =>
    intro k hk
    rcases List.mem_append.mp hk with hk | hk
    · exact ih k hk
    · cases List.mem_singleton.mp hk
      exact flagInv_connect hf
  | connectFailed _ _ _ _ ih => exact ih
  | disconnect _ _ _ ih => exact ih
  | operation _ _ _ _ ih => exact ih

/-- A client that is not connected does nothing on its socket either. -/
theorem follows_onSocket_not_connected {cl : S7Client} (hc : cl.connected = false) (o : Operation)
    {tr : List SockEvent} {x : Except Interrupt (S7Result o.Result)}
    (hf : Follows (cl.onSocket (o.prog takes cl)).run tr x) :
    x = .ok (err .notConnected) ∧ tr = [] := by
  rw [Operation.prog_not_connected takes hc] at hf
  exact follows_ret_iff.mp hf

/-- **The life cycle is followed exactly if** no `disconnect` was called on a client that `connect`
    returned. -/
theorem lifeCycle_iff (takes : Int32 → Bool) (calls : List ApiCall) (ks : List Held)
    (h : Ran takes calls ks) :
    LifeCycle takes calls ks ↔
      ∀ i k, ks[i]? = some k → k.opened = true → ApiCall.disconnect i ∉ calls := by
  have hinv : ∀ i k, ks[i]? = some k → FlagInv k := fun i k hk =>
    ran_inv h k (List.mem_of_getElem? hk)
  constructor
  · intro hl i k hk ho
    have hflag : k.cl.isConnected = true := (hinv i k hk).flag.trans ho
    exact ((hl.flag i k hk).mp hflag).2
  · intro hno
    have hlive : ∀ i k, ks[i]? = some k → (k.opened = true ↔ Live calls i k) := fun i k hk =>
      ⟨fun ho => ⟨ho, hno i k hk ho⟩, fun hl => hl.1⟩
    refine ⟨fun i k hk => ?_, fun i k hk hn o tr x hf => ?_, fun i k hk hd tr x hf hx => ?_⟩
    · have hflag : k.cl.isConnected = k.opened := (hinv i k hk).flag
      rw [hflag]
      exact hlive i k hk
    · have ho : k.opened = false := Bool.eq_false_iff.mpr fun ho => hn ((hlive i k hk).mp ho)
      exact follows_onSocket_not_connected ((hinv i k hk).flag.trans ho) o hf
    · have ho : k.opened = false := Bool.eq_false_iff.mpr fun ho => hno i k hk ho hd
      have hw := yields_connect ((hinv i k hk).flag.trans ho) ((hinv i k hk).tcp ho) tr x hf
      exact (hw _ hx).2 rfl

/-- A program that connects a new client. -/
theorem ran_connect (takes : Int32 → Bool) :
    ∃ cl', Ran takes [.new {}, .connect 0] [⟨S7Client.new, false⟩, ⟨cl', true⟩] ∧
      cl'.connected = true ∧ cl'.tcp.Open ⟨0⟩ := by
  obtain ⟨tr₁, h₁⟩ := exists_tpktRead tpktFrame_confirmFrame ⟨0⟩
  obtain ⟨tr₂, h₂⟩ := exists_tpktRead (tpktFrame_setupReply 1 0 8 8 480 [] (by decide)) ⟨0⟩
  have hf := follows_connect_ok_iff.mpr (show S7Client.new.connected = false ∧ _ from
    ⟨rfl, rfl, ⟨0⟩, confirmFrame, _, _, _, rfl, ⟨tr₁, tr₂, h₁, h₂, rfl⟩, ⟨1024, by decide⟩,
      parseSetupResp_setupReply 1 0 8 8 480 [], rfl⟩)
  have hnew : Ran takes [.new {}] [⟨S7Client.new, false⟩] := .new .start {}
  exact ⟨_, .connect hnew rfl hf, rfl, rfl, rfl⟩

theorem lifeCycle_connected : ∃ cl', LifeCycle (fun _ => true) [.new {}, .connect 0]
    [⟨S7Client.new, false⟩, ⟨cl', true⟩] := by
  obtain ⟨cl', hr, -, -⟩ := ran_connect fun _ => true
  refine ⟨cl', (lifeCycle_iff _ _ _ hr).mpr fun i k _ _ hd => ?_⟩
  simp at hd

/-- What an operation on a client that was disconnected does: it writes to the closed socket. -/
theorem follows_plcStop_closed {cl : S7Client} (hc : cl.connected = true) {sock : Socket}
    (ho : cl.tcp.Open sock) (m : String) :
    Follows (cl.onSocket (Operation.plcStop.prog takes cl)).run
      [⟨.write sock (buildPlcStopPdu cl.pduRef), .raised m⟩]
      (.ok (err (.transportError ("Write failed: " ++ m)))) := by
  show Follows (interp _ (doCtrl cl (buildPlcStopPdu cl.pduRef) 0x29 0x07).run).run _ _
  unfold doCtrl
  rw [if_neg (by rw [hc]; decide)]
  exact follows_op_bind_iff.mpr (Or.inr ⟨_, [_], [], rfl,
    (follows_send_transport_iff ho).mpr ⟨.raised m, rfl, rfl⟩, .ret _⟩)

/-- A write of no bytes succeeds on any client with the flag. -/
theorem follows_agWrite_empty {cl : S7Client} (hc : cl.connected = true) :
    Follows (cl.onSocket ((Operation.agWrite 1 0 []).prog takes cl)).run [] (.ok (.ok ())) := by
  show Follows (interp _ (cl.agWrite 1 0 []).run).run _ _
  unfold S7Client.agWrite chunkedWrite
  rw [if_neg (by rw [hc]; decide), if_neg (by rw [hc]; decide), writeLoop]
  exact .ret _

/-- **A client that is connected after it was disconnected**: the flag is still set, a write of no
    bytes succeeds, an operation writes to the closed socket, and `connect` is refused. -/
theorem lifeCycle_refuted :
    ∃ (calls : List ApiCall) (ks : List Held) (k : Held),
      Ran (fun _ => true) calls ks ∧ ks[1]? = some k ∧ ApiCall.disconnect 1 ∈ calls ∧
      k.cl.isConnected = true ∧
      Follows (k.cl.onSocket ((Operation.agWrite 1 0 []).prog (fun _ => true) k.cl)).run []
        (.ok (.ok ())) ∧
      Follows (k.cl.onSocket (Operation.plcStop.prog (fun _ => true) k.cl)).run
        [⟨.write ⟨0⟩ (buildPlcStopPdu k.cl.pduRef), .raised "closed"⟩]
        (.ok (err (.transportError "Write failed: closed"))) ∧
      Follows k.cl.connect.run [] (.ok (err .alreadyConnected)) ∧
      ¬ LifeCycle (fun _ => true) calls ks := by
  obtain ⟨cl', hr, hc, ho⟩ := ran_connect fun _ => true
  have hclose : Follows cl'.disconnect.run [⟨.close ⟨0⟩, ()⟩] (.ok ()) := by
    unfold S7Client.disconnect TcpConnection.disconnect
    rw [if_pos hc, ho.2]
    exact .ask (.ret _)
  have hconnect : Follows cl'.connect.run [] (.ok (err .alreadyConnected)) := by
    unfold S7Client.connect
    rw [if_pos hc]
    exact .ret _
  refine ⟨_, _, ⟨cl', true⟩, .disconnect (i := 1) hr rfl hclose, rfl, by simp, hc,
    follows_agWrite_empty hc, follows_plcStop_closed hc ho "closed", hconnect, fun h => ?_⟩
  exact h.reconnect 1 _ rfl (by simp) _ _ hconnect rfl

end Runs

end MoonS7
