import MoonS7.Client.Lifecycle

/-!
# A connect that is cancelled

The task that calls `connect` can be cancelled from outside while one of its calls waits. The call
then raises an error, which `write_all` and `read_tpkt` catch like any other; but the
`with_timeout_opt` around them raises the cancellation again, whatever its block has returned.

A call can also return its value although its time was up, or its task cancelled, just before: a read
or a write pauses under a shield when it has succeeded, and `connect_to_host` returns the socket of
an attempt that was through. The block goes on with the value, but `with_timeout_opt` drops what the
block returns. A `connect_to_host` that returns no socket leaves none open.

`connectCancellable` is `TcpConnection.connect` over calls that may be cancelled; without a
cancellation the two are the same (`follows_connect_iff`).

Main results: `connectRun`, what a run of a `connect` is; `connect_closes_iff` -- a `connect` that
does not succeed has closed its socket exactly if it was not cancelled in the negotiation and no
socket came too late.
-/

namespace MoonS7

open Interaction

/-! ## 1. Calls that may be cancelled -/

/-- How a call that waits ends where the task may be cancelled: by itself, with the error that the
    cancellation raises, or with its value, but behind the cancellation or the timer. -/
inductive Outcome (α : Type) where
  | ended (r : Await α)
  | cancelled (m : String)
  | late (a : α) (i : Interrupt)

@[reducible] def CancelReply : SockCall → Type
  | .connectToHost _ _ => Outcome Socket
  | .write _ _ => Outcome Unit
  | .readExactly _ n => Outcome (Vector UInt8 n)
  | .close _ => Unit

abbrev CancelEvent : Type := Σ c : SockCall, CancelReply c

abbrev Cancellable (α : Type) : Type := Op SockCall CancelReply Interrupt α

/-- What the block that waits hears of it. -/
def Outcome.await {α : Type} : Outcome α → Await α
  | .ended r => r
  | .cancelled m => .raised m
  | .late a _ => .value a

/-- What the `with_timeout_opt` around the block learns besides. -/
def Outcome.interruption {α : Type} : Outcome α → List Interrupt
  | .ended _ => []
  | .cancelled m => [.raised m]
  | .late _ i => [i]

def await : (c : SockCall) → CancelReply c → SockReply c
  | .connectToHost _ _, r => Outcome.await r
  | .write _ _, r => Outcome.await r
  | .readExactly _ _, r => Outcome.await r
  | .close _, _ => ()

def interruption : (c : SockCall) → CancelReply c → List Interrupt
  | .connectToHost _ _, r => Outcome.interruption r
  | .write _ _, r => Outcome.interruption r
  | .readExactly _ _, r => Outcome.interruption r
  | .close _, _ => []

/-- The interruptions of a trace. -/
def interruptions (tr : List CancelEvent) : List Interrupt :=
  tr.flatMap fun ev => interruption ev.1 ev.2

/-- What a `with_timeout_opt` makes of how its block ends and of the interruptions meanwhile: the first
    of them decides. -/
def scopeEnd {α : Type} : Except Interrupt α × List Interrupt → Except Interrupt (Option α)
  | (y, []) => timed y
  | (_, .raised m :: _) => .error (.raised m)
  | (_, .expired :: _) => .ok none

/-- `with_timeout_opt(time, t)`. -/
def Cancellable.withTimeoutOpt {α : Type} (_time : Int32) (t : Task α) : Cancellable (Option α) :=
  ExceptT.mk (watch await interruption t.run >>= fun p => .ret (scopeEnd p))

/-- `try t catch { m => f(m) }`. -/
def Cancellable.catchRaised {α : Type} (t : Cancellable α) (f : String → α) : Cancellable α :=
  ExceptT.mk (t.run >>= fun y => .ret (caught f y))

def Socket.closeNow (tcp : Socket) : Cancellable Unit :=
  ExceptT.mk (.ask (.close tcp) fun (_ : Unit) => .ret (.ok ()))

/-- `TcpConnection::connect` in a task that may be cancelled. -/
def TcpConnection.connectCancellable (self : TcpConnection) :
    Cancellable (S7Result TcpConnection) := do
  if self.connected then return err .alreadyConnected
  else
    let cRes ← Cancellable.catchRaised
      (do return .ok (← Cancellable.withTimeoutOpt self.config.connectTimeout
        (Socket.connectToHost self.config.host self.config.port)))
      fun m => err (.connectionFailed ("connect to " ++ self.config.host ++ ":" ++
        toString self.config.port ++ ": " ++ m))
    match cRes with
    | .error e => return .error e
    | .ok none => return err .connectionTimeout
    | .ok (some sock) =>
      match ← Cancellable.withTimeoutOpt self.config.connectTimeout
          (negotiate self.localTsap self.remoteTsap sock) with
      | none => do
        sock.closeNow
        return err .connectionTimeout
      | some (.error .abort) => return .error .abort
      | some (.error (.err e)) => do
        sock.closeNow
        return err e
      | some (.ok ps) =>
        return .ok { self with connected := true, tcp := some sock, pduRef := 2, pduSize := ps }

section Calls

variable {tr : List CancelEvent}

theorem follows_scope_iff {α : Type} {t : Task α} {time : Int32}
    {x : Except Interrupt (Option α)} :
    Follows (Cancellable.withTimeoutOpt time t).run tr x ↔
      ∃ y, Follows t.run (heard await tr) y ∧ x = scopeEnd (y, interruptions tr) := by
  show Follows (watch await interruption t.run >>= fun p => .ret (scopeEnd p)) tr x ↔ _
  rw [follows_map_iff]
  constructor
  · rintro ⟨p, h, rfl⟩
    obtain ⟨hf, hn⟩ := follows_watch_iff.mp h
    exact ⟨p.1, hf, by rw [interruptions, ← hn]⟩
  · rintro ⟨y, hf, rfl⟩
    exact ⟨(y, interruptions tr), follows_watch_iff.mpr ⟨hf, rfl⟩, rfl⟩

theorem follows_catch_iff {α : Type} {t : Cancellable α} {f : String → α}
    {x : Except Interrupt α} :
    Follows (Cancellable.catchRaised t f).run tr x ↔ ∃ y, Follows t.run tr y ∧ x = caught f y :=
  follows_map_iff

theorem follows_closeNow_iff {α : Type} {sock : Socket} {a : α} {x : Except Interrupt α} :
    Follows (sock.closeNow >>= fun _ => return a).run tr x ↔
      tr = [⟨.close sock, ()⟩] ∧ x = .ok a := by
  show Follows (.ask (.close sock) fun (_ : Unit) => .ret (.ok a)) tr x ↔ _
  rw [follows_call_iff]
  exact ⟨fun ⟨_, htr, hx⟩ => ⟨htr, hx⟩, fun ⟨htr, hx⟩ => ⟨(), htr, hx⟩⟩

/-- The one call of a `connect_to_host`, and how it ends. -/
theorem follows_connectToHost_heard {host : String} {port : Int32} {x : Except Interrupt Socket}
    (h : Follows (Socket.connectToHost host port).run (heard await tr) x) :
    ∃ r : Outcome Socket, tr = [⟨.connectToHost host port, r⟩] ∧ x = r.await.toExcept := by
  obtain ⟨r, htr, rfl⟩ := follows_connectToHost_iff.mp h
  obtain ⟨⟨c, r'⟩, rfl, hev⟩ := List.map_eq_singleton_iff.mp htr
  cases hev
  exact ⟨r', rfl, rfl⟩

end Calls

/-! ## 2. Without a cancellation -/

/-- The reply of a call that ends by itself. -/
def byItself : (c : SockCall) → SockReply c → CancelReply c
  | .connectToHost _ _, r => Outcome.ended r
  | .write _ _, r => Outcome.ended r
  | .readExactly _ _, r => Outcome.ended r
  | .close _, _ => ()

def undisturbed (tr : List SockEvent) : List CancelEvent :=
  tr.map fun ev => ⟨ev.1, byItself ev.1 ev.2⟩

theorem heard_undisturbed (tr : List SockEvent) : heard await (undisturbed tr) = tr := by
  rw [heard, undisturbed, List.map_map]
  refine List.map_id'' (fun ev => ?_) tr
  obtain ⟨c, r⟩ := ev
  cases c <;> rfl

theorem interruptions_undisturbed (tr : List SockEvent) : interruptions (undisturbed tr) = [] := by
  rw [interruptions, undisturbed, List.flatMap_map]
  refine List.flatMap_eq_nil_iff.mpr fun ev _ => ?_
  obtain ⟨c, r⟩ := ev
  cases c <;> rfl

/-- `t` does what `t'` does as long as nothing is cancelled. -/
def Agrees {α : Type} (t : Cancellable α) (t' : Task α) : Prop :=
  ∀ tr x, Follows t.run (undisturbed tr) x ↔ Follows t'.run tr x

section Agree

variable {α β : Type}

theorem agrees_return (a : α) : Agrees (return a) (return a) := by
  intro tr x
  show Follows (.ret _) _ _ ↔ Follows (.ret _) _ _
  rw [follows_ret_iff, follows_ret_iff, undisturbed, List.map_eq_nil_iff]

theorem Agrees.bind {t : Cancellable α} {t' : Task α} {F : α → Cancellable β} {F' : α → Task β}
    (ht : Agrees t t') (hF : ∀ a, Agrees (F a) (F' a)) : Agrees (t >>= F) (t' >>= F') := by
  intro tr x
  rw [follows_op_bind_iff, follows_op_bind_iff]
  constructor
  · rintro (⟨e, h, rfl⟩ | ⟨a, _, _, htr, h₁, h₂⟩)
    · exact Or.inl ⟨e, (ht tr _).mp h, rfl⟩
    · obtain ⟨tr₁, tr₂, rfl, rfl, rfl⟩ := List.map_eq_append_iff.mp htr
      exact Or.inr ⟨a, tr₁, tr₂, rfl, (ht tr₁ _).mp h₁, (hF a tr₂ x).mp h₂⟩
  · rintro (⟨e, h, rfl⟩ | ⟨a, tr₁, tr₂, rfl, h₁, h₂⟩)
    · exact Or.inl ⟨e, (ht tr _).mpr h, rfl⟩
    · exact Or.inr ⟨a, undisturbed tr₁, undisturbed tr₂, List.map_append, (ht tr₁ _).mpr h₁,
        (hF a tr₂ x).mpr h₂⟩

theorem agrees_timeout (time : Int32) (t : Task α) :
    Agrees (Cancellable.withTimeoutOpt time t) (withTimeoutOpt time t) := by
  intro tr x
  rw [follows_scope_iff, follows_withTimeoutOpt_iff, heard_undisturbed, interruptions_undisturbed]
  rfl

theorem Agrees.catch {t : Cancellable α} {t' : Task α} (ht : Agrees t t') (f : String → α) :
    Agrees (Cancellable.catchRaised t f) (catchRaised t' f) := by
  intro tr x
  rw [follows_catch_iff, follows_catchRaised_iff]
  exact exists_congr fun y => and_congr_left fun _ => ht tr y

theorem agrees_close (sock : Socket) : Agrees sock.closeNow sock.close := by
  intro tr x
  refine (follows_call_iff.trans ?_).trans follows_call_iff.symm
  refine exists_congr fun r => and_congr_left fun _ => ⟨fun htr => ?_, fun htr => by rw [htr]; rfl⟩
  obtain ⟨⟨c, r'⟩, rfl, hev⟩ := List.map_eq_singleton_iff.mp htr
  cases hev
  rfl

end Agree

/-- **A `connect` that nobody cancels** is the `connect` of the transport. -/
theorem follows_connect_iff {self : TcpConnection} {tr : List SockEvent}
    {x : Except Interrupt (S7Result TcpConnection)} :
    Follows self.connectCancellable.run (undisturbed tr) x ↔ Follows self.connect.run tr x := by
  suffices h : Agrees self.connectCancellable self.connect from h tr x
  unfold TcpConnection.connectCancellable TcpConnection.connect
  split
  · exact agrees_return _
  · refine Agrees.bind (((agrees_timeout _ _).bind fun _ => agrees_return _).catch _) fun r => ?_
    rcases r with e | (_ | sock)
    · exact agrees_return _
    · exact agrees_return _
    · refine (agrees_timeout _ _).bind fun o => ?_
      rcases o with _ | ((e | _) | ps)
      · exact (agrees_close sock).bind fun _ => agrees_return _
      · exact (agrees_close sock).bind fun _ => agrees_return _
      · exact agrees_return _
      · exact agrees_return _

/-! ## 3. The calls of a negotiation -/

def InNegotiation : SockCall → Prop
  | .write _ _ => True
  | .readExactly _ _ => True
  | .connectToHost _ _ => False
  | .close _ => False

instance : DecidablePred InNegotiation
  | .write _ _ => .isTrue trivial
  | .readExactly _ _ => .isTrue trivial
  | .connectToHost _ _ => .isFalse id
  | .close _ => .isFalse id

/-- A block that ends without a raised error. -/
def Quiet {α : Type} (x : Except Interrupt α) : Prop := ∀ m, x ≠ .error (.raised m)

section Negotiation

variable {α β : Type}

theorem quiet_ok (a : α) : Quiet (.ok a) := nofun

theorem quiet_catchRaised (t : Task α) (f : String → α) : Yields Quiet (catchRaised t f).run := by
  intro tr x hf
  obtain ⟨y, -, rfl⟩ := follows_catchRaised_iff.mp hf
  rcases y with (⟨m⟩ | _) | a <;> nofun

theorem quiet_bind {t : Task α} {F : α → Task β} (ht : Yields Quiet t.run)
    (hF : ∀ a, Yields Quiet (F a).run) : Yields Quiet (t >>= F).run := by
  refine Yields.op_bind ht (fun e he m h => ?_) fun a _ => hF a
  cases h
  exact he m rfl

theorem asks_catchRaised {t : Task α} (ht : Asks InNegotiation t.run) (f : String → α) :
    Asks InNegotiation (catchRaised t f).run := by
  rw [catchRaised_run]
  exact ht.bind fun _ => .ret _

theorem asks_write (sock : Socket) (data : List UInt8) : Asks InNegotiation (sock.write data).run :=
  .ask (show InNegotiation (.write sock data) from trivial) fun _ => .ret _

theorem asks_readExactly (sock : Socket) (n : Nat) : Asks InNegotiation (sock.readExactly n).run :=
  .ask (show InNegotiation (.readExactly sock n) from trivial) fun _ => .ret _

theorem asks_writeAll (sock : Socket) (data : List UInt8) :
    Asks InNegotiation (writeAll sock data).run :=
  asks_catchRaised ((asks_write sock data).op_bind fun _ => .ret _) _

theorem asks_readTpkt (sock : Socket) : Asks InNegotiation (readTpkt sock).run := by
  rw [readTpkt_eq]
  refine asks_catchRaised ((asks_readExactly sock 4).op_bind fun hdr => ?_) _
  unfold readBody
  split
  · exact .ret _
  · dsimp only
    split
    · exact .ret _
    · exact (asks_readExactly sock _).op_bind fun _ => .ret _

variable (localTsap remoteTsap : List UInt8) (sock : Socket)

/-- What holds of a return, of a sequence and of the two steps on frames holds of a negotiation. -/
theorem negotiate_rule {P : (α : Type) → Task α → Prop} (hret : ∀ (α : Type) (a : α), P α (return a))
    (hbind : ∀ (α β : Type) (t : Task α) (F : α → Task β), P α t → (∀ a, P β (F a)) → P β (t >>= F))
    (hw : ∀ data, P _ (writeAll sock data)) (hr : P _ (readTpkt sock)) :
    P _ (negotiate localTsap remoteTsap sock) := by
  unfold negotiate
  refine hbind _ _ _ _ (hw _) fun r => ?_
  rcases r with e | _
  · exact hret _ _
  refine hbind _ _ _ _ hr fun r => ?_
  rcases r with e | cc
  · exact hret _ _
  cases hcc : parseCotpCc cc with
  | error d =>
    simp only [hcc]
    exact hret _ _
  | ok n =>
    simp only [hcc]
    refine hbind _ _ _ _ (hw _) fun r => ?_
    rcases r with e | _
    · exact hret _ _
    refine hbind _ _ _ _ hr fun r => ?_
    rcases r with e | st <;> exact hret _ _

theorem asks_negotiate : Asks InNegotiation (negotiate localTsap remoteTsap sock).run :=
  negotiate_rule (P := fun _ t => Asks InNegotiation t.run) localTsap remoteTsap sock
    (fun _ _ => .ret _) (fun _ _ _ _ ht hF => ht.op_bind hF) (asks_writeAll sock) (asks_readTpkt sock)

theorem quiet_negotiate : Yields Quiet (negotiate localTsap remoteTsap sock).run :=
  negotiate_rule (P := fun _ t => Yields Quiet t.run) localTsap remoteTsap sock
    (fun _ a => yields_ret (quiet_ok a)) (fun _ _ _ _ ht hF => quiet_bind ht hF)
    (fun _ => quiet_catchRaised _ _) (quiet_catchRaised _ _)

end Negotiation

/-! ## 4. What a run can be -/

/-- The calls of a negotiation. -/
def Negotiating (tr : List CancelEvent) : Prop := ∀ ev ∈ tr, InNegotiation ev.1

/-- No cancellation came first. -/
def Uncancelled (is : List Interrupt) : Prop := ∀ m, is.head? ≠ some (.raised m)

/-- What a `connect` can do: whether it gets a socket, what becomes of the negotiation on it, and
    whether it closes the socket. -/
inductive ConnectRun (self : TcpConnection) :
    List CancelEvent → Except Interrupt (S7Result TcpConnection) → Prop where
  | already : ConnectRun self [] (.ok (err .alreadyConnected))
  | noSocket {r : Outcome Socket} {e : S7Error} (hr : ∀ sock, r.await ≠ .value sock) :
      ConnectRun self [⟨.connectToHost self.config.host self.config.port, r⟩] (.ok (err e))
  | dropped {sock : Socket} {i : Interrupt} {e : S7Error} :
      ConnectRun self [⟨.connectToHost self.config.host self.config.port, Outcome.late sock i⟩]
        (.ok (err e))
  | cancelled {sock : Socket} {tr : List CancelEvent} {m : String} (hn : Negotiating tr)
      (hc : (interruptions tr).head? = some (.raised m)) :
      ConnectRun self
        (⟨.connectToHost self.config.host self.config.port, Outcome.ended (.value sock)⟩ :: tr)
        (.error (.raised m))
  | failed {sock : Socket} {tr : List CancelEvent} {e : S7Error} (hn : Negotiating tr)
      (hc : Uncancelled (interruptions tr)) :
      ConnectRun self
        (⟨.connectToHost self.config.host self.config.port, Outcome.ended (.value sock)⟩ ::
          (tr ++ [⟨.close sock, ()⟩])) (.ok (err e))
  | connected {sock : Socket} {tr : List CancelEvent} {ps : Int32} (hn : Negotiating tr)
      (hc : interruptions tr = []) :
      ConnectRun self
        (⟨.connectToHost self.config.host self.config.port, Outcome.ended (.value sock)⟩ :: tr)
        (.ok (.ok (self.opened sock ps)))

section Runs

variable {tr : List CancelEvent}

/-- The wait for a socket. -/
theorem follows_awaitSocket {host : String} {port time : Int32} {f : String → S7Error}
    {x : Except Interrupt (S7Result (Option Socket))}
    (h : Follows (Cancellable.catchRaised
      (do return .ok (← Cancellable.withTimeoutOpt time (Socket.connectToHost host port)))
      fun m => (err (f m) : S7Result (Option Socket))).run tr x) :
    ∃ r : Outcome Socket, tr = [⟨.connectToHost host port, r⟩] ∧
      ((∃ sock, r = .ended (.value sock) ∧ x = .ok (.ok (some sock))) ∨
        ((∀ sock, r.await ≠ .value sock) ∨ ∃ sock i, r = .late sock i) ∧
          (x = .ok (.ok none) ∨ ∃ m, x = .ok (err (f m)))) := by
  obtain ⟨y, hy, rfl⟩ := follows_catch_iff.mp h
  obtain ⟨z, hz, rfl⟩ := follows_return_iff.mp hy
  obtain ⟨w, hw, rfl⟩ := follows_scope_iff.mp hz
  obtain ⟨r, rfl, rfl⟩ := follows_connectToHost_heard hw
  refine ⟨r, rfl, ?_⟩
  rcases r with (sock | m | _) | m | ⟨sock, i⟩
  · exact Or.inl ⟨sock, rfl, rfl⟩
  · exact Or.inr ⟨Or.inl nofun, Or.inr ⟨m, rfl⟩⟩
  · exact Or.inr ⟨Or.inl nofun, Or.inl rfl⟩
  · exact Or.inr ⟨Or.inl nofun, Or.inr ⟨m, rfl⟩⟩
  · refine Or.inr ⟨Or.inr ⟨sock, i, rfl⟩, ?_⟩
    rcases i with m | _
    · exact Or.inr ⟨m, rfl⟩
    · exact Or.inl rfl

/-- The negotiation in its time: cancelled, or ended in one of three ways. -/
theorem follows_negotiateInTime {localTsap remoteTsap : List UInt8} {sock : Socket} {time : Int32}
    {x : Except Interrupt (Option (S7Result Int32))}
    (h : Follows (Cancellable.withTimeoutOpt time
      (negotiate localTsap remoteTsap sock)).run tr x) :
    Negotiating tr ∧
      ((∃ m, (interruptions tr).head? = some (.raised m) ∧ x = .error (.raised m)) ∨
        Uncancelled (interruptions tr) ∧ ∃ o, x = .ok o ∧ o ≠ some (.error .abort) ∧
          (o ≠ none → interruptions tr = [])) := by
  obtain ⟨y, hy, rfl⟩ := follows_scope_iff.mp h
  refine ⟨fun ev hev => ?_, ?_⟩
  · exact (asks_negotiate localTsap remoteTsap sock).follows hy ⟨ev.1, await ev.1 ev.2⟩
      (List.mem_map_of_mem hev)
  rcases hi : interruptions tr with _ | ⟨m | _, is⟩
  · refine Or.inr ⟨nofun, ?_⟩
    rcases y with (m | _) | v
    · exact absurd rfl (quiet_negotiate localTsap remoteTsap sock _ _ hy m)
    · exact ⟨none, rfl, nofun, fun _ => rfl⟩
    · refine ⟨some v, rfl, fun hv => ?_, fun _ => rfl⟩
      cases hv
      exact (yields_negotiate localTsap remoteTsap sock _ _ hy .abort rfl).1 rfl
  · exact Or.inl ⟨m, rfl, rfl⟩
  · exact Or.inr ⟨nofun, none, rfl, nofun, fun h => absurd rfl h⟩

/-- **What a run of a `connect` is.** -/
theorem connectRun {self : TcpConnection} {x : Except Interrupt (S7Result TcpConnection)}
    (h : Follows self.connectCancellable.run tr x) : ConnectRun self tr x := by
  unfold TcpConnection.connectCancellable at h
  split at h
  · obtain ⟨rfl, rfl⟩ := follows_ret_iff.mp h
    exact .already
  rcases follows_op_bind_iff.mp h with ⟨i, h₁, rfl⟩ | ⟨c, tr₁, tr₂, rfl, h₁, h₂⟩
  · obtain ⟨r, -, ⟨sock, -, hx⟩ | ⟨-, hx | ⟨m, hx⟩⟩⟩ := follows_awaitSocket h₁ <;> cases hx
  obtain ⟨r, rfl, ⟨sock, rfl, hx⟩ | ⟨hr, hx⟩⟩ := follows_awaitSocket h₁
  · cases hx
    rcases follows_op_bind_iff.mp h₂ with ⟨i, h₃, rfl⟩ | ⟨o, tr₃, tr₄, rfl, h₃, h₄⟩
    · obtain ⟨hn, ⟨m, hm, hx⟩ | ⟨-, o, hx, -⟩⟩ := follows_negotiateInTime h₃
      · cases hx
        exact .cancelled hn hm
      · cases hx
    · obtain ⟨hn, ⟨m, hm, hx⟩ | ⟨hc, o, hx, ho, hnil⟩⟩ := follows_negotiateInTime h₃
      · cases hx
      cases hx
      rcases o with _ | ((e | _) | ps)
      · obtain ⟨rfl, rfl⟩ := follows_closeNow_iff.mp h₄
        exact .failed hn hc
      · obtain ⟨rfl, rfl⟩ := follows_closeNow_iff.mp h₄
        exact .failed hn hc
      · exact absurd rfl ho
      · obtain ⟨rfl, rfl⟩ := follows_ret_iff.mp h₄
        rw [List.append_nil]
        exact .connected hn (hnil nofun)
  · -- there is no socket to negotiate on
    have hend : ∃ e, tr₂ = [] ∧ x = .ok (err e) := by
      rcases hx with hx | ⟨m, hx⟩ <;> cases hx <;> obtain ⟨rfl, rfl⟩ := follows_ret_iff.mp h₂ <;>
        exact ⟨_, rfl, rfl⟩
    obtain ⟨e, rfl, rfl⟩ := hend
    rcases hr with hr | ⟨sock, i, rfl⟩
    · exact .noSocket hr
    · exact .dropped

end Runs

/-! ## 5. Open sockets -/

/-- The sockets that are open behind a call. -/
def openStep (socks : List Socket) : CancelEvent → List Socket
  | ⟨.connectToHost _ _, r⟩ =>
    match r with
    | .ended (.value sock) => sock :: socks
    | .late sock _ => sock :: socks
    | _ => socks
  | ⟨.write _ _, _⟩ => socks
  | ⟨.readExactly _ _, _⟩ => socks
  | ⟨.close sock, _⟩ => socks.erase sock

/-- The sockets that a run has opened and not closed. -/
def leftOpen (tr : List CancelEvent) : List Socket := tr.foldl openStep []

/-- A run in which the task is not cancelled once it has a socket, unless its time was up before, and
    no socket comes when the time is up or the task cancelled. -/
structure Undropped (tr : List CancelEvent) : Prop where
  socket : ∀ host port sock i, ⟨.connectToHost host port, Outcome.late sock i⟩ ∉ tr
  negotiation : Uncancelled (interruptions (tr.filter fun ev => InNegotiation ev.1))

section Open

variable {tr : List CancelEvent}

/-- A negotiation neither opens nor closes a socket. -/
theorem foldl_openStep_negotiating (hn : Negotiating tr) (socks : List Socket) :
    tr.foldl openStep socks = socks := by
  induction tr with
  | nil => rfl
  | cons ev tr ih =>
    obtain ⟨hev, htr⟩ := List.forall_mem_cons.mp hn
    rw [List.foldl_cons]
    obtain ⟨c, r⟩ := ev
    cases c with
    | connectToHost host port => exact hev.elim
    | write tcp data => exact ih htr
    | readExactly tcp n => exact ih htr
    | close tcp => exact hev.elim

/-- What decides once there is a socket: the first interruption of the negotiation. -/
theorem undropped_iff {host : String} {port : Int32} {sock : Socket} (hn : Negotiating tr)
    {last : List CancelEvent} (hlast : ∀ ev ∈ last, ∃ sock, ev = ⟨.close sock, ()⟩) :
    Undropped (⟨.connectToHost host port, Outcome.ended (.value sock)⟩ :: (tr ++ last)) ↔
      Uncancelled (interruptions tr) := by
  have hfilter : (⟨.connectToHost host port, Outcome.ended (.value sock)⟩ :: (tr ++ last) :
      List CancelEvent).filter (fun ev => InNegotiation ev.1) = tr := by
    have hnil : last.filter (fun ev => InNegotiation ev.1) = [] := by
      refine List.filter_eq_nil_iff.mpr fun ev hev => ?_
      obtain ⟨sock, rfl⟩ := hlast ev hev
      exact of_decide_eq_false rfl
    have hall : tr.filter (fun ev => InNegotiation ev.1) = tr :=
      List.filter_eq_self.mpr fun ev hev => decide_eq_true (hn ev hev)
    rw [List.filter_cons_of_neg (of_decide_eq_false rfl), List.filter_append, hnil, hall, List.append_nil]
  constructor
  · intro h
    have hneg := h.negotiation
    rwa [hfilter] at hneg
  · intro h
    refine ⟨fun host' port' sock' i hmem => ?_, by rwa [hfilter]⟩
    rcases List.mem_cons.mp hmem with he | hmem
    · cases he
    · rcases List.mem_append.mp hmem with hmem | hmem
      · exact (hn _ hmem).elim
      · obtain ⟨_, he⟩ := hlast _ hmem
        cases he

/-- **A `connect` that fails has closed its socket exactly if** it was not cancelled in the
    negotiation and no socket came too late. -/
theorem connect_closes_iff {self : TcpConnection} {x : Except Interrupt (S7Result TcpConnection)}
    (h : Follows self.connectCancellable.run tr x) :
    ((∀ tc, x ≠ .ok (.ok tc)) → leftOpen tr = []) ↔ Undropped tr := by
  cases connectRun h with
  | already => exact iff_of_true (fun _ => rfl) ⟨nofun, nofun⟩
  | @noSocket r e hr =>
    refine iff_of_true (fun _ => ?_) ⟨fun host port sock i hmem => ?_, nofun⟩
    · rcases r with (sock | m | _) | m | ⟨sock, i⟩
      · exact absurd rfl (hr sock)
      · rfl
      · rfl
      · rfl
      · exact absurd rfl (hr sock)
    · cases List.mem_singleton.mp hmem
      exact hr sock rfl
  | @dropped sock i e =>
    refine iff_of_false (fun hl => ?_) fun hu => hu.socket _ _ _ _ (List.mem_singleton_self _)
    cases hl nofun
  | @cancelled sock tr m hn hc =>
    refine iff_of_false (fun hl => ?_) fun hu => ?_
    · have hl := hl nofun
      rw [leftOpen, List.foldl_cons, foldl_openStep_negotiating hn] at hl
      cases hl
    · rw [← List.append_nil tr, undropped_iff hn fun _ hev => absurd hev List.not_mem_nil] at hu
      exact hu m hc
  | @failed sock tr e hn hc =>
    refine iff_of_true (fun _ => ?_) ?_
    · rw [leftOpen, List.foldl_cons, List.foldl_append, foldl_openStep_negotiating hn]
      show [sock].erase sock = []
      exact List.erase_cons_head sock []
    · exact (undropped_iff hn fun ev hev => ⟨sock, List.mem_singleton.mp hev⟩).mpr hc
  | @connected sock tr ps hn hc =>
    refine iff_of_true (fun hx => absurd rfl (hx _)) ?_
    rw [← List.append_nil tr, undropped_iff hn fun _ hev => absurd hev List.not_mem_nil, hc]
    nofun

/-- The reply to the connection request does not come in time. -/
theorem connect_closes_expired :
    ∃ tr x, Follows (TcpConnection.new {}).connectCancellable.run tr x ∧
      x = .ok (err .connectionTimeout) ∧
      (((∀ tc, x ≠ .ok (.ok tc)) → leftOpen tr = []) ↔ Undropped tr) := by
  have h : Follows (TcpConnection.new {}).connectCancellable.run
      [⟨.connectToHost "192.168.0.1" 102, .ended (.value ⟨0⟩)⟩,
        ⟨.write ⟨0⟩ (buildCotpCr [0x01, 0x00] [0x01, 0x01]), .ended (.value ())⟩,
        ⟨.readExactly ⟨0⟩ 4, .ended .expired⟩, ⟨.close ⟨0⟩, ()⟩]
      (.ok (err .connectionTimeout)) := .ask (.ask (.ask (.ask (.ret _))))
  exact ⟨_, _, h, rfl, connect_closes_iff h⟩

/-- The task is cancelled while the connection request is written, and the timer is faster than a
    socket that is returned all the same. -/
theorem connect_closes_refuted :
    (∃ tr x, Follows (TcpConnection.new {}).connectCancellable.run tr x ∧
      (∀ tc, x ≠ .ok (.ok tc)) ∧ leftOpen tr = [⟨0⟩]) ∧
    Follows (TcpConnection.new {}).connectCancellable.run
      [⟨.connectToHost "192.168.0.1" 102, .late ⟨0⟩ .expired⟩] (.ok (err .connectionTimeout)) ∧
    leftOpen [⟨.connectToHost "192.168.0.1" 102, .late ⟨0⟩ .expired⟩] = [⟨0⟩] :=
  ⟨⟨[⟨.connectToHost "192.168.0.1" 102, .ended (.value ⟨0⟩)⟩,
    ⟨.write ⟨0⟩ (buildCotpCr [0x01, 0x00] [0x01, 0x01]), .cancelled "Cancelled"⟩],
    .error (.raised "Cancelled"), .ask (.ask (.ret _)), nofun, rfl⟩, .ask (.ret _), rfl⟩

end Open

end MoonS7
