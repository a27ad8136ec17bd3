import Mathlib.Logic.Relation
import MoonS7.Lib.Interaction

/-!
# Request and reply over one connection

A client talks to a server through two calls: `send` a request, `receive` an answer; either may
fail. An `exchange` is a send and then a receive, and a program is `Paired` if it talks in
exchanges only and stops at the first failure.

`Link` is an in-order connection to a server that answers each request once, in order, at its
own pace; a receive on it may give up at any time (`late` counts these). On every run of paired
programs a program that returns a value has taken the answers to its own requests exactly if no
receive had given up before it, or it has taken none (`matched_iff`).
-/

namespace Port

open Interaction

/-! ## 1. The two calls -/

inductive Call (Q : Type) where
  | send (q : Q)
  | receive

/-- The replies: a send is accepted or fails, a receive returns an answer or fails. -/
@[reducible] def Reply (Q A ε : Type) : Call Q → Type
  | .send _ => Except ε Unit
  | .receive => Except ε A

/-- A program over the two calls; the failures `ε` of the calls are among its own, `δ`. -/
abbrev Talk (Q A ε δ α : Type) : Type := Op (Call Q) (Reply Q A ε) δ α

abbrev Event (Q A ε : Type) : Type := Σ c : Call Q, Reply Q A ε c

variable {Q A ε δ α β σ π : Type}

@[match_pattern] abbrev Event.sent (q : Q) (r : Except ε Unit) : Event Q A ε := ⟨.send q, r⟩

@[match_pattern] abbrev Event.got (r : Except ε A) : Event Q A ε := ⟨.receive, r⟩

def send (inj : ε → δ) (q : Q) : Talk Q A ε δ Unit :=
  ExceptT.mk (.ask (.send q) fun (r : Except ε Unit) => .ret (r.mapError inj))

def receive (inj : ε → δ) : Talk Q A ε δ A :=
  ExceptT.mk (.ask .receive fun (r : Except ε A) => .ret (r.mapError inj))

/-- Send a request, then wait for an answer. -/
def exchange (inj : ε → δ) (q : Q) : Talk Q A ε δ A :=
  send inj q >>= fun _ => receive inj

/-- A send and a receive in sequence are an exchange, whatever follows. -/
theorem send_receive_bind (inj : ε → δ) (q : Q) (f : A → Talk Q A ε δ β) :
    (send inj q >>= fun _ => receive inj >>= f) = exchange inj q >>= f := by
  rw [exchange, bind_assoc]

/-- The requests of a trace the connection accepted, in order. -/
def requests (tr : List (Event Q A ε)) : List Q :=
  tr.filterMap fun
    | .sent q (.ok _) => some q
    | _ => none

/-- The answers of a trace, in order. -/
def answers (tr : List (Event Q A ε)) : List A :=
  tr.filterMap fun
    | .got (.ok a) => some a
    | _ => none

/-- All requests of a trace, also those the connection did not accept. -/
def attempts (tr : List (Event Q A ε)) : List Q :=
  tr.filterMap fun
    | .sent q _ => some q
    | _ => none

/-- The failures of the calls of a trace. -/
def failures (tr : List (Event Q A ε)) : List ε :=
  tr.filterMap fun
    | .sent _ (.error e) => some e
    | .got (.error e) => some e
    | _ => none

section Lists

@[simp] theorem requests_sent_ok (q : Q) (u : Unit) (tr : List (Event Q A ε)) :
    requests (.sent q (.ok u) :: tr) = q :: requests tr := rfl

@[simp] theorem requests_got (r : Except ε A) (tr : List (Event Q A ε)) :
    requests (.got r :: tr) = requests tr := rfl

@[simp] theorem answers_sent (q : Q) (r : Except ε Unit) (tr : List (Event Q A ε)) :
    answers (.sent q r :: tr) = answers tr := rfl

@[simp] theorem answers_got_ok (a : A) (tr : List (Event Q A ε)) :
    answers (.got (.ok a) :: tr) = a :: answers tr := rfl

end Lists

/-! ## 2. One exchange -/

section Follows

variable {inj : ε → δ} {q : Q} {tr : List (Event Q A ε)}

theorem follows_send_iff {b : Except δ Unit} :
    Follows (send inj q : Talk Q A ε δ Unit).run tr b ↔
      ∃ r : Except ε Unit, tr = [.sent q r] ∧ b = r.mapError inj :=
  follows_call_iff

theorem follows_receive_iff {b : Except δ A} :
    Follows (receive inj : Talk Q A ε δ A).run tr b ↔
      ∃ r : Except ε A, tr = [.got r] ∧ b = r.mapError inj :=
  follows_call_iff

/-- **What an exchange can do**: fail to send, fail to receive, or return an answer. -/
theorem follows_exchange_iff {b : Except δ A} :
    Follows (exchange inj q).run tr b ↔
      (∃ e, tr = [.sent q (.error e)] ∧ b = .error (inj e)) ∨
      (∃ e, tr = [.sent q (.ok ()), .got (.error e)] ∧ b = .error (inj e)) ∨
      (∃ a, tr = [.sent q (.ok ()), .got (.ok a)] ∧ b = .ok a) := by
  rw [exchange, follows_op_bind_iff]
  constructor
  · rintro (⟨d, h, rfl⟩ | ⟨u, tr₁, tr₂, rfl, h₁, h₂⟩)
    · obtain ⟨r, rfl, hd⟩ := follows_send_iff.mp h
      cases r with
      | ok u => cases hd
      | error e =>
        cases hd
        exact Or.inl ⟨e, rfl, rfl⟩
    · obtain ⟨r, rfl, hu⟩ := follows_send_iff.mp h₁
      obtain ⟨r', rfl, rfl⟩ := follows_receive_iff.mp h₂
      cases r with
      | error e => cases hu
      | ok u' =>
        cases r' with
        | error e => exact Or.inr (Or.inl ⟨e, rfl, rfl⟩)
        | ok a => exact Or.inr (Or.inr ⟨a, rfl, rfl⟩)
  · rintro (⟨e, rfl, rfl⟩ | ⟨e, rfl, rfl⟩ | ⟨a, rfl, rfl⟩)
    · exact Or.inl ⟨inj e, follows_send_iff.mpr ⟨.error e, rfl, rfl⟩, rfl⟩
    · exact Or.inr ⟨(), _, _, rfl, follows_send_iff.mpr ⟨.ok (), rfl, rfl⟩,
        follows_receive_iff.mpr ⟨.error e, rfl, rfl⟩⟩
    · exact Or.inr ⟨(), _, _, rfl, follows_send_iff.mpr ⟨.ok (), rfl, rfl⟩,
        follows_receive_iff.mpr ⟨.ok a, rfl, rfl⟩⟩

end Follows

/-- The same against an environment: what each of the two calls finds. -/
theorem exec_exchange_iff {step : (c : Call Q) → σ → Reply Q A ε c → σ → Prop} {inj : ε → δ} {q : Q}
    {s s' : σ} {x : Except δ A} :
    Exec step (exchange inj q : Talk Q A ε δ A).run s x s' ↔
      (∃ e, step (.send q) s (Except.error e : Except ε Unit) s' ∧ x = .error (inj e)) ∨
      ∃ s₁, step (.send q) s (Except.ok () : Except ε Unit) s₁ ∧
        ((∃ e, step .receive s₁ (Except.error e : Except ε A) s' ∧ x = .error (inj e)) ∨
          ∃ a, step .receive s₁ (Except.ok a : Except ε A) s' ∧ x = .ok a) := by
  rw [exec_iff_path]
  constructor
  · rintro ⟨tr, hf, hp⟩
    rcases follows_exchange_iff.mp hf with ⟨e, rfl, rfl⟩ | ⟨e, rfl, rfl⟩ | ⟨a, rfl, rfl⟩
    · obtain ⟨s₁, h₁, hp⟩ := path_cons_iff.mp hp
      cases hp
      exact Or.inl ⟨e, h₁, rfl⟩
    · obtain ⟨s₁, h₁, hp⟩ := path_cons_iff.mp hp
      obtain ⟨s₂, h₂, hp⟩ := path_cons_iff.mp hp
      cases hp
      exact Or.inr ⟨s₁, h₁, Or.inl ⟨e, h₂, rfl⟩⟩
    · obtain ⟨s₁, h₁, hp⟩ := path_cons_iff.mp hp
      obtain ⟨s₂, h₂, hp⟩ := path_cons_iff.mp hp
      cases hp
      exact Or.inr ⟨s₁, h₁, Or.inr ⟨a, h₂, rfl⟩⟩
  · rintro (⟨e, h₁, rfl⟩ | ⟨s₁, h₁, ⟨e, h₂, rfl⟩ | ⟨a, h₂, rfl⟩⟩)
    · exact ⟨_, follows_exchange_iff.mpr (Or.inl ⟨e, rfl, rfl⟩), .cons h₁ (.nil _)⟩
    · exact ⟨_, follows_exchange_iff.mpr (Or.inr (Or.inl ⟨e, rfl, rfl⟩)), .cons h₁ (.cons h₂ (.nil _))⟩
    · exact ⟨_, follows_exchange_iff.mpr (Or.inr (Or.inr ⟨a, rfl, rfl⟩)),
        .cons h₁ (.cons h₂ (.nil _))⟩

/-- A deterministic environment from what it does on a send and on a receive. -/
def handler (onSend : Q → σ → Except ε Unit × σ) (onReceive : σ → Except ε A × σ) :
    (c : Call Q) → σ → Reply Q A ε c × σ
  | .send q, s => onSend q s
  | .receive, s => onReceive s

section Handler

variable {onSend : Q → σ → Except ε Unit × σ} {onReceive : σ → Except ε A × σ}
  {inj : ε → δ} {q : Q} {s s₁ s₂ : σ}

theorem run_exchange_ok {a : A} (h₁ : onSend q s = (.ok (), s₁)) (h₂ : onReceive s₁ = (.ok a, s₂)) :
    run (handler onSend onReceive) (exchange inj q).run s = (.ok a, s₂) := by
  have hs : run (handler onSend onReceive) (send inj q : Talk Q A ε δ Unit).run s = (.ok (), s₁) := by
    show ((onSend q s).1.mapError inj, (onSend q s).2) = _
    rw [h₁]
    rfl
  rw [exchange, run_op_ok _ hs]
  show ((onReceive s₁).1.mapError inj, (onReceive s₁).2) = _
  rw [h₂]
  rfl

end Handler

/-- **Programs that talk in exchanges**: each request is followed by a receive, and a failure of
    either ends the program. -/
inductive Paired (inj : ε → δ) : Talk Q A ε δ α → Prop where
  | done (x : Except δ α) : Paired inj (ofResult x)
  | exchange {q : Q} {f : A → Talk Q A ε δ α} (hf : ∀ a, Paired inj (f a)) :
      Paired inj (exchange inj q >>= f)

theorem Paired.bind {inj : ε → δ} {x : Talk Q A ε δ α} {f : α → Talk Q A ε δ β}
    (hx : Paired inj x) (hf : ∀ a, Paired inj (f a)) : Paired inj (x >>= f) := by
  induction hx with
  | done x =>
    cases x with
    | ok a => exact hf a
    | error d => exact .done (.error d)
  | exchange _ ih =>
    rw [bind_assoc]
    exact .exchange ih

/-! ## 3. Sessions -/

/-- One request and a check of its answer. The request may be refused before it is sent. -/
def transact (inj : ε → δ) (check : A → Except δ β) (q : Except δ Q) : Talk Q A ε δ β :=
  ofResult q >>= fun q => exchange inj q >>= fun a => ofResult (check a)

/-- Requests one after the other, up to the first that fails. -/
def session (inj : ε → δ) (check : A → Except δ β) (qs : List (Except δ Q)) :
    Talk Q A ε δ (List β) :=
  qs.mapM (transact inj check)

/-- What a session can come to: the events of the requests that went through, the events of the
    one that did not, and the result. -/
inductive Session (inj : ε → δ) (check : A → Except δ β) :
    List (Except δ Q) → List (Event Q A ε) → Except δ (List β) → Prop where
  | done : Session inj check [] [] (.ok [])
  | refused (d : δ) (qs : List (Except δ Q)) :
      Session inj check (.error d :: qs) [] (.error d)
  | unsent (q : Q) (qs : List (Except δ Q)) (e : ε) :
      Session inj check (.ok q :: qs) [.sent q (.error e)] (.error (inj e))
  | unanswered (q : Q) (qs : List (Except δ Q)) (e : ε) :
      Session inj check (.ok q :: qs) [.sent q (.ok ()), .got (.error e)] (.error (inj e))
  | rejected (q : Q) (qs : List (Except δ Q)) {a : A} {d : δ} (ha : check a = .error d) :
      Session inj check (.ok q :: qs) [.sent q (.ok ()), .got (.ok a)] (.error d)
  | accepted (q : Q) {qs : List (Except δ Q)} {a : A} {b : β} {tr : List (Event Q A ε)}
      {x : Except δ (List β)} (ha : check a = .ok b) (h : Session inj check qs tr x) :
      Session inj check (.ok q :: qs) (.sent q (.ok ()) :: .got (.ok a) :: tr)
        (x.bind fun bs => .ok (b :: bs))

section Session

variable {inj : ε → δ} {check : A → Except δ β} {q : Q} {qs : List (Except δ Q)}
  {tr : List (Event Q A ε)} {x : Except δ (List β)}

@[simp] theorem session_nil :
    (session inj check [] : Talk Q A ε δ (List β)) = ofResult (.ok []) := rfl

theorem session_cons (q : Except δ Q) (qs : List (Except δ Q)) :
    (session inj check (q :: qs) : Talk Q A ε δ (List β)) =
      transact inj check q >>= fun b => session inj check qs >>= fun bs =>
        ofResult (.ok (b :: bs)) := by
  rw [session, List.mapM_cons]
  rfl

theorem transact_ok (q : Q) : (transact inj check (.ok q) : Talk Q A ε δ β) =
    exchange inj q >>= fun a => ofResult (check a) := rfl

theorem transact_error (d : δ) :
    (transact inj check (.error d) : Talk Q A ε δ β) = ofResult (.error d) := rfl

theorem paired_session (qs : List (Except δ Q)) :
    Paired inj (session inj check qs : Talk Q A ε δ (List β)) := by
  induction qs with
  | nil => exact .done (.ok [])
  | cons q qs ih =>
    rw [session_cons]
    refine Paired.bind ?_ fun b => ih.bind fun bs => .done (.ok (b :: bs))
    cases q with
    | ok q => exact .exchange fun a => .done (check a)
    | error d => exact .done (.error d)

/-- A session makes no other calls than those of its requests and their answers. -/
theorem asks_session {P : Call Q → Prop} (hr : P .receive) (hs : ∀ q, .ok q ∈ qs → P (.send q)) :
    Asks P (session inj check qs : Talk Q A ε δ (List β)).run := by
  induction qs with
  | nil => exact .ret _
  | cons q qs ih =>
    rw [session_cons]
    have hqs := ih fun q hq => hs q (List.mem_cons_of_mem _ hq)
    refine Asks.op_bind ?_ fun b => hqs.op_bind fun bs => .ret _
    cases q with
    | error d => exact .ret _
    | ok q =>
      have hsend : Asks P (send inj q : Talk Q A ε δ Unit).run :=
        .ask (hs q List.mem_cons_self) fun _ => .ret _
      have hreceive : Asks P (receive inj : Talk Q A ε δ A).run := .ask hr fun _ => .ret _
      rw [transact_ok]
      exact (hsend.op_bind fun _ => hreceive).op_bind fun a => .ret _

/-- One request is sent or not, answered or not, and its answer is checked. -/
theorem follows_transact_iff {y : Except δ β} :
    Follows (transact inj check (.ok q) : Talk Q A ε δ β).run tr y ↔
      (∃ e, tr = [.sent q (.error e)] ∧ y = .error (inj e)) ∨
      (∃ e, tr = [.sent q (.ok ()), .got (.error e)] ∧ y = .error (inj e)) ∨
      (∃ a, tr = [.sent q (.ok ()), .got (.ok a)] ∧ y = check a) := by
  rw [transact_ok, follows_ofResult_iff]
  constructor
  · rintro ⟨z, hz, rfl⟩
    rcases follows_exchange_iff.mp hz with ⟨e, rfl, rfl⟩ | ⟨e, rfl, rfl⟩ | ⟨a, rfl, rfl⟩
    · exact Or.inl ⟨e, rfl, rfl⟩
    · exact Or.inr (Or.inl ⟨e, rfl, rfl⟩)
    · exact Or.inr (Or.inr ⟨a, rfl, rfl⟩)
  · rintro (⟨e, rfl, rfl⟩ | ⟨e, rfl, rfl⟩ | ⟨a, rfl, rfl⟩)
    · exact ⟨_, follows_exchange_iff.mpr (Or.inl ⟨e, rfl, rfl⟩), rfl⟩
    · exact ⟨_, follows_exchange_iff.mpr (Or.inr (Or.inl ⟨e, rfl, rfl⟩)), rfl⟩
    · exact ⟨_, follows_exchange_iff.mpr (Or.inr (Or.inr ⟨a, rfl, rfl⟩)), rfl⟩

/-- **The traces of a session** are those of `Session`. -/
theorem follows_session_iff :
    Follows (session inj check qs : Talk Q A ε δ (List β)).run tr x ↔
      Session inj check qs tr x := by
  induction qs generalizing tr x with
  | nil =>
    rw [session_nil, ofResult_run, follows_ret_iff]
    constructor
    · rintro ⟨rfl, rfl⟩
      exact .done
    · intro h
      cases h
      exact ⟨rfl, rfl⟩
  | cons q qs ih =>
    rw [session_cons]
    cases q with
    | error d =>
      rw [transact_error, ofResult_error_bind, ofResult_run, follows_ret_iff]
      constructor
      · rintro ⟨rfl, rfl⟩
        exact .refused d qs
      · intro h
        cases h
        exact ⟨rfl, rfl⟩
    | ok q =>
      rw [follows_op_bind_iff]
      constructor
      · rintro (⟨d, h, rfl⟩ | ⟨b, tr₁, tr₂, rfl, h₁, h₂⟩)
        · rcases follows_transact_iff.mp h with ⟨e, rfl, hd⟩ | ⟨e, rfl, hd⟩ | ⟨a, rfl, hd⟩
          · cases hd
            exact .unsent q qs e
          · cases hd
            exact .unanswered q qs e
          · exact .rejected q qs hd.symm
        · rcases follows_transact_iff.mp h₁ with ⟨e, -, hb⟩ | ⟨e, -, hb⟩ | ⟨a, rfl, hb⟩
          · cases hb
          · cases hb
          · obtain ⟨y, hy, rfl⟩ := follows_ofResult_iff.mp h₂
            exact .accepted q hb.symm (ih.mp hy)
      · intro h
        cases h with
        | unsent q qs e =>
          exact Or.inl ⟨inj e, follows_transact_iff.mpr (Or.inl ⟨e, rfl, rfl⟩), rfl⟩
        | unanswered q qs e =>
          exact Or.inl ⟨inj e, follows_transact_iff.mpr (Or.inr (Or.inl ⟨e, rfl, rfl⟩)), rfl⟩
        | @rejected _ _ a d ha =>
          exact Or.inl ⟨d, follows_transact_iff.mpr (Or.inr (Or.inr ⟨a, rfl, ha.symm⟩)), rfl⟩
        | @accepted _ _ a b _ _ ha h =>
          exact Or.inr ⟨b, _, _, rfl,
            follows_transact_iff.mpr (Or.inr (Or.inr ⟨a, rfl, ha.symm⟩)),
            follows_ofResult_iff.mpr ⟨_, ih.mpr h, rfl⟩⟩

/-- One step of a session against an environment. -/
theorem exec_session_cons {step : (c : Call Q) → σ → Reply Q A ε c → σ → Prop} {s s' : σ} :
    Exec step (session inj check (.ok q :: qs) : Talk Q A ε δ (List β)).run s x s' ↔
      (∃ d, Exec step (exchange inj q : Talk Q A ε δ A).run s (.error d) s' ∧ x = .error d) ∨
      ∃ a s₁, Exec step (exchange inj q : Talk Q A ε δ A).run s (.ok a) s₁ ∧
        ((∃ d, check a = .error d ∧ x = .error d ∧ s' = s₁) ∨
          ∃ b y, check a = .ok b ∧ (x = y.bind fun bs => .ok (b :: bs)) ∧
            Exec step (session inj check qs : Talk Q A ε δ (List β)).run s₁ y s') := by
  rw [session_cons, transact_ok, bind_assoc, exec_op_bind_iff]
  refine or_congr_right (exists_congr fun a => exists_congr fun s₁ => and_congr_right fun _ => ?_)
  cases hc : check a with
  | error d =>
    rw [ofResult_error_bind, ofResult_run, exec_ret_iff]
    constructor
    · rintro ⟨rfl, rfl⟩
      exact Or.inl ⟨d, rfl, rfl, rfl⟩
    · rintro (⟨_, hd, rfl, rfl⟩ | ⟨_, _, hd, _⟩)
      · cases hd
        exact ⟨rfl, rfl⟩
      · cases hd
  | ok b =>
    rw [ofResult_ok_bind, exec_op_bind_iff]
    constructor
    · rintro (⟨d, h, rfl⟩ | ⟨bs, s₂, h, h'⟩)
      · exact Or.inr ⟨b, _, rfl, rfl, h⟩
      · obtain ⟨rfl, rfl⟩ := exec_ret_iff.mp h'
        exact Or.inr ⟨b, _, rfl, rfl, h⟩
    · rintro (⟨_, hd, _⟩ | ⟨_, y, hd, rfl, h⟩)
      · cases hd
      · cases hd
        cases y with
        | error d => exact Or.inl ⟨d, h, rfl⟩
        | ok bs => exact Or.inr ⟨bs, s', h, .ret _ _⟩

/-- One step of a session against a deterministic environment that answers. -/
theorem run_session_cons {h : (c : Call Q) → σ → Reply Q A ε c × σ} {s s₁ : σ} {a : A} {b : β}
    (he : run h (exchange inj q : Talk Q A ε δ A).run s = (.ok a, s₁)) (hc : check a = .ok b) :
    run h (session inj check (.ok q :: qs) : Talk Q A ε δ (List β)).run s =
      ((run h (session inj check qs : Talk Q A ε δ (List β)).run s₁).1.bind fun bs => .ok (b :: bs),
        (run h (session inj check qs : Talk Q A ε δ (List β)).run s₁).2) := by
  rw [session_cons, transact_ok, bind_assoc, run_op_ok h he, hc, ofResult_ok_bind]
  cases hr : run h (session inj check qs : Talk Q A ε δ (List β)).run s₁ with
  | mk x s₂ =>
    cases x with
    | ok bs => exact run_op_ok h hr _
    | error d => exact run_op_error h hr _

/-- The requests sent are the first of the session, in order. -/
theorem Session.requests (h : Session inj check qs tr x) :
    (Port.requests tr).map Except.ok <+: qs := by
  induction h with
  | done => exact List.prefix_refl _
  | refused => exact List.nil_prefix
  | unsent => exact List.nil_prefix
  | unanswered => exact List.prefix_append _ _
  | rejected => exact List.prefix_append _ _
  | accepted q ha _ ih => exact List.prefix_cons_inj _ |>.mpr ih

/-- A session that succeeds has sent every request, and every answer has passed the check. -/
theorem Session.ok {bs : List β} (h : Session inj check qs tr (.ok bs)) :
    (Port.requests tr).map Except.ok = qs ∧ (answers tr).map check = bs.map Except.ok ∧
      bs.length = qs.length := by
  generalize hx : (Except.ok bs : Except δ (List β)) = x at h
  induction h generalizing bs with
  | done =>
    cases hx
    exact ⟨rfl, rfl, rfl⟩
  | refused => cases hx
  | unsent => cases hx
  | unanswered => cases hx
  | rejected => cases hx
  | @accepted q qs a b tr y ha _ ih =>
    cases y with
    | error d => cases hx
    | ok bs' =>
      cases hx
      obtain ⟨h₁, h₂, h₃⟩ := ih rfl
      exact ⟨by rw [requests_sent_ok, requests_got, List.map_cons, h₁],
        by rw [answers_sent, answers_got_ok, List.map_cons, List.map_cons, ha, h₂],
        congrArg Nat.succ h₃⟩

/-- The requests of a session, sent or not, are its first, in order. -/
theorem Session.attempts (h : Session inj check qs tr x) :
    (Port.attempts tr).map Except.ok <+: qs := by
  induction h with
  | done => exact List.prefix_refl _
  | refused => exact List.nil_prefix
  | unsent => exact List.prefix_append _ _
  | unanswered => exact List.prefix_append _ _
  | rejected => exact List.prefix_append _ _
  | accepted q ha _ ih => exact List.prefix_cons_inj _ |>.mpr ih

/-- A session that fails has an answer missing or rejected; its error is one of a call, of a
    request or of the check. -/
theorem Session.error {d : δ} (h : Session inj check qs tr (.error d)) :
    ((answers tr).length < qs.length ∨ ∃ a ∈ answers tr, ∃ d, check a = .error d) ∧
      ((∃ e ∈ failures tr, d = inj e) ∨ .error d ∈ qs ∨ ∃ a ∈ answers tr, check a = .error d) := by
  generalize hx : (Except.error d : Except δ (List β)) = x at h
  induction h with
  | done => cases hx
  | refused d' qs =>
    cases hx
    exact ⟨Or.inl (Nat.succ_pos _), Or.inr (Or.inl List.mem_cons_self)⟩
  | unsent q qs e =>
    cases hx
    exact ⟨Or.inl (Nat.succ_pos _), Or.inl ⟨e, List.mem_singleton.mpr rfl, rfl⟩⟩
  | unanswered q qs e =>
    cases hx
    exact ⟨Or.inl (Nat.succ_pos _), Or.inl ⟨e, List.mem_singleton.mpr rfl, rfl⟩⟩
  | rejected q qs ha =>
    cases hx
    exact ⟨Or.inr ⟨_, List.mem_cons_self, _, ha⟩, Or.inr (Or.inr ⟨_, List.mem_cons_self, ha⟩)⟩
  | @accepted q qs a b tr y ha _ ih =>
    cases y with
    | ok bs => cases hx
    | error d' =>
      cases hx
      obtain ⟨h₁, h₂⟩ := ih rfl
      refine ⟨?_, h₂.imp_right (Or.imp (List.mem_cons_of_mem _)
        fun ⟨a', h₁, h₃⟩ => ⟨a', List.mem_cons_of_mem _ h₁, h₃⟩)⟩
      rcases h₁ with h₁ | ⟨a', h₁, h₃⟩
      · exact Or.inl (Nat.succ_lt_succ h₁)
      · exact Or.inr ⟨a', List.mem_cons_of_mem _ h₁, h₃⟩

/-- The error of an answer that is rejected is the session's. -/
theorem Session.of_rejected (h : Session inj check qs tr x) {a : A} {d : δ} (ha : a ∈ answers tr)
    (hd : check a = .error d) : x = .error d := by
  induction h with
  | done => cases ha
  | refused => cases ha
  | unsent => cases ha
  | unanswered => cases ha
  | rejected q qs ha' =>
    cases List.mem_singleton.mp (show a ∈ [_] from ha)
    exact congrArg Except.error (Except.error.inj (ha'.symm.trans hd))
  | accepted q ha' _ ih =>
    rcases List.mem_cons.mp (show a ∈ _ :: _ from ha) with rfl | ha
    · cases ha'.symm.trans hd
    · rw [ih ha]
      rfl

end Session

/-- The failures of a call are errors that `P` allows. -/
theorem yields_exchange {P : Except δ A → Prop} {inj : ε → δ} (q : Q) (he : ∀ e, P (.error (inj e)))
    (ha : ∀ a, P (.ok a)) : Yields P (exchange inj q : Talk Q A ε δ A).run := by
  intro tr b hf
  rcases follows_exchange_iff.mp hf with ⟨e, -, rfl⟩ | ⟨e, -, rfl⟩ | ⟨a, -, rfl⟩
  · exact he e
  · exact he e
  · exact ha a

/-- **A program returns on any answers**: from them in order, and from failures when they run out. -/
theorem exists_follows (p : Prog (Call Q) (Reply Q A ε) α) (as : List A) (e : ε) :
    ∃ tr a, Follows p tr a ∧ answers tr <+: as := by
  induction p generalizing as with
  | ret a => exact ⟨[], a, .ret a, List.nil_prefix⟩
  | ask c k ih =>
    cases c with
    | send q =>
      obtain ⟨tr, a, hf, hp⟩ := ih (Except.ok ()) as
      exact ⟨Event.sent q (.ok ()) :: tr, a, .ask hf, hp⟩
    | receive =>
      cases as with
      | nil =>
        obtain ⟨tr, a, hf, hp⟩ := ih (Except.error e) []
        exact ⟨Event.got (.error e) :: tr, a, .ask hf, hp⟩
      | cons b as =>
        obtain ⟨tr, a, hf, hp⟩ := ih (Except.ok b) as
        exact ⟨Event.got (.ok b) :: tr, a, .ask hf, (List.prefix_cons_inj _).mpr hp⟩

/-! ## 4. A server that answers in order -/

/-- The connection: the requests sent so far, the server's answers to them so far (the `i`th
    answers the `i`th request), the answers the client has taken off it, how many receives gave
    up, and the server's own state. -/
structure Link (Q A π : Type) where
  asked : List Q
  answered : List A
  got : List A
  late : Nat
  server : π

def Link.start (s₀ : π) : Link Q A π := ⟨[], [], [], 0, s₀⟩

/-- The server answers the oldest request it has not answered yet. -/
inductive Serves (serve : π → Q → A → π → Prop) : Link Q A π → Link Q A π → Prop where
  | answer {L : Link Q A π} {q : Q} {a : A} {s : π} (hq : L.asked[L.answered.length]? = some q)
      (hs : serve L.server q a s) :
      Serves serve L { L with answered := L.answered ++ [a], server := s }

/-- What the client's call finds, once the server has gone on for a while: a send is accepted, a
    receive takes the oldest answer not taken yet or gives up. -/
inductive Takes : (c : Call Q) → Link Q A π → Reply Q A ε c → Link Q A π → Prop where
  | send (q : Q) (L : Link Q A π) :
      Takes (.send q) L (Except.ok () : Except ε Unit) { L with asked := L.asked ++ [q] }
  | receive {L : Link Q A π} {a : A} (ha : L.answered[L.got.length]? = some a) :
      Takes .receive L (Except.ok a : Except ε A) { L with got := L.got ++ [a] }
  | giveUp (e : ε) (L : Link Q A π) :
      Takes .receive L (Except.error e : Except ε A) { L with late := L.late + 1 }

def linkStep (serve : π → Q → A → π → Prop) (c : Call Q) (L : Link Q A π) (r : Reply Q A ε c)
    (L' : Link Q A π) : Prop :=
  ∃ M, Relation.ReflTransGen (Serves serve) L M ∧ Takes c M r L'

/-- The links that paired programs, one after the other, can reach from the start. -/
inductive Reaches (serve : π → Q → A → π → Prop) (inj : ε → δ) (s₀ : π) : Link Q A π → Prop where
  | start : Reaches serve inj s₀ (.start s₀)
  | op {α : Type} {p : Talk Q A ε δ α} {L L' : Link Q A π} {x : Except δ α}
      (h : Reaches serve inj s₀ L) (hp : Paired inj p)
      (hx : Exec (linkStep serve) p.run L x L') : Reaches serve inj s₀ L'

section Link

variable {serve : π → Q → A → π → Prop} {inj : ε → δ}

/-- The server's own steps touch neither end of the client. -/
theorem serves_client {L M : Link Q A π} (h : Relation.ReflTransGen (Serves serve) L M) :
    M.asked = L.asked ∧ M.got = L.got ∧ M.late = L.late ∧ L.answered <+: M.answered := by
  induction h with
  | refl => exact ⟨rfl, rfl, rfl, List.prefix_refl _⟩
  | tail _ hs ih =>
    cases hs with
    | answer hq hs =>
      obtain ⟨h₁, h₂, h₃, h₄⟩ := ih
      exact ⟨h₁, h₂, h₃, h₄.trans (List.prefix_append _ _)⟩

/-- The answers the client has taken are the first of the server's answers, in order. -/
def InOrder (L : Link Q A π) : Prop := L.got <+: L.answered

theorem inOrder_step {c : Call Q} {L L' : Link Q A π} {r : Reply Q A ε c} (hL : InOrder L)
    (h : linkStep serve c L r L') : InOrder L' := by
  obtain ⟨M, hM, ht⟩ := h
  obtain ⟨-, hg, -, hp⟩ := serves_client hM
  have hIM : InOrder M := by
    rw [InOrder, hg]
    exact hL.trans hp
  cases ht with
  | send q => exact hIM
  | giveUp e => exact hIM
  | receive ha =>
    obtain ⟨t, ht⟩ := hIM
    cases t with
    | nil =>
      rw [List.append_nil] at ht
      rw [← ht, List.getElem?_eq_none (Nat.le_refl _)] at ha
      cases ha
    | cons b t =>
      rw [← ht, List.getElem?_append_right (Nat.le_refl _), Nat.sub_self] at ha
      cases ha
      exact ⟨t, by rw [← ht, List.append_assoc, List.singleton_append]⟩

/-- Along a trace the link records the requests and the answers of the trace. -/
theorem path_records {L L' : Link Q A π} {tr : List (Event Q A ε)}
    (h : Path (linkStep serve) L tr L') :
    L'.asked = L.asked ++ requests tr ∧ L'.got = L.got ++ answers tr ∧ L.late ≤ L'.late := by
  induction h with
  | nil => exact ⟨(List.append_nil _).symm, (List.append_nil _).symm, Nat.le_refl _⟩
  | cons hs _ ih =>
    obtain ⟨M, hM, ht⟩ := hs
    obtain ⟨ha, hg, hl, -⟩ := serves_client hM
    obtain ⟨h₁, h₂, h₃⟩ := ih
    cases ht with
    | send q =>
      refine ⟨?_, by rw [h₂, hg]; rfl, by rw [← hl]; exact h₃⟩
      rw [h₁, ha, List.append_assoc]
      rfl
    | receive hr =>
      refine ⟨by rw [h₁, ha]; rfl, ?_, by rw [← hl]; exact h₃⟩
      rw [h₂, hg, List.append_assoc]
      rfl
    | giveUp e =>
      exact ⟨by rw [h₁, ha]; rfl, by rw [h₂, hg]; rfl, by rw [← hl]; exact Nat.le_of_succ_le h₃⟩

/-- Between programs every request has been answered to the client or given up on. -/
def Level (L : Link Q A π) : Prop := L.asked.length = L.got.length + L.late

/-- **One exchange** takes one answer, or gives up once, for its one request. -/
theorem exchange_link {q : Q} {L L' : Link Q A π} {x : Except δ A}
    (h : Exec (linkStep serve) (exchange inj q : Talk Q A ε δ A).run L x L') :
    (∃ d, x = .error d ∧ L'.asked = L.asked ++ [q] ∧ L'.got = L.got ∧ L'.late = L.late + 1) ∨
    (∃ a, x = .ok a ∧ L'.asked = L.asked ++ [q] ∧ L'.got = L.got ++ [a] ∧ L'.late = L.late) := by
  rcases exec_exchange_iff.mp h with ⟨e, ⟨M, -, ht⟩, -⟩ | ⟨L₁, ⟨M₁, hM₁, ht₁⟩, h₂⟩
  · cases ht
  · cases ht₁
    obtain ⟨a₁, g₁, l₁, -⟩ := serves_client hM₁
    rcases h₂ with ⟨e, ⟨M₂, hM₂, ht₂⟩, rfl⟩ | ⟨a, ⟨M₂, hM₂, ht₂⟩, rfl⟩
    · cases ht₂
      obtain ⟨a₂, g₂, l₂, -⟩ := serves_client hM₂
      exact Or.inl ⟨inj e, rfl, by rw [a₂, a₁], by rw [g₂, g₁], by rw [l₂, l₁]⟩
    · cases ht₂
      obtain ⟨a₂, g₂, l₂, -⟩ := serves_client hM₂
      exact Or.inr ⟨a, rfl, by rw [a₂, a₁], by rw [g₂, g₁], by rw [l₂, l₁]⟩

/-- **A paired program** keeps the link level; if it returns a value, no receive of its own gave
    up. -/
theorem paired_link {p : Talk Q A ε δ α} (hp : Paired inj p) {L L' : Link Q A π} {x : Except δ α}
    (h : Exec (linkStep serve) p.run L x L') (hL : Level L) :
    Level L' ∧ ∀ a, x = .ok a → L'.late = L.late := by
  induction hp generalizing L with
  | done y =>
    obtain ⟨rfl, rfl⟩ := exec_ret_iff.mp h
    exact ⟨hL, fun _ _ => rfl⟩
  | exchange _ ih =>
    unfold Level at hL
    rcases exec_op_bind_iff.mp h with ⟨d, h₁, rfl⟩ | ⟨a, M, h₁, h₂⟩
    · rcases exchange_link h₁ with ⟨_, _, ha, hg, hl⟩ | ⟨_, hx, _⟩
      · refine ⟨?_, fun _ hx => by cases hx⟩
        rw [Level, ha, hg, hl, List.length_append, List.length_singleton]
        omega
      · cases hx
    · rcases exchange_link h₁ with ⟨_, hx, _⟩ | ⟨_, hx, ha, hg, hl⟩
      · cases hx
      · have hM : Level M := by
          rw [Level, ha, hg, hl, List.length_append, List.length_append]
          simp only [List.length_singleton]
          omega
        obtain ⟨hL', hv⟩ := ih a h₂ hM
        exact ⟨hL', fun b hb => (hv b hb).trans hl⟩

theorem reaches_inv {s₀ : π} {L : Link Q A π} (h : Reaches (ε := ε) serve inj s₀ L) :
    InOrder L ∧ Level L := by
  induction h with
  | start => exact ⟨List.prefix_refl _, rfl⟩
  | op _ hp hx ih =>
    refine ⟨?_, (paired_link hp hx ih.2).1⟩
    exact Exec.invariant (I := InOrder) (fun _ _ _ _ hL hs => inOrder_step hL hs) hx ih.1

/-- Each answer a program has taken between `L` and `L'` is the server's answer to a request the
    program has sent there, and the last one that to its last request. -/
structure Matched (L L' : Link Q A π) : Prop where
  own : ∀ i a, L.got.length ≤ i → L'.got[i]? = some a →
    L'.answered[i]? = some a ∧ L.asked.length ≤ i ∧ i < L'.asked.length
  last : L.got.length < L'.got.length → L'.got.length = L'.asked.length

section Runs

variable {s₀ : π} {p : Talk Q A ε δ α} (hp : Paired inj p) {L L' : Link Q A π} {a : α}
  (hL : Reaches (ε := ε) serve inj s₀ L) (h : Exec (linkStep serve) p.run L (.ok a) L')

include hp hL h

/-- **What a program takes** to return a value: as many answers as it sends requests, the next
    ones of the server's. -/
theorem paired_takes :
    L'.got <+: L'.answered ∧ L.asked.length = L.got.length + L.late ∧
      L'.asked.length = L'.got.length + L.late ∧
      ∃ tr, Follows p.run tr (.ok a) ∧ L'.asked = L.asked ++ requests tr ∧
        L'.got = L.got ++ answers tr := by
  obtain ⟨hord, hlev⟩ := reaches_inv hL
  obtain ⟨tr, hf, hpath⟩ := exec_iff_path.mp h
  obtain ⟨hasked, hgot, -⟩ := path_records hpath
  obtain ⟨hlev', hv⟩ := paired_link hp h hlev
  unfold Level at hlev'
  rw [hv a rfl] at hlev'
  exact ⟨Exec.invariant (I := InOrder) (fun _ _ _ _ hL hs => inOrder_step hL hs) h hord, hlev, hlev',
    tr, hf, hasked, hgot⟩

/-- **When answers are matched.** In every run of paired programs, a program that returns a value
    has taken the answers to its own requests exactly if no receive had given up before it, or it
    has taken none. -/
theorem matched_iff : Matched L L' ↔ L.late = 0 ∨ L'.got.length = L.got.length := by
  obtain ⟨⟨rest, hrest⟩, hlev, hlev', tr, -, -, hgot⟩ := paired_takes hp hL h
  have hle : L.got.length ≤ L'.got.length := by
    rw [hgot, List.length_append]
    omega
  constructor
  · intro hm
    by_cases heq : L'.got.length = L.got.length
    · exact Or.inr heq
    · have := hm.last (by omega)
      exact Or.inl (by omega)
  · intro hcond
    refine ⟨fun i b hi hb => ?_, fun hlt => by omega⟩
    have hil := (List.getElem?_eq_some_iff.mp hb).1
    refine ⟨?_, by omega, by omega⟩
    rw [← hrest, List.getElem?_append_left hil, hb]

end Runs

end Link

end Port
