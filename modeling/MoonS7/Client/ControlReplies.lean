import MoonS7.Client.Operations

/-!
# Replies to start, stop and restart

An Ack-Data reply has the error class and code behind ten bytes of header, and its parameters behind
these. The parser of a control reply looks for the function and its sub-code where the class and the
code are.

Main result: `control_reply_iff` -- a reply is read by its layout exactly if it is one that refuses
the request, with a class that is not the function's number.
-/

namespace MoonS7

open Interaction Port

/-! ## 1. Control operations -/

/-- The control operations, with the function each requests and the sub-code of a PLC that is in the
    requested state already. -/
inductive Control (cl : S7Client) : UInt8 → UInt8 → Client Unit → Prop where
  | start : Control cl 0x28 0x02 cl.plcStart
  | stop : Control cl 0x29 0x07 cl.plcStop
  | restart : Control cl 0x28 0x02 cl.plcRestart

theorem doCtrl_eq {cl : S7Client} (hc : cl.connected = true) (pdu : Frame) (fn already : UInt8) :
    doCtrl cl pdu fn already =
      transact Stop.err (fun resp => parsePlcCtrlResp resp fn already) (.ok pdu) := by
  rw [doCtrl, if_neg (by rw [hc]; decide), transact_ok, send_receive_bind]

section Runs

variable {cl : S7Client} {fn already : UInt8} {p : Client Unit} (hp : Control cl fn already p)

include hp

theorem Control.eq : ∃ pdu, p = doCtrl cl pdu fn already := by
  cases hp with
  | start => exact ⟨_, rfl⟩
  | stop => exact ⟨_, rfl⟩
  | restart => exact ⟨_, rfl⟩

/-- **A control operation returns** what the parser makes of its reply. -/
theorem Control.result {f : Frame} {tr : List (Event Frame Frame S7Error)} {x : S7Result Unit}
    (hf : Follows p.run tr x) (hmem : f ∈ answers tr) : x = parsePlcCtrlResp f fn already := by
  obtain ⟨pdu, rfl⟩ := hp.eq
  cases hc : cl.connected with
  | false =>
    rw [doCtrl, if_pos hc] at hf
    obtain ⟨-, rfl⟩ := follows_ret_iff.mp hf
    cases hmem
  | true =>
    rw [doCtrl_eq hc] at hf
    rcases follows_transact_iff.mp hf with ⟨e, rfl, -⟩ | ⟨e, rfl, -⟩ | ⟨a, rfl, hx⟩
    · cases hmem
    · cases hmem
    · cases List.mem_singleton.mp (show f ∈ [a] from hmem)
      exact hx

theorem Control.follows (hc : cl.connected = true) (f : Frame) :
    ∃ tr, Follows p.run tr (parsePlcCtrlResp f fn already) ∧ f ∈ answers tr := by
  obtain ⟨pdu, rfl⟩ := hp.eq
  refine ⟨[Event.sent pdu (.ok ()), Event.got (.ok f)], ?_, List.mem_cons_self⟩
  rw [doCtrl_eq hc]
  exact follows_transact_iff.mpr (Or.inr (Or.inr ⟨f, rfl, rfl⟩))

end Runs

/-! ## 2. Ack-Data replies -/

/-- An Ack-Data reply with its header at index 7, the error flag `flag`, and the error class and
    code. Its parameters begin behind these, at index 19. -/
structure AckData (f : Frame) (flag : Bool) (cls code : UInt8) : Prop where
  protocol : f[7]? = some pid
  type : ∃ mt, f[8]? = some mt ∧ mt.toNat % 128 = 0x03 ∧ errorFlag mt = flag
  cls : f[17]? = some cls
  code : f[18]? = some code

/-- The PLC says that it has taken the request for `fn`: no error, and the function echoed. -/
def Positive (f : Frame) (flag : Bool) (cls code fn : UInt8) : Prop :=
  flag = false ∧ cls = 0 ∧ code = 0 ∧ f[19]? = some fn

/-- The result `x` is what the layout says: the sub-code is behind the echoed function. -/
structure ByLayout (f : Frame) (flag : Bool) (cls code fn already : UInt8) (x : S7Result Unit) :
    Prop where
  done : x = .ok () ↔ Positive f flag cls code fn ∧ f[20]? ≠ some already
  pending : Positive f flag cls code fn → f[20]? = some already → x = err .jobPending
  refused : flag = true ∨ cls ≠ 0 ∨ code ≠ 0 → ∃ c msg, x = err (.plcError c msg)

section Reply

variable {f : Frame} {flag : Bool} {cls code fn already : UInt8} (h : AckData f flag cls code)

include h

/-- The parser compares the class with the function, and the code with the sub-code. -/
theorem parsePlcCtrlResp_ackData (fn already : UInt8) : parsePlcCtrlResp f fn already =
    if cls ≠ fn then err (.plcError (toInt cls) "PLC ctrl failed")
    else if code = already then err .jobPending else .ok () := by
  have hlen := (List.getElem?_eq_some_iff.mp h.code).1
  rw [parsePlcCtrlResp, if_neg (by omega), byteAt_ok h.cls, byteAt_ok h.code]
  rfl

theorem byLayout_iff (hfn : fn ≠ 0) :
    ByLayout f flag cls code fn already (parsePlcCtrlResp f fn already) ↔
      cls ≠ fn ∧ ¬ Positive f flag cls code fn := by
  rw [parsePlcCtrlResp_ackData h]
  constructor
  · intro hl
    have hne : cls ≠ fn := by
      rintro rfl
      obtain ⟨c, msg, hx⟩ := hl.refused (Or.inr (Or.inl hfn))
      rw [if_neg (fun hne => hne rfl)] at hx
      split at hx <;> cases hx
    rw [if_pos hne] at hl
    refine ⟨hne, fun hpos => ?_⟩
    by_cases hsub : f[20]? = some already
    · cases hl.pending hpos hsub
    · cases hl.done.mpr ⟨hpos, hsub⟩
  · intro hc
    obtain ⟨hne, hpos⟩ := hc
    rw [if_pos hne]
    refine ⟨⟨fun hx => ?_, fun hp => absurd hp.1 hpos⟩, fun hp => absurd hp hpos,
      fun _ => ⟨_, _, rfl⟩⟩
    cases hx

/-- **A control reply is read by its layout exactly if** it refuses the request and its class is not
    the function's number. -/
theorem control_reply_iff (hfn : fn = 0x28 ∧ already = 0x02 ∨ fn = 0x29 ∧ already = 0x07) :
    (∀ (cl : S7Client) (p : Client Unit) (tr : List (Event Frame Frame S7Error)) (x : S7Result Unit),
      Control cl fn already p → Follows p.run tr x → f ∈ answers tr →
        ByLayout f flag cls code fn already x) ↔
    cls ≠ fn ∧ ¬ Positive f flag cls code fn := by
  have hz : fn ≠ 0 := by
    rcases hfn with ⟨rfl, -⟩ | ⟨rfl, -⟩ <;> decide
  have hex : ∃ p, Control { S7Client.new with connected := true } fn already p := by
    rcases hfn with ⟨rfl, rfl⟩ | ⟨rfl, rfl⟩
    · exact ⟨_, .start⟩
    · exact ⟨_, .stop⟩
  rw [← (byLayout_iff h hz : ByLayout f flag cls code fn already _ ↔ _)]
  constructor
  · intro hall
    obtain ⟨p, hp⟩ := hex
    obtain ⟨tr, hf, hmem⟩ := hp.follows rfl f
    exact hall _ p tr _ hp hf hmem
  · intro hl cl p tr x hp hf hmem
    rw [hp.result hf hmem]
    exact hl

end Reply

/-- A reply that says that the PLC has started: no error, and function `0x28`. -/
def started : Frame :=
  [0x03, 0x00, 0x00, 0x15, 0x02, 0xF0, 0x80, 0x32, 0x03, 0x00, 0x00, 0x00, 0x01, 0x00, 0x02, 0x00,
    0x00, 0x00, 0x00, 0x28, 0x00]

theorem ackData_started : AckData started false 0 0 :=
  ⟨rfl, ⟨_, rfl, by decide, by decide⟩, rfl, rfl⟩

theorem control_reply_started :
    (∀ (cl : S7Client) (p : Client Unit) (tr : List (Event Frame Frame S7Error)) (x : S7Result Unit),
      Control cl 0x28 0x02 p → Follows p.run tr x → started ∈ answers tr →
        ByLayout started false 0 0 0x28 0x02 x) ↔
    (0 : UInt8) ≠ 0x28 ∧ ¬ Positive started false 0 0 0x28 :=
  control_reply_iff ackData_started (Or.inl ⟨rfl, rfl⟩)

/-- **A start that succeeds is reported as the PLC's error `0`.** -/
theorem control_reply_refuted :
    ¬ ∀ (f : Frame) (flag : Bool) (cls code fn already : UInt8), AckData f flag cls code →
      fn = 0x28 ∧ already = 0x02 ∨ fn = 0x29 ∧ already = 0x07 →
      ∀ (cl : S7Client) (p : Client Unit) (tr : List (Event Frame Frame S7Error))
        (x : S7Result Unit), Control cl fn already p → Follows p.run tr x → f ∈ answers tr →
          ByLayout f flag cls code fn already x := by
  intro h
  have hp : Control { S7Client.new with connected := true } 0x28 0x02 _ := .start
  obtain ⟨tr, hf, hmem⟩ := hp.follows rfl started
  have hl := h _ _ _ _ _ _ ackData_started (Or.inl ⟨rfl, rfl⟩) _ _ _ _ hp hf hmem
  exact ((byLayout_iff ackData_started (by decide)).mp hl).2 ⟨rfl, rfl, rfl, rfl⟩

end MoonS7
