import MoonS7.Client.Operations
import MoonS7.Client.ShortReads

/-!
# Which answers an operation takes

Every operation sends a request and takes the next frame of the connection for its answer; the PDU
reference of the frame is not looked at, and a receive that has timed out leaves its answer to
come.

Main result: `responses_matched_iff` -- in every run, a read that returns a value has decoded the
answers it has taken, and these answer its own requests exactly if no receive had timed out before
it; likewise the acknowledgements of a write. `responses_matched_refuted` is a read that returns
the answer to the read before it.
-/

namespace MoonS7

open Interaction Port Ranges

/-! ## 1. The operations talk in exchanges -/

theorem paired_read (cl : S7Client) (area : Area) (start size : Int32) {α : Type}
    (dec : List UInt8 → S7Result α) :
    Paired Stop.err (chunkedRead cl area start size >>= fun b => ofResult (dec b)) := by
  refine Paired.bind ?_ fun b => .done (dec b)
  cases hc : cl.connected with
  | false =>
    rw [chunkedRead_not_connected hc]
    exact .done _
  | true =>
    rw [chunkedRead_eq hc]
    exact (paired_session _).bind fun bs => .done _

theorem ValueRead.paired {cl : S7Client} {start size : Int32} {area : Area} {α : Type}
    {dec : List UInt8 → S7Result α} {p : Client α} (h : ValueRead cl start area size dec p) :
    Paired Stop.err p := by
  rw [h.eq]
  exact paired_read cl area start size dec

theorem paired_write (cl : S7Client) (area : Area) (start : Int32) (data : List UInt8) :
    Paired Stop.err (chunkedWrite cl area start data) := by
  cases hc : cl.connected with
  | false =>
    rw [chunkedWrite_not_connected hc]
    exact .done _
  | true =>
    rw [chunkedWrite_eq hc]
    exact (paired_session _).bind fun bs => .done _

theorem paired_execWrite (cl : S7Client) (items : List WriteItem) :
    Paired Stop.err (execWrite cl items) := by
  rw [execWrite_eq]
  exact Paired.bind (.done _) fun q => .exchange fun a => .done _

/-! ## 2. What an operation that returns a value has taken -/

/-- A read that returns a value has decoded the payloads of its answers, of which there is one at
    least. -/
theorem read_follows_ok {cl : S7Client} {start size : Int32} {area : Area} {α : Type}
    {dec : List UInt8 → S7Result α} {tr : List (Event Frame Frame S7Error)} {v : α}
    (hf : Follows (chunkedRead cl area start size >>= fun b => ofResult (dec b) : Client α).run tr
      (.ok v)) :
    dec ((answers tr).flatMap payload) = .ok v ∧ answers tr ≠ [] := by
  obtain ⟨y, hr, hy⟩ := follows_ofResult_iff.mp hf
  cases y with
  | error d => cases hy
  | ok b =>
    cases hc : cl.connected with
    | false =>
      rw [chunkedRead_not_connected hc] at hr
      obtain ⟨hx, -⟩ := follows_ret_iff.mp hr
      cases hx
    | true =>
      rcases chunkedRead_outcome hc hr with ⟨-, e, hx⟩ | ⟨-, -, hx⟩
      · cases hx
      · split at hx
        · cases hx
        · rename_i h0
          cases hx
          refine ⟨hy.symm, fun hnil => h0 ?_⟩
          rw [hnil]
          rfl

/-- A write that succeeds has taken no answer exactly if there is nothing to write. -/
theorem write_follows_ok {cl : S7Client} {start : Int32} {area : Area} {data : List UInt8}
    {tr : List (Event Frame Frame S7Error)}
    (hf : Follows (chunkedWrite cl area start data).run tr (.ok ())) :
    answers tr = [] ↔ data = [] := by
  rcases follows_chunkedWrite hf with ⟨-, -, hx⟩ | ⟨-, y, hs, hy⟩
  · cases hx
  · cases y with
    | error d => cases hy
    | ok bs =>
      obtain ⟨-, hacc, hlen⟩ := hs.ok
      have hn : (answers tr).length = (cuts (maxChunk cl.pduSize 35) 0 data.length).length := by
        have := congrArg List.length hacc
        rw [List.length_map, List.length_map, hlen, writeReqs, List.length_map] at this
        exact this
      rw [← List.length_eq_zero_iff, hn, List.length_eq_zero_iff]
      constructor
      · intro h0
        by_contra hne
        rw [cuts_pos _ _ (List.length_pos_iff.mpr hne)] at h0
        cases h0
      · rintro rfl
        exact cuts_zero _ _

/-! ## 3. When the answers are those to the operation's own requests -/

section Runs

variable {π : Type} {serve : π → Frame → Frame → π → Prop} {s₀ : π} {L : Link Frame Frame π}
  (hL : Reaches (ε := S7Error) serve Stop.err s₀ L)

include hL

theorem read_matched_iff {cl : S7Client} {start size : Int32} {area : Area} {α : Type}
    {dec : List UInt8 → S7Result α} {v : α} {L' : Link Frame Frame π}
    (h : Exec (linkStep serve) (chunkedRead cl area start size >>= fun b => ofResult (dec b) : Client α).run
      L (.ok v) L') :
    dec ((L'.got.drop L.got.length).flatMap payload) = .ok v ∧ (Matched L L' ↔ L.late = 0) := by
  have hp := paired_read cl area start size dec
  obtain ⟨-, -, -, tr, hf, -, hgot⟩ := paired_takes hp hL h
  obtain ⟨hdec, hne⟩ := read_follows_ok hf
  refine ⟨?_, ?_⟩
  · rw [hgot, List.drop_append_of_le_length (Nat.le_refl _), List.drop_length, List.nil_append]
    exact hdec
  · have hpos := List.length_pos_iff.mpr hne
    rw [matched_iff hp hL h, hgot, List.length_append]
    omega

theorem write_matched_iff {cl : S7Client} {start : Int32} {area : Area} {data : List UInt8}
    {L' : Link Frame Frame π}
    (h : Exec (linkStep serve) (chunkedWrite cl area start data).run L (.ok ()) L') :
    Matched L L' ↔ L.late = 0 ∨ data = [] := by
  have hp := paired_write cl area start data
  obtain ⟨-, -, -, tr, hf, -, hgot⟩ := paired_takes hp hL h
  rw [matched_iff hp hL h, ← write_follows_ok hf, hgot, List.length_append, ← List.length_eq_zero_iff]
  omega

/-- The write of a STRING field returns the bytes it has written. -/
theorem writeString_matched_iff {cl : S7Client} {db start maxLen : Int32} {value : Text}
    {bs : List UInt8} {L' : Link Frame Frame π}
    (h : Exec (linkStep serve) (cl.agWriteString db start maxLen value).run L (.ok bs) L') :
    Matched L L' ↔ L.late = 0 ∨ bs = [] := by
  rw [agWriteString_eq] at h
  have hp := (paired_write cl (.db db) start (StringField.new db start maxLen value).toBytes).bind fun _ =>
    .done (.ok (StringField.new db start maxLen value).toBytes)
  obtain ⟨-, -, -, tr, hf, -, hgot⟩ := paired_takes hp hL h
  obtain ⟨y, hr, hy⟩ := follows_ofResult_iff.mp hf
  cases y with
  | error d => cases hy
  | ok u =>
    cases hy
    rw [matched_iff hp hL h, ← write_follows_ok hr, hgot, List.length_append, ← List.length_eq_zero_iff]
    omega

theorem execWrite_matched_iff {cl : S7Client} {items : List WriteItem} {L' : Link Frame Frame π}
    (h : Exec (linkStep serve) (execWrite cl items).run L (.ok ()) L') :
    Matched L L' ↔ L.late = 0 := by
  obtain ⟨-, -, -, tr, hf, -, hgot⟩ := paired_takes (paired_execWrite cl items) hL h
  obtain ⟨a, ha, -⟩ := execWrite_follows_ok hf
  rw [matched_iff (paired_execWrite cl items) hL h, hgot, ha, List.length_append,
    List.length_singleton]
  omega

/-- **When responses are matched**, in every run of operations with a server that answers each
    request once and in order, whatever receives have timed out. -/
theorem responses_matched_iff (cl : S7Client) :
    (∀ {α : Type} (start size : Int32) (area : Area) (dec : List UInt8 → S7Result α) (p : Client α)
      (v : α) (L' : Link Frame Frame π), ValueRead cl start area size dec p →
      Exec (linkStep serve) p.run L (.ok v) L' →
      dec ((L'.got.drop L.got.length).flatMap payload) = .ok v ∧ (Matched L L' ↔ L.late = 0)) ∧
    (∀ (start : Int32) (area : Area) (data : List UInt8) (p : Client Unit)
      (L' : Link Frame Frame π), ValueWrite cl start area data p →
      Exec (linkStep serve) p.run L (.ok ()) L' → (Matched L L' ↔ L.late = 0 ∨ data = [])) ∧
    (∀ (items : List WriteItem) (L' : Link Frame Frame π),
      Exec (linkStep serve) (execWrite cl items).run L (.ok ()) L' →
      (Matched L L' ↔ L.late = 0)) ∧
    (∀ (takes : Int32 → Bool) (db start maxLen : Int32) (v : Text) (L' : Link Frame Frame π),
      Exec (linkStep serve) (cl.agReadString takes db start maxLen).run L (.ok v) L' →
      decodeS7String takes ((L'.got.drop L.got.length).flatMap payload) = .ok v ∧
        (Matched L L' ↔ L.late = 0)) ∧
    (∀ (db start maxLen : Int32) (value : Text) (bs : List UInt8) (L' : Link Frame Frame π),
      Exec (linkStep serve) (cl.agWriteString db start maxLen value).run L (.ok bs) L' →
      (Matched L L' ↔ L.late = 0 ∨ bs = [])) := by
  refine ⟨fun start size area dec p v L' hp h => ?_, fun start area data p L' hp h => ?_,
    fun items L' h => execWrite_matched_iff hL h, fun takes db start maxLen v L' h => ?_,
    fun db start maxLen value bs L' h => writeString_matched_iff hL h⟩
  · rw [hp.eq] at h
    exact read_matched_iff hL h
  · rw [hp.eq] at h
    exact write_matched_iff hL h
  · rw [agReadString_eq] at h
    exact read_matched_iff hL h

end Runs

/-! ## 4. The answer to an earlier request -/

/-- A server that answers every request with the same two bytes. -/
def sameTwo (_ : Unit) (_ : Frame) (a : Frame) (_ : Unit) : Prop := a = twoBytes

/-- A connected client, and its request for two bytes. -/
def connectedClient : S7Client := { S7Client.new with connected := true }

def askTwo (area : Area) : Frame := readFrame area 0 2 1

theorem follows_askTwo {area : Area} {p : Client (List UInt8)}
    (hp : ByteRead connectedClient 0 2 area p) {r : Except S7Error Frame} {x : S7Result (List UInt8)}
    (hr : ∀ f, r = .ok f → f = twoBytes)
    (hx : x = (r.mapError Stop.err).bind fun _ => .ok [0xAA, 0xBB]) :
    Follows p.run [Event.sent (askTwo area) (.ok ()), Event.got r] x := by
  have hreqs : readReqs connectedClient area 0 2 = [.ok (askTwo area)] :=
    readReqs_one (by decide) (by decide)
  rw [hp.eq, chunkedRead_eq rfl, hreqs]
  refine follows_ofResult_iff.mpr ?_
  cases r with
  | error e => exact ⟨_, follows_session_iff.mpr (.unanswered _ _ e), hx⟩
  | ok f =>
    cases hr f rfl
    exact ⟨_, follows_session_iff.mpr (.accepted _ readCheck_twoBytes .done), hx⟩

/-- After a read whose answer has not come in time. -/
def afterTimeout : Link Frame Frame Unit := ⟨[askTwo (.db 1)], [], [], 1, ()⟩

/-- After the read that follows: the answer to the first is there, and taken. -/
def afterStale : Link Frame Frame Unit :=
  ⟨[askTwo (.db 1), askTwo .flags], [twoBytes], [twoBytes], 1, ()⟩

theorem reaches_afterTimeout : Reaches (ε := S7Error) sameTwo Stop.err () afterTimeout := by
  have hf := follows_askTwo (.ag 1) (r := .error (.timeout "read timeout")) nofun rfl
  refine .op .start (ValueRead.bytes (.ag 1)).paired (exec_iff_path.mpr ⟨_, hf, ?_⟩)
  exact .cons ⟨_, .refl, .send _ _⟩ (.cons ⟨_, .refl, .giveUp _ _⟩ (.nil _))

theorem exec_afterStale :
    Exec (linkStep sameTwo) (connectedClient.mbRead 0 2).run afterTimeout (.ok [0xAA, 0xBB])
      afterStale := by
  refine exec_iff_path.mpr ⟨_, follows_askTwo .mb (r := .ok twoBytes) ?_ rfl, ?_⟩
  · intro f hf
    exact (Except.ok.inj hf).symm
  · exact .cons ⟨_, .refl, .send _ _⟩
      (.cons ⟨_, .single (.answer rfl rfl), .receive rfl⟩ (.nil _))

/-- The condition at the second of the two reads, where it fails. -/
theorem responses_matched_afterStale :
    Except.ok ((afterStale.got.drop afterTimeout.got.length).flatMap payload) =
        (.ok [0xAA, 0xBB] : S7Result (List UInt8)) ∧
      (Matched afterTimeout afterStale ↔ afterTimeout.late = 0) :=
  (responses_matched_iff reaches_afterTimeout connectedClient).1 0 2 _ _ _ _ _ (.bytes .mb)
    exec_afterStale

/-- **The answer to an earlier request**: a read of flags returns the bytes of a data block. -/
theorem responses_matched_refuted :
    ¬ ∀ (π : Type) (serve : π → Frame → Frame → π → Prop) (s₀ : π) (L L' : Link Frame Frame π)
      (cl : S7Client) (start size : Int32) (area : Area) (p : Client (List UInt8)) (bs : List UInt8),
      Reaches (ε := S7Error) serve Stop.err s₀ L → ByteRead cl start size area p →
      Exec (linkStep serve) p.run L (.ok bs) L' → Matched L L' := by
  intro h
  have hm := h _ _ _ _ _ _ _ _ _ _ _ reaches_afterTimeout .mb exec_afterStale
  have := (hm.own 0 twoBytes (Nat.zero_le _) rfl).2.1
  revert this
  decide

end MoonS7
