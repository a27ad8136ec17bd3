import MoonS7.Client.ShortReads
import MoonS7.Transport.Traces

/-!
# Error replies

An error reply has the error flag in its message type, or an error class and code behind the
header. `parse_response` tests the flag and neither byte of the class and code; the check of a
write reply and `parse_setup_resp` test neither flag nor bytes.

Main result: `error_reply_iff` -- for every error frame, exactly when each of the three paths
rejects it; all three do only if it has fewer than 22 bytes. `error_reply_refuted` is a write that
succeeds on a reply with the error flag.
-/

namespace MoonS7

open Interaction Port Ranges

/-! ## 1. Frames -/

/-- A frame with a header at index 7 that says that the request failed: with the error flag, or
    as Ack-Data with an error class or code. -/
def ErrorFrame (f : Frame) : Prop :=
  isHeader msgType f 7 = true ∧ ∃ mt, f[8]? = some mt ∧
    (errorFlag mt = true ∨
      mt = 0x03 ∧ ∃ cls code, f[17]? = some cls ∧ f[18]? = some code ∧ (cls ≠ 0 ∨ code ≠ 0))

/-- No read that succeeds has taken `f` as an answer. -/
def ReadsReject (f : Frame) : Prop :=
  ∀ (cl : S7Client) (area : Area) (start size : Int32) (p : Client (List UInt8))
    (tr : List (Event Frame Frame S7Error)) (bs : List UInt8),
    ByteRead cl start size area p → Follows p.run tr (.ok bs) → f ∉ answers tr

/-- No write that succeeds has taken `f` as an answer. -/
def WritesReject (f : Frame) : Prop :=
  (∀ (cl : S7Client) (items : List WriteItem) (tr : List (Event Frame Frame S7Error)),
    Follows (execWrite cl items).run tr (.ok ()) → f ∉ answers tr) ∧
  ∀ (cl : S7Client) (area : Area) (start : Int32) (data : List UInt8) (p : Client Unit)
    (tr : List (Event Frame Frame S7Error)),
    ByteWrite cl start data area p → Follows p.run tr (.ok ()) → f ∉ answers tr

/-- No PDU size is taken from `f`. -/
def SetupRejects (f : Frame) : Prop := ∀ n, parseSetupResp f ≠ .ok n

/-! ## 2. The three paths -/

theorem readCheck_ok_iff {f : Frame} :
    (∃ b, readCheck f = .ok b) ↔ ∃ s7, ReadReply f s7 := by
  rcases parseResponse_cases f with ⟨s7, h, hp⟩ | ⟨⟨e, hp⟩, h⟩
  · exact ⟨fun _ => ⟨s7, h⟩, fun _ => ⟨_, by rw [readCheck, hp]; rfl⟩⟩
  · constructor
    · rintro ⟨b, hb⟩
      rw [readCheck, hp] at hb
      cases hb
    · rintro ⟨s7, hs⟩
      exact absurd hs (h s7)

/-- Two bytes in two chunks, the first answered with `f`. -/
theorem follows_two_chunks {f : Frame} {b : List UInt8} (hf : readCheck f = .ok b) :
    ∃ tr bs, Follows (S7Client.mbRead { S7Client.new with connected := true, pduSize := 24 } 0 2).run
      tr (.ok bs) ∧ f ∈ answers tr := by
  have hreqs : ∃ q₁ q₂ : Frame,
      readReqs { S7Client.new with connected := true, pduSize := 24 } .flags 0 2 =
        [.ok q₁, .ok q₂] := by
    rw [readReqs, cuts_pos _ _ (by decide), cuts_single _ (by decide) (by decide)]
    exact ⟨_, _, rfl⟩
  obtain ⟨q₁, q₂, hreqs⟩ := hreqs
  refine ⟨[Event.sent q₁ (.ok ()), Event.got (.ok f), Event.sent q₂ (.ok ()), Event.got (.ok twoBytes)],
    b ++ [0xAA, 0xBB], ?_, List.mem_cons_self⟩
  rw [S7Client.mbRead, chunkedRead_eq rfl, hreqs]
  refine follows_ofResult_iff.mpr ⟨_, follows_session_iff.mpr
    (.accepted _ hf (.accepted _ readCheck_twoBytes .done)), ?_⟩
  show _ = if [b, [0xAA, 0xBB]].flatten.length = 0 then _ else Except.ok [b, [0xAA, 0xBB]].flatten
  rw [if_neg (by simp)]
  simp

/-- **The read path** takes exactly the frames that `parse_response` takes. -/
theorem readsReject_iff {f : Frame} : ReadsReject f ↔ ¬ ∃ s7, ReadReply f s7 := by
  constructor
  · intro h hr
    obtain ⟨b, hb⟩ := readCheck_ok_iff.mpr hr
    obtain ⟨tr, bs, hfol, hmem⟩ := follows_two_chunks hb
    exact h _ _ 0 2 _ tr bs .mb hfol hmem
  · intro h cl area start size p tr bs hp hfol hmem
    cases hcheck : readCheck f with
    | ok b => exact h (readCheck_ok_iff.mp ⟨b, hcheck⟩)
    | error d => cases hp.of_rejected hfol hmem hcheck

/-- **The write path** takes exactly the frames with `0xFF` fourteen places behind the header. -/
theorem writesReject_iff {f : Frame} : WritesReject f ↔ ¬ WriteReply f := by
  constructor
  · rintro ⟨h, -⟩ hw
    obtain ⟨q, hq⟩ : ∃ q, buildWritePdu [WriteItem.new .flags 0 (.byteArray 1) [0]] 1 = .ok q := by
      rw [buildWritePdu_bytes _ _ _ _ (by decide), if_pos (by decide)]
      exact ⟨_, rfl⟩
    refine h S7Client.new [WriteItem.new .flags 0 (.byteArray 1) [0]]
      [Event.sent q (.ok ()), Event.got (.ok f)] ?_ List.mem_cons_self
    rw [execWrite_eq]
    show Follows (transact Stop.err writeReply (buildWritePdu _ 1)).run _ _
    rw [hq]
    exact follows_transact_iff.mpr (Or.inr (Or.inr ⟨f, rfl, (writeReply_ok_iff.mpr hw).symm⟩))
  · refine fun h => ⟨fun cl items tr hfol hmem => h ?_, fun cl area start data p tr hp hfol hmem => h ?_⟩
    · obtain ⟨a, ha, hok⟩ := execWrite_follows_ok hfol
      rw [ha] at hmem
      cases List.mem_singleton.mp hmem
      exact writeReply_ok_iff.mp hok
    · cases hcheck : writeReply f with
      | ok u => exact writeReply_ok_iff.mp hcheck
      | error d => cases hp.of_rejected hfol hmem hcheck

/-- **The setup path** takes every frame with a header, from 22 bytes on. -/
theorem setupRejects_iff {f : Frame} (h : isHeader msgType f 7 = true) :
    SetupRejects f ↔ f.length < 22 := by
  constructor
  · intro hs
    by_contra hlen
    obtain ⟨s7, hf, -⟩ := findHeader_of_isHeader h
    rcases parseSetupResp_eq hf (Nat.le_of_not_lt hlen) with ⟨-, he⟩ | ⟨_, _, -, -, -, he⟩
    · exact hs _ he
    · exact hs _ he
  · intro hlen n hn
    rw [parseSetupResp_short hlen] at hn
    cases hn

/-! ## 3. When no path takes an error frame -/

/-- The header of a frame with its length in the third and fourth byte is not among these. -/
theorem TpktFrame.four_le {f : Frame} (ht : TpktFrame f) (hlen : f.length < 22) {s7 : Nat}
    (hs : findS7 f = some s7) : 4 ≤ s7 := by
  obtain ⟨b, hi, lo, body, rfl, hl⟩ := ht
  have hh := (findHeader_eq_some_iff.mp hs).1
  have h50 : ∀ c : UInt8, c.toNat < 22 → c ≠ pid := by
    rintro c hc rfl
    exact absurd hc (by decide)
  have hhi : hi = 0 := UInt8.toNat.inj (by show hi.toNat = 0; omega)
  by_contra hlt
  have hs : s7 = 0 ∨ s7 = 1 ∨ s7 = 2 ∨ s7 = 3 := by omega
  obtain ⟨hp, mt, hmt, hok⟩ := isHeader_iff.mp hh
  rcases hs with rfl | rfl | rfl | rfl
  · cases hp
  · cases hmt
    rw [hhi] at hok
    revert hok
    decide
  · exact h50 hi (by omega) (Option.some.inj hp)
  · exact h50 lo (by omega) (Option.some.inj hp)

/-- A frame shorter than 22 bytes is too short for a read. -/
theorem TpktFrame.not_readReply {f : Frame} (ht : TpktFrame f) (hlen : f.length < 22) (s7 : Nat) :
    ¬ ReadReply f s7 := fun hr => by
  have := ht.four_le hlen hr.header
  have := hr.length
  omega

section Header

variable {f : Frame} {s7 : Nat} (hs : findS7 f = some s7)

include hs

/-- What a read rejects, by the place of the header. -/
theorem readsReject_at_iff : ReadsReject f ↔
    (∃ mt, f[s7 + 1]? = some mt ∧ errorFlag mt = true) ∨ f.length < s7 + 18 ∨
      f[s7 + 14]? ≠ some 0xFF := by
  obtain ⟨mt, hmt, -⟩ := byteAt_of_lt (lt_of_findS7 hs)
  rw [readsReject_iff]
  constructor
  · intro h
    by_contra hno
    obtain ⟨hflag, hl, hff⟩ : (¬ ∃ mt, f[s7 + 1]? = some mt ∧ errorFlag mt = true) ∧
        ¬ f.length < s7 + 18 ∧ f[s7 + 14]? = some 0xFF := by
      simpa only [not_or, not_not] using hno
    exact h ⟨s7, hs, ⟨mt, hmt, Bool.eq_false_iff.mpr fun hf => hflag ⟨mt, hmt, hf⟩⟩, by omega, hff⟩
  · rintro h ⟨s, hrep⟩
    cases hs.symm.trans hrep.header
    rcases h with ⟨mt', h₁, h₂⟩ | h | h
    · obtain ⟨mt'', h₃, h₄⟩ := hrep.noFlag
      cases h₁.symm.trans h₃
      cases h₂.symm.trans h₄
    · exact absurd hrep.length (Nat.not_le_of_lt h)
    · exact h hrep.code

/-- What a write rejects, by the place of the header. -/
theorem writesReject_at_iff : WritesReject f ↔ f[s7 + 14]? ≠ some 0xFF := by
  rw [writesReject_iff]
  refine not_congr ⟨?_, fun h => ⟨s7, hs, h⟩⟩
  rintro ⟨s, h₁, h₂⟩
  cases hs.symm.trans h₁
  exact h₂

end Header

/-- **Which error frames each path rejects**: a read those with the error flag, and those that
    are too short or have another return code than `0xFF`; a write only the last of these; the
    setup only those of fewer than 22 bytes. -/
theorem error_reply_iff {f : Frame} (ht : TpktFrame f) (he : ErrorFrame f) :
    ∃ s7, s7 ≤ 7 ∧ findS7 f = some s7 ∧
      (ReadsReject f ↔ (∃ mt, f[s7 + 1]? = some mt ∧ errorFlag mt = true) ∨
        f.length < s7 + 18 ∨ f[s7 + 14]? ≠ some 0xFF) ∧
      (WritesReject f ↔ f[s7 + 14]? ≠ some 0xFF) ∧
      (SetupRejects f ↔ f.length < 22) ∧
      (ReadsReject f ∧ WritesReject f ∧ SetupRejects f ↔
        f.length < 22 ∧ f[s7 + 14]? ≠ some 0xFF) ∧
      (s7 = 7 → (ReadsReject f ∧ WritesReject f ∧ SetupRejects f ↔ f.length < 22)) := by
  obtain ⟨s7, hs, hle⟩ := findHeader_of_isHeader he.1
  have hw := writesReject_at_iff hs
  have hset := setupRejects_iff he.1
  have hall : ReadsReject f ∧ WritesReject f ∧ SetupRejects f ↔
      f.length < 22 ∧ f[s7 + 14]? ≠ some 0xFF := by
    rw [hw, hset]
    refine ⟨fun ⟨_, h₁, h₂⟩ => ⟨h₂, h₁⟩, fun ⟨h₁, h₂⟩ => ⟨?_, h₂, h₁⟩⟩
    exact readsReject_iff.mpr fun ⟨s, hrep⟩ => ht.not_readReply h₁ s hrep
  refine ⟨s7, hle, hs, readsReject_at_iff hs, hw, hset, hall, ?_⟩
  rintro rfl
  rw [hall]
  refine ⟨fun h => h.1, fun h => ⟨h, ?_⟩⟩
  rw [List.getElem?_eq_none (Nat.le_of_lt_succ h)]
  nofun

/-- A reply with the error flag, error `0x8504`, and `0xFF` for its last byte. -/
def flagged : Frame :=
  [0x03, 0x00, 0x00, 0x16, 0x02, 0xF0, 0x80, 0x32, 0x83, 0x00, 0x00, 0x00, 0x01, 0x00, 0x02, 0x00,
    0x01, 0x85, 0x04, 0x05, 0x01, 0xFF]

theorem tpktFrame_flagged : TpktFrame flagged := ⟨_, _, _, _, rfl, rfl⟩

theorem errorFrame_flagged : ErrorFrame flagged := ⟨by decide, _, rfl, Or.inl (by decide)⟩

/-- The reads reject it and the other two paths do not. -/
theorem error_reply_flagged : ∃ s7, s7 ≤ 7 ∧ findS7 flagged = some s7 ∧
    (ReadsReject flagged ↔ (∃ mt, flagged[s7 + 1]? = some mt ∧ errorFlag mt = true) ∨
      flagged.length < s7 + 18 ∨ flagged[s7 + 14]? ≠ some 0xFF) ∧
    (WritesReject flagged ↔ flagged[s7 + 14]? ≠ some 0xFF) ∧
    (SetupRejects flagged ↔ flagged.length < 22) ∧
    (ReadsReject flagged ∧ WritesReject flagged ∧ SetupRejects flagged ↔
      flagged.length < 22 ∧ flagged[s7 + 14]? ≠ some 0xFF) ∧
    (s7 = 7 → (ReadsReject flagged ∧ WritesReject flagged ∧ SetupRejects flagged ↔
      flagged.length < 22)) :=
  error_reply_iff tpktFrame_flagged errorFrame_flagged

/-- **An error reply taken for success**: a write accepts it. -/
theorem error_reply_refuted :
    ¬ ∀ f : Frame, TpktFrame f → ErrorFrame f →
      ReadsReject f ∧ WritesReject f ∧ SetupRejects f := by
  intro h
  obtain ⟨-, hw, -⟩ := h flagged tpktFrame_flagged errorFrame_flagged
  exact writesReject_iff.mp hw ⟨7, by decide +kernel, rfl⟩

end MoonS7
