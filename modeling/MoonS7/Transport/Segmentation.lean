import MoonS7.Lib.Segments
import MoonS7.Transport.Wire

/-!
# Frames in segments

TCP delivers the bytes of a peer in segments, which have nothing to do with its frames.
`read_exactly` of the socket library puts them together again, and `read_tpkt` reads nothing in
another way.

Main results: `run_readTpkt_frame`, one frame from whatever segments it came in;
`readTpkt_segments` -- the frames of a stream are read in order, whatever its segments are.
-/

namespace MoonS7

open Interaction Segments

/-! ## 1. A socket that has received segments -/

/-- The replies of a socket to which the peer has sent `segs` and nothing more. A read behind the
    end of the stream uses up what is left of it. -/
def onSegments : (c : SockCall) → List (List UInt8) → SockReply c × List (List UInt8)
  | .connectToHost _ _, segs => ((.value ⟨0⟩ : Await Socket), segs)
  | .write _ _, segs => ((.value () : Await Unit), segs)
  | .readExactly _ n, segs =>
    match readExactly n segs with
    | some (v, segs') =>
      if h : v.length = n then ((.value ⟨v.toArray, h⟩ : Await (Vector UInt8 n)), segs')
      else ((.raised "ReaderClosed" : Await (Vector UInt8 n)), [])
    | none => ((.raised "ReaderClosed" : Await (Vector UInt8 n)), [])
  | .close _, segs => ((() : Unit), segs)

/-- `n` calls of `read_tpkt`, one after the other. -/
def readFrames (sock : Socket) : Nat → Task (List (Except S7Error Frame))
  | 0 => return []
  | n + 1 => do
    let r ← readTpkt sock
    let rs ← readFrames sock n
    return r :: rs

section Reads

variable (sock : Socket) {n : Nat} {segs : List (List UInt8)}

theorem onSegments_value {v : Vector UInt8 n} {rest : List UInt8}
    (h : segs.flatten = v.toList ++ rest) :
    ∃ segs', onSegments (.readExactly sock n) segs = ((.value v : Await (Vector UInt8 n)), segs') ∧
      segs'.flatten = rest := by
  obtain ⟨segs', hs, hrest⟩ := readExactly_some h Vector.length_toList
  refine ⟨segs', ?_, hrest⟩
  simp only [onSegments, hs, Vector.length_toList, dif_pos]
  rfl

theorem onSegments_raised (h : segs.flatten.length < n) :
    onSegments (.readExactly sock n) segs =
      ((.raised "ReaderClosed" : Await (Vector UInt8 n)), []) := by
  simp only [onSegments, readExactly_none h]

/-- What `read_tpkt` does along the replies of the socket is what it returns. -/
theorem run_readTpkt {tr : List SockEvent} {y : Except Interrupt (Except S7Error Frame)}
    {segs' : List (List UInt8)} (h : TpktRead sock tr y)
    (hp : Path (fun c s r s' => onSegments c s = (r, s')) segs tr segs') :
    run onSegments (readTpkt sock).run segs = (y, segs') :=
  exec_run_iff.mp (exec_iff_path.mpr ⟨tr, follows_readTpkt_iff.mpr h, hp⟩)

/-- **A frame is read** from any segments, and nothing behind it. -/
theorem run_readTpkt_frame {f : Frame} (hf : TpktFrame f) {rest : List UInt8}
    (h : segs.flatten = f ++ rest) :
    ∃ segs', run onSegments (readTpkt sock).run segs = (.ok (.ok f), segs') ∧
      segs'.flatten = rest := by
  obtain ⟨hdr, body, hh, rfl⟩ := tpktFrame_iff.mp hf
  rw [List.append_assoc] at h
  obtain ⟨segs₁, h₁, hflat₁⟩ := onSegments_value sock h
  obtain ⟨segs₂, h₂, hflat₂⟩ := onSegments_value sock hflat₁
  exact ⟨segs₂, run_readTpkt sock (.frame hdr body hh) (.cons h₁ (.cons h₂ (.nil _))), hflat₂⟩

/-- **The beginning of a frame** is a closed connection: its header or its body is missing. -/
theorem run_readTpkt_tail {f : Frame} (hf : TpktFrame f) (hpre : segs.flatten <+: f)
    (hne : segs.flatten ≠ f) :
    run onSegments (readTpkt sock).run segs = (.ok (.error .connectionClosed), []) := by
  obtain ⟨rest, hrest⟩ := hpre
  by_cases h4 : segs.flatten.length < 4
  · exact run_readTpkt sock (.noHeader "ReaderClosed") (.cons (onSegments_raised sock h4) (.nil _))
  · obtain ⟨hdr, body, hh, rfl⟩ := tpktFrame_iff.mp hf
    have hlen := congrArg List.length hrest
    simp only [List.length_append, Vector.length_toList] at hlen
    -- the stream is the header and a part of the body
    obtain ⟨part, hpart⟩ : hdr.toList <+: segs.flatten :=
      List.prefix_of_prefix_length_le (List.prefix_append _ _) ⟨rest, hrest⟩
        (by rw [Vector.length_toList]; omega)
    have hpl := congrArg List.length hpart
    rw [List.length_append, Vector.length_toList] at hpl
    have hshort : part.length < bodyLength hdr := by
      by_contra hlong
      have hnil : rest = [] := List.length_eq_zero_iff.mp (by omega)
      rw [hnil, List.append_nil] at hrest
      exact hne hrest
    obtain ⟨segs₁, h₁, hflat₁⟩ := onSegments_value sock hpart.symm
    rw [← hflat₁] at hshort
    exact run_readTpkt sock (.noBody hdr "ReaderClosed" hh)
      (.cons h₁ (.cons (onSegments_raised sock hshort) (.nil _)))

/-- **A header that is none** is an invalid PDU, whatever is behind it. -/
theorem run_readTpkt_bad {a b c d : UInt8} {rest : List UInt8}
    (h : segs.flatten = a :: b :: c :: d :: rest) (hbad : a ≠ 0x03 ∨ c.toNat * 256 + d.toNat < 4) :
    ∃ m segs', run onSegments (readTpkt sock).run segs = (.ok (.error (.invalidPdu m)), segs') := by
  obtain ⟨segs₁, h₁, -⟩ := onSegments_value sock (v := #v[a, b, c, d]) h
  by_cases ha : a = 0x03
  · have hl : tpktLength #v[a, b, c, d] < 4 := hbad.resolve_left (not_not_intro ha)
    exact ⟨_, segs₁, run_readTpkt sock (.badLength #v[a, b, c, d] ha hl) (.cons h₁ (.nil _))⟩
  · exact ⟨_, segs₁, run_readTpkt sock (.badVersion #v[a, b, c, d] ha) (.cons h₁ (.nil _))⟩

/-! ## 2. Streams of frames -/

/-- The frames of a stream and the beginning of one more, in order. -/
theorem run_readFrames {frames : List Frame} (hf : ∀ f ∈ frames, TpktFrame f) {g tail : Frame}
    (hg : TpktFrame g) (hpre : tail <+: g) (hne : tail ≠ g)
    (h : segs.flatten = frames.flatten ++ tail) :
    run onSegments (readFrames sock (frames.length + 1)).run segs =
      (.ok (frames.map Except.ok ++ [.error .connectionClosed]), []) := by
  induction frames generalizing segs with
  | nil =>
    rw [List.flatten_nil, List.nil_append] at h
    rw [← h] at hpre hne
    exact run_op_ok onSegments (run_readTpkt_tail sock hg hpre hne) _
  | cons f frames ih =>
    rw [List.flatten_cons, List.append_assoc] at h
    obtain ⟨segs', hrun, hrest⟩ := run_readTpkt_frame sock (hf f List.mem_cons_self) h
    have hfs := ih (fun f' hf' => hf f' (List.mem_cons_of_mem _ hf')) hrest
    rw [List.length_cons, readFrames, run_op_ok onSegments hrun, run_op_ok onSegments hfs]
    rfl

end Reads

/-- **Framing does not depend on the segments**: the frames of a stream are read in order, then the
    connection is closed; and a header that is none is an invalid PDU. -/
theorem readTpkt_segments (sock : Socket) :
    (∀ (frames : List Frame) (g tail : Frame) (segs : List (List UInt8)),
      (∀ f ∈ frames, TpktFrame f) → TpktFrame g → tail <+: g → tail ≠ g →
      segs.flatten = frames.flatten ++ tail →
      (run onSegments (readFrames sock (frames.length + 1)).run segs).1 =
        .ok (frames.map Except.ok ++ [.error .connectionClosed])) ∧
    ∀ (a b c d : UInt8) (rest : List UInt8) (segs : List (List UInt8)),
      segs.flatten = a :: b :: c :: d :: rest → a ≠ 0x03 ∨ c.toNat * 256 + d.toNat < 4 →
      ∃ m, (run onSegments (readTpkt sock).run segs).1 = .ok (.error (.invalidPdu m)) := by
  refine ⟨fun frames g tail segs hf hg hpre hne h => ?_, fun a b c d rest segs h hbad => ?_⟩
  · rw [run_readFrames sock hf hg hpre hne h]
  · obtain ⟨m, segs', hrun⟩ := run_readTpkt_bad sock h hbad
    exact ⟨m, by rw [hrun]⟩

/-- Two frames, the second without a body, and five bytes of a third, in four segments. -/
theorem readTpkt_segments_two :
    (run onSegments (readFrames ⟨0⟩ 3).run
      [[0x03], [0x00, 0x00, 0x05, 0xAA, 0x03, 0x00], [], [0x00, 0x04, 0x03, 0x00, 0x00, 0x06, 0xBB]]).1 =
      .ok [.ok [0x03, 0x00, 0x00, 0x05, 0xAA], .ok [0x03, 0x00, 0x00, 0x04], .error .connectionClosed] := by
  refine (readTpkt_segments ⟨0⟩).1 [[0x03, 0x00, 0x00, 0x05, 0xAA], [0x03, 0x00, 0x00, 0x04]]
    [0x03, 0x00, 0x00, 0x06, 0xBB, 0xCC] [0x03, 0x00, 0x00, 0x06, 0xBB] _ ?_
    ⟨_, _, _, _, rfl, rfl⟩ ⟨[0xCC], rfl⟩ (by decide) rfl
  intro f hf
  simp only [List.mem_cons, List.not_mem_nil, or_false] at hf
  rcases hf with rfl | rfl
  · exact ⟨_, _, _, _, rfl, rfl⟩
  · exact ⟨_, _, _, _, rfl, rfl⟩

end MoonS7
