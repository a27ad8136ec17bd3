import MoonS7.Lib.Streams
import MoonS7.Transport.Traces

/-!
# A socket as two byte streams

`Wire` is the state of one connection: the frames written, each with the number of its bytes that
went out, the frames the PLC has sent, how many of their bytes have been read, and whether each
direction has been closed. A call whose timer runs out has written or read any part of what it was
asked for, and that part is gone (`SockStep`). The PLC sends whole frames, at any time (`sockStep`).

Main results: what a write does to a wire (`write_step`), and which bytes a receive returns
(`TpktRead.taken`); a receive that begins where a frame begins returns this frame, and ends where
the next begins unless its timer ran out (`TpktRead.at_boundary`).
-/

namespace MoonS7

open Interaction Streams

/-! ## 1. The wire -/

structure Wire where
  out : List (Frame × Nat)
  sent : List Frame
  pos : Nat
  outClosed : Bool
  inClosed : Bool

def Wire.new : Wire := ⟨[], [], 0, false, false⟩

/-- The bytes of the PLC that have not been read. -/
def Wire.unread (W : Wire) : List UInt8 := W.sent.flatten.drop W.pos

/-- What one call to the socket library can do. A call that fails closes its
    direction, a connect that fails and a close both. -/
inductive SockStep : (c : SockCall) → Wire → SockReply c → Wire → Prop where
  | connect (host : String) (port : Int32) (sock : Socket) (W : Wire) :
      SockStep (.connectToHost host port) W (.value sock : Await Socket) W
  | connectRaised (host : String) (port : Int32) (m : String) (W : Wire) :
      SockStep (.connectToHost host port) W (.raised m : Await Socket)
        { W with outClosed := true, inClosed := true }
  | connectExpired (host : String) (port : Int32) (W : Wire) :
      SockStep (.connectToHost host port) W (.expired : Await Socket)
        { W with outClosed := true, inClosed := true }
  | write (sock : Socket) (data : List UInt8) {W : Wire} (hc : W.outClosed = false) :
      SockStep (.write sock data) W (.value () : Await Unit)
        { W with out := W.out ++ [(data, data.length)] }
  | writeExpired (sock : Socket) (data : List UInt8) {k : Nat} {W : Wire}
      (hc : W.outClosed = false) (hk : k ≤ data.length) :
      SockStep (.write sock data) W (.expired : Await Unit) { W with out := W.out ++ [(data, k)] }
  | writeRaised (sock : Socket) (data : List UInt8) (m : String) {k : Nat} {W : Wire}
      (hc : W.outClosed = true → k = 0) (hk : k ≤ data.length) :
      SockStep (.write sock data) W (.raised m : Await Unit)
        { W with out := W.out ++ [(data, k)], outClosed := true }
  | read (sock : Socket) {n : Nat} (v : Vector UInt8 n) {W : Wire} (hc : W.inClosed = false)
      (hv : v.toList <+: W.unread) :
      SockStep (.readExactly sock n) W (.value v : Await (Vector UInt8 n)) { W with pos := W.pos + n }
  | readExpired (sock : Socket) {n k : Nat} {W : Wire} (hc : W.inClosed = false) (hk : k ≤ n)
      (hl : k ≤ W.unread.length) :
      SockStep (.readExactly sock n) W (.expired : Await (Vector UInt8 n)) { W with pos := W.pos + k }
  | readRaised (sock : Socket) (n : Nat) (m : String) (W : Wire) :
      SockStep (.readExactly sock n) W (.raised m : Await (Vector UInt8 n)) { W with inClosed := true }
  | close (sock : Socket) (W : Wire) :
      SockStep (.close sock) W (() : Unit) { W with outClosed := true, inClosed := true }

/-- A call, once the PLC has sent some more frames. -/
def sockStep (c : SockCall) (W : Wire) (r : SockReply c) (W' : Wire) : Prop :=
  ∃ fs : List Frame, (∀ f ∈ fs, TpktFrame f) ∧ SockStep c { W with sent := W.sent ++ fs } r W'

/-- A call while the PLC sends nothing. -/
theorem sockStep_of {c : SockCall} {W W' : Wire} {r : SockReply c} (h : SockStep c W r W') :
    sockStep c W r W' := by
  refine ⟨[], nofun, ?_⟩
  rw [List.append_nil]
  exact h

/-! ## 2. Frames of the PLC -/

/-- **Where a frame ends is in its header**: no frame is the beginning of another. -/
theorem prefixFree_tpktFrame : PrefixFree TpktFrame := by
  rintro f g s ⟨b, hi, lo, body, rfl, hl⟩ ⟨b', hi', lo', body', rfl, hl'⟩ ⟨t, rfl⟩ ⟨t', ht'⟩
  simp only [List.cons_append, List.cons.injEq, true_and] at ht'
  obtain ⟨rfl, rfl, rfl, hb⟩ := ht'
  simp only [List.length_cons] at hl hl'
  rw [(List.append_inj hb (by omega)).1]

theorem TpktFrame.ne_nil {f : Frame} (h : TpktFrame f) : f ≠ [] := by
  obtain ⟨b, hi, lo, body, rfl, -⟩ := h
  exact List.cons_ne_nil _ _

/-- The header of a frame is good. -/
theorem TpktFrame.header {f rest : Frame} (h : TpktFrame f) {hdr : Vector UInt8 4}
    (hp : hdr.toList <+: f ++ rest) : TpktHeader hdr := by
  obtain ⟨b, hi, lo, body, rfl, hl⟩ := h
  obtain ⟨t, ht⟩ := hp
  rw [header_toList] at ht
  simp only [List.cons_append, List.nil_append, List.cons.injEq] at ht
  obtain ⟨h₀, -, h₂, h₃, -⟩ := ht
  refine ⟨h₀, ?_⟩
  simp only [List.length_cons] at hl
  rw [tpktLength, h₂, h₃]
  omega

/-- The PLC has sent whole frames, the later wire the same ones and some more. -/
structure Grows (W W' : Wire) : Prop where
  sent : ∃ fs : List Frame, (∀ f ∈ fs, TpktFrame f) ∧ W'.sent = W.sent ++ fs
  outClosed : W.outClosed = true → W'.outClosed = true
  inClosed : W.inClosed = true → W'.inClosed = true

theorem Grows.refl (W : Wire) : Grows W W := ⟨⟨[], by simp, (List.append_nil _).symm⟩, id, id⟩

theorem Grows.trans {W W' W'' : Wire} (h : Grows W W') (h' : Grows W' W'') : Grows W W'' := by
  obtain ⟨⟨fs, hfs, hs⟩, ho, hi⟩ := h
  obtain ⟨⟨fs', hfs', hs'⟩, ho', hi'⟩ := h'
  refine ⟨⟨fs ++ fs', fun f hf => ?_, by rw [hs', hs, List.append_assoc]⟩, ho' ∘ ho, hi' ∘ hi⟩
  exact (List.mem_append.mp hf).elim (hfs f) (hfs' f)

theorem Grows.all {W W' : Wire} (h : Grows W W') (hW : ∀ f ∈ W.sent, TpktFrame f) :
    ∀ f ∈ W'.sent, TpktFrame f := by
  obtain ⟨⟨fs, hfs, hs⟩, -⟩ := h
  rw [hs]
  exact fun f hf => (List.mem_append.mp hf).elim (hW f) (hfs f)

theorem Grows.atBoundary {W W' : Wire} (h : Grows W W') {n : Nat} (hn : AtBoundary W.sent n) :
    AtBoundary W'.sent n := by
  obtain ⟨⟨fs, -, hs⟩, -⟩ := h
  rw [hs]
  exact hn.append

theorem sockStep_grows {c : SockCall} {W W' : Wire} {r : SockReply c} (h : sockStep c W r W') :
    Grows W W' := by
  obtain ⟨fs, hfs, hs⟩ := h
  refine ⟨⟨fs, hfs, ?_⟩, fun hc => ?_, fun hc => ?_⟩
  · cases hs <;> rfl
  · cases hs <;> first | rfl | exact hc
  · cases hs <;> first | rfl | exact hc

theorem Grows.unread {W W' : Wire} (h : Grows W W') {l : List UInt8} {n : Nat}
    (hl : l <+: W.sent.flatten.drop n) : l <+: W'.sent.flatten.drop n := by
  obtain ⟨⟨fs, -, hs⟩, -⟩ := h
  rw [hs, List.flatten_append]
  exact hl.trans ((List.prefix_append _ _).drop n)

/-- No more is read than was sent. -/
theorem sockStep_pos {c : SockCall} {W W' : Wire} {r : SockReply c} (h : sockStep c W r W')
    (hW : W.pos ≤ W.sent.flatten.length) : W'.pos ≤ W'.sent.flatten.length := by
  obtain ⟨fs, -, hs⟩ := h
  have hM : W.pos ≤ (W.sent ++ fs).flatten.length := by
    rw [List.flatten_append, List.length_append]
    omega
  cases hs with
  | @read _ n v _ _ hv =>
    have hl := hv.length_le
    rw [Vector.length_toList, Wire.unread, List.length_drop] at hl
    show W.pos + n ≤ (W.sent ++ fs).flatten.length
    exact (Nat.le_sub_iff_add_le' hM).mp hl
  | @readExpired _ n k _ _ hk hl =>
    rw [Wire.unread, List.length_drop] at hl
    show W.pos + k ≤ (W.sent ++ fs).flatten.length
    exact (Nat.le_sub_iff_add_le' hM).mp hl
  | _ => exact hM

/-! ## 3. What a receive does -/

section Receive

variable {sock : Socket} {W W' : Wire} {n : Nat}

theorem read_value {v : Vector UInt8 n}
    (h : sockStep (.readExactly sock n) W (.value v : Await (Vector UInt8 n)) W') :
    Grows W W' ∧ W'.out = W.out ∧ W.inClosed = false ∧ W'.pos = W.pos + n ∧
      v.toList <+: W'.sent.flatten.drop W.pos := by
  have hg := sockStep_grows h
  obtain ⟨fs, hfs, hs⟩ := h
  cases hs with
  | read _ _ hc hv => exact ⟨hg, rfl, hc, rfl, hv⟩

theorem read_other {r : Await (Vector UInt8 n)} (h : sockStep (.readExactly sock n) W r W') :
    Grows W W' ∧ W'.out = W.out ∧ ∀ m, r = .raised m → W'.inClosed = true := by
  have hg := sockStep_grows h
  obtain ⟨fs, hfs, hs⟩ := h
  cases hs with
  | read _ _ hc hv => exact ⟨hg, rfl, nofun⟩
  | readExpired _ hc hk hl => exact ⟨hg, rfl, nofun⟩
  | readRaised _ _ m => exact ⟨hg, rfl, fun _ _ => rfl⟩

/-- A read of a frame writes nothing. -/
theorem TpktRead.grows {tr : List SockEvent} {y : Except Interrupt (Except S7Error Frame)}
    (h : TpktRead sock tr y) (hp : Path sockStep W tr W') : Grows W W' ∧ W'.out = W.out := by
  have one : ∀ {n} {r : Await (Vector UInt8 n)},
      Path sockStep W [⟨.readExactly sock n, r⟩] W' → Grows W W' ∧ W'.out = W.out := by
    intro n r hp
    obtain ⟨W₁, hs, hp⟩ := path_cons_iff.mp hp
    cases hp
    exact ⟨(read_other hs).1, (read_other hs).2.1⟩
  have two : ∀ {n n'} {r : Await (Vector UInt8 n)} {r' : Await (Vector UInt8 n')},
      Path sockStep W [⟨.readExactly sock n, r⟩, ⟨.readExactly sock n', r'⟩] W' →
      Grows W W' ∧ W'.out = W.out := by
    intro n n' r r' hp
    obtain ⟨W₁, hs, hp⟩ := path_cons_iff.mp hp
    obtain ⟨W₂, hs', hp⟩ := path_cons_iff.mp hp
    cases hp
    exact ⟨(read_other hs).1.trans (read_other hs').1,
      (read_other hs').2.1.trans (read_other hs).2.1⟩
  cases h with
  | noHeader m => exact one hp
  | headerExpired => exact one hp
  | badVersion hdr _ => exact one hp
  | badLength hdr _ _ => exact one hp
  | noBody hdr m _ => exact two hp
  | bodyExpired hdr _ => exact two hp
  | frame hdr body _ => exact two hp

/-- **A frame that is read** is the next part of what the PLC has sent. -/
theorem TpktRead.taken {tr : List SockEvent} {f : Frame} (h : TpktRead sock tr (.ok (.ok f)))
    (hp : Path sockStep W tr W') :
    W.inClosed = false ∧ W'.pos = W.pos + f.length ∧ f <+: W'.sent.flatten.drop W.pos := by
  cases h with
  | frame hdr body hh =>
    obtain ⟨W₁, hs, hp⟩ := path_cons_iff.mp hp
    obtain ⟨W₂, hs', hp⟩ := path_cons_iff.mp hp
    cases hp
    obtain ⟨-, -, hc, hpos, hv⟩ := read_value hs
    obtain ⟨hg, -, -, hpos', hv'⟩ := read_value hs'
    refine ⟨hc, ?_, ?_⟩
    · rw [hpos', hpos, List.length_append, Vector.length_toList, Vector.length_toList, Nat.add_assoc]
    · obtain ⟨rest, hrest⟩ := hg.unread hv
      rw [hpos, ← List.drop_drop, ← hrest, List.drop_left' Vector.length_toList] at hv'
      rw [← hrest]
      exact (List.prefix_append_right_inj _).mpr hv'

/-- **A receive that begins where a frame begins** returns this frame, and ends where the next
    begins, unless the timer runs out or the PLC's stream has ended. -/
theorem TpktRead.at_boundary {tr : List SockEvent} {y : Except Interrupt (Except S7Error Frame)}
    (h : TpktRead sock tr y) (hp : Path sockStep W tr W') (hW : ∀ f ∈ W.sent, TpktFrame f)
    (hb : AtBoundary W.sent W.pos) :
    (∀ f, y = .ok (.ok f) → (∃ i, W.pos = boundary W'.sent i ∧ W'.sent[i]? = some f) ∧
      AtBoundary W'.sent W'.pos) ∧
      (y ≠ .error .expired → AtBoundary W'.sent W'.pos ∨ W'.inClosed = true) := by
  have hW' := (h.grows hp).1.all hW
  obtain ⟨i, hi, hpos⟩ := (h.grows hp).1.atBoundary hb
  -- the four bytes of a header begin a frame, which has a good one
  have good : ∀ {hdr : Vector UInt8 4} {W₁ : Wire}, Grows W₁ W' →
      sockStep (.readExactly sock 4) W (.value hdr : Await (Vector UInt8 4)) W₁ → TpktHeader hdr := by
    intro hdr W₁ hg hs
    obtain ⟨-, -, -, -, hv⟩ := read_value hs
    have hv := hg.unread hv
    rw [hpos] at hv
    rcases prefix_at_boundary i hv with h0 | ⟨g, rest, hg, hpre⟩
    · rw [header_toList] at h0
      cases h0
    · exact (hW' g (List.mem_of_getElem? hg)).header hpre
  cases h with
  | noHeader m =>
    obtain ⟨W₁, hs, hp⟩ := path_cons_iff.mp hp
    cases hp
    exact ⟨nofun, fun _ => Or.inr ((read_other hs).2.2 m rfl)⟩
  | headerExpired => exact ⟨nofun, fun hne => absurd rfl hne⟩
  | badVersion hdr hbad =>
    obtain ⟨W₁, hs, hp⟩ := path_cons_iff.mp hp
    cases hp
    exact absurd (good (.refl _) hs).1 hbad
  | badLength hdr _ hbad =>
    obtain ⟨W₁, hs, hp⟩ := path_cons_iff.mp hp
    cases hp
    exact absurd (good (.refl _) hs).2 (Nat.not_le_of_lt hbad)
  | noBody hdr m _ =>
    obtain ⟨W₁, hs, hp⟩ := path_cons_iff.mp hp
    obtain ⟨W₂, hs', hp⟩ := path_cons_iff.mp hp
    cases hp
    exact ⟨nofun, fun _ => Or.inr ((read_other hs').2.2 m rfl)⟩
  | bodyExpired hdr _ => exact ⟨nofun, fun hne => absurd rfl hne⟩
  | frame hdr body hh =>
    have hr : TpktRead sock _ (.ok (.ok (hdr.toList ++ body.toList))) := .frame hdr body hh
    obtain ⟨-, hpos', hv⟩ := hr.taken hp
    rw [hpos] at hv
    obtain ⟨hget, hend⟩ := frame_at_boundary prefixFree_tpktFrame hW' hr.tpktFrame
      hr.tpktFrame.ne_nil hv
    rw [← hpos, ← hpos'] at hend
    refine ⟨fun f hf => ?_, fun _ => Or.inl hend⟩
    cases hf
    exact ⟨⟨i, hpos, hget⟩, hend⟩

end Receive

/-- A frame that has arrived can be read. -/
theorem exists_path_tpktRead (sock : Socket) {f : Frame} (hf : TpktFrame f) {W : Wire}
    (hc : W.inClosed = false) (hv : f <+: W.unread) :
    ∃ tr, TpktRead sock tr (.ok (.ok f)) ∧ Path sockStep W tr { W with pos := W.pos + f.length } := by
  obtain ⟨hdr, body, hh, rfl⟩ := tpktFrame_iff.mp hf
  have hheader := SockStep.read sock hdr hc ((List.prefix_append _ _).trans hv)
  refine ⟨_, .frame hdr body hh, .cons (sockStep_of hheader) (.cons (sockStep_of ?_) (.nil _))⟩
  have hbody : body.toList <+: ({ W with pos := W.pos + 4 } : Wire).unread := by
    obtain ⟨t, ht⟩ := hv
    refine ⟨t, ?_⟩
    rw [Wire.unread, ← List.drop_drop, show W.sent.flatten.drop W.pos = _ from ht.symm,
      List.append_assoc, List.drop_left' Vector.length_toList]
  have hstep := SockStep.read sock body (W := { W with pos := W.pos + 4 }) hc hbody
  rw [List.length_append, Vector.length_toList, Vector.length_toList, ← Nat.add_assoc]
  exact hstep

/-! ## 4. What a send does -/

/-- A write of a frame: `k` of its bytes go out. -/
structure Writes (q : Frame) (k : Nat) (W W' : Wire) : Prop where
  grows : Grows W W'
  pos : W'.pos = W.pos
  out : W'.out = W.out ++ [(q, k)]
  silent : W.outClosed = true → k = 0

theorem write_step {sock : Socket} {q : Frame} {r : Await Unit} {W W' : Wire}
    (h : sockStep (.write sock q) W r W') :
    ∃ k, Writes q k W W' ∧ (r = .value () → k = q.length) ∧
      (r ≠ .expired → k = q.length ∨ W'.outClosed = true) := by
  have hg := sockStep_grows h
  obtain ⟨fs, hfs, hs⟩ := h
  cases hs with
  | write _ _ hc =>
    exact ⟨q.length, ⟨hg, rfl, rfl, fun h => by cases hc.symm.trans h⟩, fun _ => rfl,
      fun _ => Or.inl rfl⟩
  | @writeExpired _ _ k _ hc hk =>
    exact ⟨k, ⟨hg, rfl, rfl, fun h => by cases hc.symm.trans h⟩, nofun, fun h => absurd rfl h⟩
  | @writeRaised _ _ m k _ hc hk => exact ⟨k, ⟨hg, rfl, rfl, hc⟩, nofun, fun _ => Or.inr rfl⟩

end MoonS7
