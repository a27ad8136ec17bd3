import MoonS7.Client.Client

/-!
# What a read makes of its answers

The loop of `chunked_read` moves on by the number of bytes it asked for and keeps the bytes it got.
Nothing compares the two.

Main results: `read_faithful_iff` -- a read returns the bytes it asked for, each at its place, or
an error, exactly if an answer is missing or rejected, or all answers are empty, or each has the
length of its chunk; for a 32-bit field the corresponding condition is on the total length.
`read_short_refuted` is a read of four bytes that returns two.
-/

namespace MoonS7

open Interaction Port Ranges

/-! ## 1. Answers -/

/-- The bytes a read takes from an answer. -/
def payload (f : Frame) : List UInt8 := (readCheck f).toOption.getD []

theorem payload_eq {f : Frame} {b : List UInt8} (h : readCheck f = .ok b) : payload f = b := by
  rw [payload, h]
  rfl

theorem readCheck_error {f : Frame} {d : Stop} (h : readCheck f = .error d) : ∃ e, d = .err e := by
  rcases parseResponse_cases f with ⟨s7, -, hp⟩ | ⟨⟨e, hp⟩, -⟩
  · rw [readCheck, hp] at h
    cases h
  · rw [readCheck, hp] at h
    cases h
    exact ⟨e, rfl⟩

/-- Of `n` requests one has not been answered, or with a frame that `parse_response` rejects. -/
def Unanswered (n : Nat) (fs : List Frame) : Prop :=
  fs.length < n ∨ ∃ f ∈ fs, ∃ d, readCheck f = .error d

/-- Every answer has as many bytes as its chunk. -/
def FullLength (l : List (Nat × Nat)) (fs : List Frame) : Prop :=
  ∀ (k : Nat) (p : Nat × Nat) (f : Frame), l[k]? = some p → fs[k]? = some f →
    (payload f).length = p.2

/-- What a read of the pieces `l` of `n` bytes owes its caller: all bytes, each from its place in
    the answer to the request that covers it, and an error if an accepted answer is too short or
    too long. -/
structure FaithfulRead (l : List (Nat × Nat)) (n : Nat) (fs : List Frame)
    (x : S7Result (List UInt8)) : Prop where
  length : ∀ r, x = .ok r → r.length = n
  bytes : ∀ r, x = .ok r → ∀ (k : Nat) (p : Nat × Nat) (f : Frame), l[k]? = some p →
    fs[k]? = some f → ∀ i, p.1 ≤ i → i < p.1 + p.2 → r[i]? = (payload f)[i - p.1]?
  refused : (∃ (k : Nat) (p : Nat × Nat) (f : Frame) (b : List UInt8), l[k]? = some p ∧
    fs[k]? = some f ∧ readCheck f = .ok b ∧ b.length ≠ p.2) → ∃ e, x = err e

/-! ## 2. What a read returns -/

section Outcome

variable {cl : S7Client} (hc : cl.connected = true) {area : Area} {start size : Int32}
  {tr : List (Event Frame Frame S7Error)} {x : S7Result (List UInt8)}

include hc

/-- **A read returns** an error if an answer is missing or rejected, and otherwise the payloads
    joined, or an error if these are empty. -/
theorem chunkedRead_outcome (h : Follows (chunkedRead cl area start size).run tr x) :
    (Unanswered (cuts (maxChunk cl.pduSize 23) 0 size.toInt.toNat).length (answers tr) ∧
      ∃ e, x = err e) ∨
    ((answers tr).length = (cuts (maxChunk cl.pduSize 23) 0 size.toInt.toNat).length ∧
      (∀ f ∈ answers tr, readCheck f = .ok (payload f)) ∧
      x = if ((answers tr).flatMap payload).length = 0 then err (.itemNotFound "No data")
        else .ok ((answers tr).flatMap payload)) := by
  have hlen : (readReqs cl area start size).length =
      (cuts (maxChunk cl.pduSize 23) 0 size.toInt.toNat).length := List.length_map _
  rw [chunkedRead_eq hc] at h
  obtain ⟨y, hs, rfl⟩ := follows_ofResult_iff.mp h
  cases y with
  | error d =>
    obtain ⟨hu, hd⟩ := (follows_session_iff.mp hs).error
    rw [hlen] at hu
    refine Or.inl ⟨hu, ?_⟩
    rcases hd with ⟨e, -, rfl⟩ | hd | ⟨f, -, hf⟩
    · exact ⟨e, rfl⟩
    · obtain ⟨p, -, hp⟩ := List.mem_map.mp hd
      cases hp
    · obtain ⟨e, rfl⟩ := readCheck_error hf
      exact ⟨e, rfl⟩
  | ok bs =>
    obtain ⟨-, hbs, hn⟩ := (follows_session_iff.mp hs).ok
    have hpay : (answers tr).map payload = bs := by
      have h := congrArg (List.map fun r => r.toOption.getD []) hbs
      rw [List.map_map, List.map_map] at h
      exact h.trans (List.map_id _)
    refine Or.inr ⟨?_, fun f hf => ?_, ?_⟩
    · rw [← hlen, ← hn, ← hpay, List.length_map]
    · have hm := List.mem_map_of_mem (f := readCheck) hf
      rw [hbs] at hm
      obtain ⟨b, -, hb⟩ := List.mem_map.mp hm
      rw [payload_eq hb.symm, hb]
    · rw [List.flatMap_def, hpay]
      rfl

end Outcome

/-- The payloads of answers of full length, joined, hold each answer at its place. -/
theorem fullLength_bytes {l : List (Nat × Nat)} {n : Nat} (ht : Tiles 0 n l) {fs : List Frame}
    (hn : fs.length = l.length) (hf : FullLength l fs) :
    (fs.flatMap payload).length = n ∧ ∀ (k : Nat) (p : Nat × Nat) (f : Frame), l[k]? = some p →
      fs[k]? = some f → ∀ i, p.1 ≤ i → i < p.1 + p.2 →
        (fs.flatMap payload)[i]? = (payload f)[i - p.1]? := by
  have h₂ : List.Forall₂ (fun p q => q.length = p.2) l (fs.map payload) := by
    rw [List.forall₂_map_right_iff, List.forall₂_iff_get]
    refine ⟨hn.symm, fun i h₁ h₂ => hf i _ _ ?_ ?_⟩
    · exact List.getElem?_eq_getElem h₁
    · exact List.getElem?_eq_getElem h₂
  obtain ⟨hlen, hat⟩ := ht.flatten h₂
  rw [← List.flatMap_def] at hlen hat
  refine ⟨hlen, fun k p f hp hf i h₁ h₂ => ?_⟩
  have := hat k p (payload f) hp (by rw [List.getElem?_map, hf]; rfl) (i - p.1) (by omega)
  rwa [Nat.sub_zero, Nat.add_sub_cancel' h₁] at this

/-! ## 3. When reads are faithful -/

section Faithful

variable {cl : S7Client} (hc : cl.connected = true) {tr : List (Event Frame Frame S7Error)}

include hc

theorem chunkedRead_faithful_iff {area : Area} {start size : Int32} {x : S7Result (List UInt8)}
    (h : Follows (chunkedRead cl area start size).run tr x) :
    FaithfulRead (cuts (maxChunk cl.pduSize 23) 0 size.toInt.toNat) size.toInt.toNat (answers tr) x ↔
      Unanswered (cuts (maxChunk cl.pduSize 23) 0 size.toInt.toNat).length (answers tr) ∨
      (answers tr).flatMap payload = [] ∨
      FullLength (cuts (maxChunk cl.pduSize 23) 0 size.toInt.toNat) (answers tr) := by
  rcases chunkedRead_outcome hc h with ⟨hu, e, rfl⟩ | ⟨hn, hacc, hx⟩
  · exact ⟨fun _ => Or.inl hu, fun _ => ⟨nofun, nofun, fun _ => ⟨e, rfl⟩⟩⟩
  by_cases h0 : ((answers tr).flatMap payload).length = 0
  · rw [if_pos h0] at hx
    subst hx
    exact ⟨fun _ => Or.inr (Or.inl (List.length_eq_zero_iff.mp h0)),
      fun _ => ⟨nofun, nofun, fun _ => ⟨_, rfl⟩⟩⟩
  · rw [if_neg h0] at hx
    subst hx
    constructor
    · intro hf
      refine Or.inr (Or.inr fun k p f hp hk => ?_)
      by_contra hne
      obtain ⟨e, he⟩ := hf.refused ⟨k, p, f, payload f, hp, hk,
        hacc f (List.mem_of_getElem? hk), hne⟩
      cases he
    · rintro ((hu | ⟨f, hf, d, hd⟩) | h0' | hfull)
      · omega
      · cases (hacc f hf).symm.trans hd
      · exact absurd (congrArg List.length h0') h0
      · obtain ⟨hlen, hat⟩ := fullLength_bytes (tiles_cuts _ 0 _) hn hfull
        refine ⟨?_, ?_, ?_⟩
        · intro r hr
          cases hr
          exact hlen
        · intro r hr
          cases hr
          exact hat
        · rintro ⟨k, p, f, b, hp, hk, hb, hne⟩
          rw [← payload_eq hb] at hne
          exact absurd (hfull k p f hp hk) hne

/-- A field of four bytes, decoded by `dec`, which reads fewer as `z`. -/
theorem field_faithful_iff {α : Type} {dec : List UInt8 → S7Result α} {z : α}
    (hz : ∀ b : List UInt8, b.length < 4 → dec b = .ok z) {area : Area} {start : Int32} {x : S7Result α}
    (h : Follows (chunkedRead cl area start 4 >>= fun b => ofResult (dec b)).run tr x) :
    ¬ (x = .ok z ∧ ((answers tr).flatMap payload).length < 4) ↔
      Unanswered (cuts (maxChunk cl.pduSize 23) 0 4).length (answers tr) ∨
      (answers tr).flatMap payload = [] ∨ 4 ≤ ((answers tr).flatMap payload).length := by
  obtain ⟨y, hr, rfl⟩ := follows_ofResult_iff.mp h
  rcases chunkedRead_outcome hc hr with ⟨hu, e, rfl⟩ | ⟨hn, hacc, rfl⟩
  · exact ⟨fun _ => Or.inl hu, fun _ => fun ⟨hx, _⟩ => by cases hx⟩
  split
  · rename_i h0
    exact ⟨fun _ => Or.inr (Or.inl (List.length_eq_zero_iff.mp h0)),
      fun _ => fun ⟨hx, _⟩ => by cases hx⟩
  · rename_i h0
    constructor
    · exact fun hx => Or.inr (Or.inr (Nat.le_of_not_lt fun h4 => hx ⟨hz _ h4, h4⟩))
    · rintro ((hu | ⟨f, hf, d, hd⟩) | h0' | h4)
      · exact absurd hn (Nat.ne_of_lt hu)
      · cases (hacc f hf).symm.trans hd
      · exact absurd (congrArg List.length h0') h0
      · exact fun ⟨_, hlt⟩ => Nat.not_lt.mpr h4 hlt

/-- **When reads are faithful.** -/
theorem read_faithful_iff :
    (∀ (area : Area) (start size : Int32) (p : Client (List UInt8)) (x : S7Result (List UInt8)),
      ByteRead cl start size area p → Follows p.run tr x →
      (FaithfulRead (cuts (maxChunk cl.pduSize 23) 0 size.toInt.toNat) size.toInt.toNat (answers tr) x ↔
        Unanswered (cuts (maxChunk cl.pduSize 23) 0 size.toInt.toNat).length (answers tr) ∨
        (answers tr).flatMap payload = [] ∨
        FullLength (cuts (maxChunk cl.pduSize 23) 0 size.toInt.toNat) (answers tr))) ∧
    (∀ (db start : Int32) (x : S7Result Int32), Follows (cl.agReadDInt db start).run tr x →
      (¬ (x = .ok 0 ∧ ((answers tr).flatMap payload).length < 4) ↔
        Unanswered (cuts (maxChunk cl.pduSize 23) 0 4).length (answers tr) ∨
        (answers tr).flatMap payload = [] ∨ 4 ≤ ((answers tr).flatMap payload).length)) ∧
    (∀ (db start : Int32) (x : S7Result Int64), Follows (cl.agReadDWord db start).run tr x →
      (¬ (x = .ok 0 ∧ ((answers tr).flatMap payload).length < 4) ↔
        Unanswered (cuts (maxChunk cl.pduSize 23) 0 4).length (answers tr) ∨
        (answers tr).flatMap payload = [] ∨ 4 ≤ ((answers tr).flatMap payload).length)) := by
  refine ⟨fun area start size p x hp h => ?_, fun db start x h => ?_, fun db start x h => ?_⟩
  · rw [hp.eq] at h
    exact chunkedRead_faithful_iff hc h
  · rw [(ValueRead.dint db).eq] at h
    refine field_faithful_iff hc (fun b hb => ?_) h
    rw [dint_short db start hb]
    rfl
  · rw [(ValueRead.dword db).eq] at h
    refine field_faithful_iff hc (fun b hb => ?_) h
    rw [dword_short db start hb]
    rfl

end Faithful

/-! ## 4. A short answer -/

/-- A reply to a read with two bytes of payload. -/
def twoBytes : Frame :=
  [0x03, 0x00, 0x00, 0x1B, 0x02, 0xF0, 0x80, 0x32, 0x03, 0x00, 0x00, 0x00, 0x01, 0x00, 0x04,
    0x00, 0x06, 0x00, 0x00, 0x00, 0x00, 0xFF, 0x04, 0x00, 0x02, 0xAA, 0xBB]

theorem readCheck_twoBytes : readCheck twoBytes = .ok [0xAA, 0xBB] := by decide +kernel

/-- A read of four bytes of DB 1 that is answered with two returns the two. -/
theorem follows_twoBytes :
    Follows (S7Client.agRead { S7Client.new with connected := true } 1 0 4).run
      [Event.sent (readFrame (.db 1) 0 4 1) (.ok ()), Event.got (.ok twoBytes)] (.ok [0xAA, 0xBB]) := by
  have hreqs : readReqs { S7Client.new with connected := true } (.db 1) 0 4 =
      [.ok (readFrame (.db 1) 0 4 1)] := readReqs_one (by decide) (by decide)
  rw [(ByteRead.ag 1).eq, chunkedRead_eq rfl, hreqs]
  exact follows_ofResult_iff.mpr
    ⟨_, follows_session_iff.mpr (.accepted _ readCheck_twoBytes .done), rfl⟩

/-- **A silent short read.** -/
theorem read_short_refuted :
    ¬ ∀ (cl : S7Client) (area : Area) (start size : Int32) (p : Client (List UInt8))
      (tr : List (Event Frame Frame S7Error)) (x : S7Result (List UInt8)),
      cl.connected = true → ByteRead cl start size area p → Follows p.run tr x →
      FaithfulRead (cuts (maxChunk cl.pduSize 23) 0 size.toInt.toNat) size.toInt.toNat
        (answers tr) x := by
  intro h
  have := (h _ _ 0 4 _ _ _ rfl (.ag 1) follows_twoBytes).length _ rfl
  revert this
  decide

/-- The condition at the read above, where it fails. -/
theorem read_faithful_twoBytes :
    FaithfulRead (cuts (maxChunk 480 23) 0 4) 4 [twoBytes] (.ok [0xAA, 0xBB]) ↔
      Unanswered (cuts (maxChunk 480 23) 0 4).length [twoBytes] ∨ [twoBytes].flatMap payload = [] ∨
      FullLength (cuts (maxChunk 480 23) 0 4) [twoBytes] :=
  (read_faithful_iff rfl).1 _ 0 4 _ _ (.ag 1) follows_twoBytes

end MoonS7
