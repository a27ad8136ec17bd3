import MoonS7.Client.Lifecycle
import MoonS7.Client.ShortReads

/-!
# Replies that crash the client

Which replies can make an operation abort, for every operation of the public API. The parsers test
a length before they read at a fixed place. Two accessors do not: `ag_read_int` and `ag_read_word`
read two bytes from whatever `chunked_read` has put together, which may be one. Where a STRING is
read, its bytes are decoded to codes of characters that are never checked; what the core library
does with a code that is none is left open here (`takes`).

Main results: `crash_iff` -- every operation returns, whatever the replies, and exactly when it
aborts; `connect` never does. `crash_refuted` is a reply of one byte to `ag_read_int`.
-/

namespace MoonS7

open Interaction Port Ranges

/-! ## 1. Parts that do not abort -/

def NoAbort {α : Type} (x : S7Result α) : Prop := x ≠ .error .abort

section Parts

variable {α β : Type} {cl : S7Client}

theorem NoAbort.ok (a : α) : NoAbort (.ok a) := by
  intro h
  cases h

theorem NoAbort.err (e : S7Error) : NoAbort (err e : S7Result α) := by
  intro h
  cases h

theorem NoAbort.error {d : Stop} (h : NoAbort (.error d : S7Result α)) :
    NoAbort (.error d : S7Result β) := by
  intro hd
  cases hd
  exact h rfl

/-- What follows a part that does not abort. -/
theorem yields_then {p : Client α} {f : α → Client β} (hp : Yields NoAbort p.run)
    (hf : ∀ a, Yields NoAbort (f a).run) : Yields NoAbort (p >>= f).run :=
  Yields.op_bind hp (fun _ h => h.error) fun a _ => hf a

theorem yields_result {x : S7Result α} (h : NoAbort x) : Yields NoAbort (ofResult x : Client α).run :=
  yields_ret h

/-- A telegram, and what becomes of its answer. -/
theorem yields_telegram (q : Frame) {f : Frame → Client β} (hf : ∀ a, Yields NoAbort (f a).run) :
    Yields NoAbort (send Stop.err q >>= fun _ => receive Stop.err >>= f : Client β).run := by
  rw [send_receive_bind]
  exact yields_then (yields_exchange q NoAbort.err NoAbort.ok) hf

theorem yields_chunkedWrite (cl : S7Client) (area : Area) (start : Int32) (data : List UInt8) :
    Yields NoAbort (chunkedWrite cl area start data).run := by
  intro tr x hf
  rcases follows_chunkedWrite hf with ⟨-, -, rfl⟩ | ⟨-, y, hs, rfl⟩
  · exact .err _
  · cases y with
    | ok bs => exact .ok ()
    | error d =>
      rcases hs.error.2 with ⟨e, -, rfl⟩ | hd | ⟨f, -, hf⟩
      · exact .err e
      · obtain ⟨p, -, hp⟩ := List.mem_map.mp hd
        rw [writeReq] at hp
        split at hp
        · cases hp
        · cases hp
          exact .err _
      · intro hd
        cases hd
        exact writeReply_total f hf

/-! ## 2. Reads -/

/-- The requests of a read of `size` bytes were all answered, with `bs` in all. -/
def Answered (cl : S7Client) (size : Int32) (replies : List Frame) (bs : List UInt8) : Prop :=
  ¬ Unanswered (cuts (maxChunk cl.pduSize 23) 0 size.toInt.toNat).length replies ∧
    replies.flatMap payload = bs

variable {area : Area} {start size : Int32} {tr : List (Event Frame Frame S7Error)}

/-- **When a read aborts**: what it makes of the bytes does, where there are any. -/
theorem read_crash_iff {dec : List UInt8 → S7Result α} {x : S7Result α}
    (hf : Follows (chunkedRead cl area start size >>= fun b => ofResult (dec b)).run tr x) :
    x = .error .abort ↔ cl.connected = true ∧
      ∃ bs, Answered cl size (answers tr) bs ∧ bs ≠ [] ∧ dec bs = .error .abort := by
  obtain ⟨y, hy, rfl⟩ := follows_ofResult_iff.mp hf
  cases hc : cl.connected with
  | false =>
    rw [chunkedRead_not_connected hc] at hy
    obtain ⟨rfl, -⟩ := follows_ret_iff.mp hy
    exact ⟨nofun, fun h => by cases h.1⟩
  | true =>
    rcases chunkedRead_outcome hc hy with ⟨hu, e, rfl⟩ | ⟨hn, hacc, rfl⟩
    · exact ⟨nofun, fun ⟨_, bs, ha, _⟩ => absurd hu ha.1⟩
    · have hans : ¬ Unanswered (cuts (maxChunk cl.pduSize 23) 0 size.toInt.toNat).length
          (answers tr) := by
        rintro (hlt | ⟨f, hmem, d, hd⟩)
        · omega
        · cases (hacc f hmem).symm.trans hd
      by_cases h0 : ((answers tr).flatMap payload).length = 0
      · rw [if_pos h0]
        refine ⟨nofun, fun ⟨_, bs, ⟨_, hbs⟩, hne, _⟩ => ?_⟩
        rw [hbs] at h0
        exact absurd (List.length_eq_zero_iff.mp h0) hne
      · rw [if_neg h0]
        constructor
        · exact fun hd => ⟨rfl, _, ⟨hans, rfl⟩, fun h => h0 (by rw [h]; rfl), hd⟩
        · rintro ⟨-, bs, ⟨-, rfl⟩, -, hd⟩
          exact hd

/-- A read whose decoding does not abort. -/
theorem read_total {dec : List UInt8 → S7Result α} (hdec : ∀ b, NoAbort (dec b)) {x : S7Result α}
    (hf : Follows (chunkedRead cl area start size >>= fun b => ofResult (dec b)).run tr x) :
    NoAbort x := by
  intro hx
  obtain ⟨-, bs, -, -, hd⟩ := (read_crash_iff hf).mp hx
  exact hdec bs hd

theorem dwordFromBytes_total {b : List UInt8} (h : 4 ≤ b.length) : NoAbort (dwordFromBytes b) := by
  obtain ⟨b0, -, h0⟩ := byteAt_of_lt (show 0 < b.length by omega)
  obtain ⟨b1, -, h1⟩ := byteAt_of_lt (show 1 < b.length by omega)
  obtain ⟨b2, -, h2⟩ := byteAt_of_lt (show 2 < b.length by omega)
  obtain ⟨b3, -, h3⟩ := byteAt_of_lt (show 3 < b.length by omega)
  rw [dwordFromBytes, h0, h1, h2, h3]
  exact .ok _

theorem noAbort_bind {x : S7Result α} {f : α → S7Result β} (hx : NoAbort x) (hf : ∀ a, NoAbort (f a)) :
    NoAbort (x >>= f) := by
  cases x with
  | ok a => exact hf a
  | error d => exact hx.error

theorem noAbort_map {x : S7Result α} (f : α → β) (hx : NoAbort x) : NoAbort (x.map f) := by
  cases x with
  | ok a => exact .ok (f a)
  | error d => exact hx.error

/-- The fields of four bytes take any number of bytes. -/
theorem dwordField_total (db offset : Int32) (b : List UInt8) :
    NoAbort ((DWordField.new db offset b).map DWordField.value) := by
  refine noAbort_map _ ?_
  unfold DWordField.new
  by_cases h4 : b.length ≥ 4
  · rw [if_pos h4]
    exact noAbort_bind (dwordFromBytes_total h4) fun _ => .ok _
  · rw [if_neg h4]
    exact .ok _

theorem dintField_total (db offset : Int32) (b : List UInt8) :
    NoAbort ((DIntField.new db offset b).map DIntField.value) := by
  refine noAbort_map _ ?_
  unfold DIntField.new dintFromBytes
  by_cases h4 : b.length ≥ 4
  · rw [if_pos h4]
    exact noAbort_bind (noAbort_bind (dwordFromBytes_total h4) fun _ => .ok _) fun _ => .ok _
  · rw [if_neg h4]
    exact .ok _

/-- **Two bytes are read from one**: what the 16-bit accessors make of bytes, of which there are
    some, aborts exactly if there is one. -/
theorem intValue_abort_iff {b : List UInt8} (h : b ≠ []) :
    (intValue b = .error .abort ↔ b.length = 1) ∧ (wordValue b = .error .abort ↔ b.length = 1) := by
  rcases b with _ | ⟨b0, _ | ⟨b1, b⟩⟩
  · exact absurd rfl h
  · exact ⟨⟨fun _ => rfl, fun _ => rfl⟩, ⟨fun _ => rfl, fun _ => rfl⟩⟩
  · exact ⟨⟨nofun, fun h1 => by simp at h1⟩, ⟨nofun, fun h1 => by simp at h1⟩⟩

end Parts

/-! ## 3. Every operation -/

/-- The replies on which an operation aborts: one byte in all for a 16-bit value, a code that is not
    taken for a character in a STRING. -/
def Operation.Trips (takes : Int32 → Bool) (cl : S7Client) (replies : List Frame) : Operation → Prop
  | .agReadInt _ _ | .agReadWord _ _ => ∃ bs, Answered cl 2 replies bs ∧ bs.length = 1
  | .agReadString _ _ maxLen => ∃ bs, Answered cl (maxLen + 2) replies bs ∧ bs ≠ [] ∧
      ∃ c ∈ s7StringCodes bs, takes c = false
  | _ => False

section Operations

variable {takes : Int32 → Bool} {cl : S7Client} {tr : List (Event Frame Frame S7Error)}

theorem decodeS7String_abort_iff {bs : List UInt8} :
    decodeS7String takes bs = .error .abort ↔ ∃ c ∈ s7StringCodes bs, takes c = false := by
  rw [decodeS7String_eq]
  cases h : (s7StringCodes bs).all takes with
  | true =>
    rw [if_pos rfl]
    refine ⟨fun hd => (NoAbort.ok _ hd).elim, fun hex => ?_⟩
    obtain ⟨c, hc, hf⟩ := hex
    rw [List.all_eq_true.mp h c hc] at hf
    cases hf
  | false =>
    obtain ⟨c, hc, hf⟩ := List.all_eq_false.mp h
    exact ⟨fun _ => ⟨c, hc, Bool.eq_false_iff.mpr hf⟩, fun _ => rfl⟩

/-- The two 16-bit accessors abort on one byte. -/
theorem word_crash_iff {db start : Int32} {dec : List UInt8 → S7Result Int32} {p : Client Int32}
    (hp : ValueRead cl start (.db db) 2 dec p)
    (hdec : ∀ b : List UInt8, b ≠ [] → (dec b = .error .abort ↔ b.length = 1)) {x : S7Result Int32}
    (hf : Follows p.run tr x) :
    x = .error .abort ↔ cl.connected = true ∧ ∃ bs, Answered cl 2 (answers tr) bs ∧ bs.length = 1 := by
  rw [hp.eq] at hf
  rw [read_crash_iff hf]
  refine and_congr_right fun _ => exists_congr fun bs => and_congr_right fun _ => ?_
  constructor
  · exact fun ⟨hne, hd⟩ => (hdec bs hne).mp hd
  · intro h1
    have hne : bs ≠ [] := fun h => by rw [h] at h1; cases h1
    exact ⟨hne, (hdec bs hne).mpr h1⟩

/-- An operation on no list of `Trips` never aborts. -/
theorem crash_never {α : Type} {p : Client α} (h : Yields NoAbort p.run) {x : S7Result α}
    (hf : Follows p.run tr x) : x = .error .abort ↔ cl.connected = true ∧ False :=
  ⟨fun hx => absurd hx (h tr x hf), fun hx => hx.2.elim⟩

theorem yields_read {area : Area} {start size : Int32} {α : Type} {dec : List UInt8 → S7Result α}
    {p : Client α} (hp : ValueRead cl start area size dec p) (hdec : ∀ b, NoAbort (dec b)) :
    Yields NoAbort p.run := by
  rw [hp.eq]
  exact fun tr x hf => read_total hdec hf

theorem yields_bytes {area : Area} {start size : Int32} {p : Client (List UInt8)}
    (hp : ByteRead cl start size area p) : Yields NoAbort p.run :=
  yields_read (.bytes hp) .ok

theorem yields_write {area : Area} {start : Int32} {data : List UInt8} {p : Client Unit}
    (hp : ValueWrite cl start area data p) : Yields NoAbort p.run := by
  rw [hp.eq]
  exact yields_chunkedWrite cl area start data

/-- A service of the CPU on a client that is connected, or the error. -/
theorem yields_service {α : Type} {p : Client α} (hp : Yields NoAbort p.run) :
    Yields NoAbort (if cl.connected = false then ofResult (err .notConnected) else p : Client α).run := by
  split
  · exact yields_result (.err _)
  · exact hp

theorem yields_doCtrl (pdu : Frame) (startCmp alreadyCmp : UInt8) :
    Yields NoAbort (doCtrl cl pdu startCmp alreadyCmp).run :=
  yields_service (yields_telegram pdu fun resp =>
    yields_result (parsePlcCtrlResp_total resp startCmp alreadyCmp))

theorem yields_szl {α : Type} (q : Frame) {f : SzlData → Client α} (hf : ∀ szl, Yields NoAbort (f szl).run) :
    Yields NoAbort (send Stop.err q >>= fun _ => receive Stop.err >>= fun resp =>
      ofResult (parseSzlFirst resp) >>= f : Client α).run :=
  yields_telegram q fun resp => yields_then (yields_result (parseSzlFirst_total resp)) hf

theorem yields_szlRead (id index : Int32) (min : Nat) :
    Yields NoAbort (szlRead cl id index min).run := by
  refine yields_service (yields_szl _ fun szl => ?_)
  split
  · exact yields_szl _ fun szl2 => yields_result (parseCpuInfo_total _)
  · exact yields_result (parseCpuInfo_total _)

theorem yields_szlReadCp (id index : Int32) : Yields NoAbort (szlReadCp cl id index).run :=
  yields_service (yields_szl _ fun szl => yields_result (parseCpInfo_total szl.data))

/-- **When an operation aborts**, by cases on the operation. -/
theorem operation_crash_iff (o : Operation) {x : S7Result o.Result}
    (hf : Follows (o.prog takes cl).run tr x) :
    x = .error .abort ↔ cl.connected = true ∧ o.Trips takes cl (answers tr) := by
  cases o with
  | agRead db start size => exact crash_never (yields_bytes (.ag db)) hf
  | agWrite db start data => exact crash_never (yields_write (.bytes (.ag db))) hf
  | agReadString db start maxLen =>
    replace hf : Follows (cl.agReadString takes db start maxLen).run tr x := hf
    rw [agReadString_eq] at hf
    rw [read_crash_iff hf]
    refine and_congr_right fun _ => exists_congr fun bs => and_congr_right fun _ =>
      and_congr_right fun _ => decodeS7String_abort_iff
  | agWriteString db start maxLen value =>
    exact crash_never (yields_service (yields_then (yields_chunkedWrite _ _ _ _) fun _ =>
      yields_ret (.ok _))) hf
  | agReadInt db start =>
    exact word_crash_iff (.int db) (fun b hb => (intValue_abort_iff hb).1) hf
  | agWriteInt db start value => exact crash_never (yields_write (.int db value)) hf
  | agReadWord db start =>
    exact word_crash_iff (.word db) (fun b hb => (intValue_abort_iff hb).2) hf
  | agWriteWord db start value => exact crash_never (yields_write (.word db value)) hf
  | agReadDInt db start => exact crash_never (yields_read (.dint db) (dintField_total db start)) hf
  | agWriteDInt db start value => exact crash_never (yields_write (.dint db value)) hf
  | agReadDWord db start => exact crash_never (yields_read (.dword db) (dwordField_total db start)) hf
  | agWriteDWord db start value => exact crash_never (yields_write (.dword db value)) hf
  | ebRead start size => exact crash_never (yields_bytes .eb) hf
  | ebWrite start data => exact crash_never (yields_write (.bytes .eb)) hf
  | abRead start size => exact crash_never (yields_bytes .ab) hf
  | abWrite start data => exact crash_never (yields_write (.bytes .ab)) hf
  | mbRead start size => exact crash_never (yields_bytes .mb) hf
  | mbWrite start data => exact crash_never (yields_write (.bytes .mb)) hf
  | plcStart => exact crash_never (yields_doCtrl _ _ _) hf
  | plcStop => exact crash_never (yields_doCtrl _ _ _) hf
  | plcRestart => exact crash_never (yields_doCtrl _ _ _) hf
  | plcStatus =>
    exact crash_never (yields_service (yields_telegram _ fun resp =>
      yields_result (parsePlcStatus_total resp))) hf
  | cpuInfo => exact crash_never (yields_szlRead _ _ _) hf
  | cpInfo => exact crash_never (yields_szlReadCp _ _) hf

/-- **Which replies crash the client**: `connect` returns, and so does every operation on any
    replies, with `Ok` or an error but where the replies are of its `Trips`. -/
theorem crash_iff (takes : Int32 → Bool) (cl : S7Client) :
    (∀ (tr : List SockEvent) (x : Except Interrupt (S7Result S7Client)),
      Follows cl.connect.run tr x → x ≠ .ok (.error .abort)) ∧
    ∀ o : Operation,
      (∀ replies : List Frame, ∃ (tr : List (Event Frame Frame S7Error)) (x : S7Result o.Result),
        Follows (o.prog takes cl).run tr x ∧ answers tr <+: replies) ∧
      ∀ (tr : List (Event Frame Frame S7Error)) (x : S7Result o.Result),
        Follows (o.prog takes cl).run tr x →
        (x ≠ .error .abort ↔ ¬ (cl.connected = true ∧ o.Trips takes cl (answers tr))) :=
  ⟨yields_connect_total cl, fun o => ⟨fun replies => exists_follows _ replies .connectionClosed,
    fun _ _ hf => not_congr (operation_crash_iff o hf)⟩⟩

end Operations

/-! ## 4. One byte -/

/-- A reply to a read with one byte of payload. -/
def oneByte : Frame :=
  [0x03, 0x00, 0x00, 0x1A, 0x02, 0xF0, 0x80, 0x32, 0x03, 0x00, 0x00, 0x00, 0x01, 0x00, 0x04,
    0x00, 0x05, 0x00, 0x00, 0x00, 0x00, 0xFF, 0x04, 0x00, 0x01, 0x41]

theorem follows_oneByte :
    Follows ((Operation.agReadInt 1 0).prog (fun _ => true)
        { S7Client.new with connected := true }).run
      [Event.sent (readFrame (.db 1) 0 2 1) (.ok ()), Event.got (.ok oneByte)] (.error .abort) := by
  have hcheck : readCheck oneByte = .ok [0x41] := by decide +kernel
  have hreqs : readReqs { S7Client.new with connected := true } (.db 1) 0 2 =
      [.ok (readFrame (.db 1) 0 2 1)] := readReqs_one (by decide) (by decide)
  show Follows (S7Client.agReadInt _ 1 0).run _ _
  rw [(ValueRead.int 1).eq, chunkedRead_eq rfl, hreqs]
  exact follows_ofResult_iff.mpr ⟨.ok [0x41], follows_ofResult_iff.mpr
    ⟨_, follows_session_iff.mpr (.accepted _ hcheck .done), rfl⟩, rfl⟩

/-- The reply above is one on which `ag_read_int` aborts. -/
theorem crash_oneByte :
    (Operation.agReadInt 1 0).Trips (fun _ => true) { S7Client.new with connected := true } [oneByte] := by
  by_contra hno
  have h := ((crash_iff (fun _ => true) { S7Client.new with connected := true }).2 (.agReadInt 1 0)).2
    _ _ follows_oneByte
  exact h.mpr (fun ht => hno ht.2) rfl

/-- **A reply that crashes the client**: a well-formed frame with one byte for `ag_read_int`. -/
theorem crash_refuted :
    TpktFrame oneByte ∧
    ¬ ∀ (takes : Int32 → Bool) (cl : S7Client) (o : Operation)
      (tr : List (Event Frame Frame S7Error)) (x : S7Result o.Result),
      Follows (o.prog takes cl).run tr x → (∀ f ∈ answers tr, TpktFrame f) → x ≠ .error .abort := by
  have hframe : TpktFrame oneByte := ⟨_, _, _, _, rfl, rfl⟩
  refine ⟨hframe, fun h => h _ _ _ _ _ follows_oneByte ?_ rfl⟩
  intro f hf
  cases List.mem_singleton.mp (show f ∈ [oneByte] from hf)
  exact hframe

end MoonS7
