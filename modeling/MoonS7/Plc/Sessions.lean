import Mathlib.Order.CompletePartialOrder
import MoonS7.Client.Accesses
import MoonS7.Client.Values
import MoonS7.Lib.Series
import MoonS7.Plc.Locality
import MoonS7.Plc.OnSocket
import MoonS7.Protocol.StringEncoding

/-!
# Sessions on data

Operations on data one after the other, over the chunks, the frames and the bytes of one socket, are
accesses to a memory.

Main results: `session_refines` -- a session returns what the accesses come to, operation by
operation, and leaves the PLC with the memory they leave; `session_reads_back` -- a variable that is
written and later read in a session is read as it was written, whatever is done elsewhere meanwhile.
-/

namespace MoonS7

open Interaction Port Ranges

/-! ## 1. Sessions -/

section Session

variable {cl : S7Client} (hc : cl.connected = true) (hpdu : cl.pduSize.toInt ≤ 960)

include hc hpdu

/-- **An access against the PLC** comes to its effect on the memory. -/
theorem run_access {β : Type} {a : Access β} (ha : a.InRange) {s : PlcLink} (hs : s.replies = []) :
    ∃ qs, run plc (a.prog cl).run s =
      ((a.effect s.mem).1, ⟨(a.effect s.mem).2, [], s.served ++ qs⟩) := by
  cases ha with
  | @reads area r start size dec ha h₀ h₁ hr =>
    have h := run_byteRead hc hpdu ha h₀ h₁ hr (.chunked area) hs
    rw [hs] at h
    rw [Access.prog, run_op_ok plc h, Access.effect, ha.region]
    exact ⟨_, rfl⟩
  | @writes area r start data res ha h₀ hr =>
    have h := run_byteWrite hc hpdu ha h₀ hr (.chunked area) hs
    rw [Access.prog, run_op_ok plc h, Access.effect, ha.region]
    exact ⟨_, rfl⟩

/-- The requests of an access have replies that fit a frame. -/
theorem asks_access {β : Type} (a : Access β) :
    Asks FramedReply (a.prog cl).run := by
  cases a with
  | reads area start size dec => exact (asks_chunkedRead hc area start hpdu size).op_bind fun _ => .ret _
  | writes area start data res => exact (asks_chunkedWrite hc area start data).op_bind fun _ => .ret _

variable {takes : Int32 → Bool} (ops : List (DataOp takes))

/-- **A session against the PLC.** -/
theorem run_session_plc {s : PlcLink} (hs : s.replies = []) :
    ∃ qs, run plc (series (DataOp.prog cl) ops : Client _).run s =
      (.ok (effects DataOp.effect ops s.mem).1,
        ⟨(effects DataOp.effect ops s.mem).2, [], s.served ++ qs⟩) := by
  have hstep : ∀ d ∈ ops, ∀ (t : PlcLink) m, (t.mem = m ∧ t.replies = [] ∧ s.served <+: t.served) →
      ∃ t', run plc (DataOp.prog cl d).run t = ((d.effect m).1, t') ∧
        t'.mem = (d.effect m).2 ∧ t'.replies = [] ∧ s.served <+: t'.served := by
    rintro d - t m ⟨rfl, ht, hpre⟩
    obtain ⟨qs, hrun⟩ := run_access hc hpdu d.inRange ht
    rw [d.prog_eq hc]
    exact ⟨_, hrun, rfl, rfl, hpre.trans (List.prefix_append _ _)⟩
  obtain ⟨⟨m', rs, served⟩, hrun, rfl, rfl, qs, rfl⟩ :=
    run_series hstep ⟨rfl, hs, List.prefix_refl _⟩
  exact ⟨qs, hrun⟩

/-- What a session sends is framed, and so is what it takes for a reply. -/
theorem asks_ops : Asks FramedReply (series (DataOp.prog cl) ops : Client _).run :=
  asks_series fun d _ => by
    rw [d.prog_eq hc]
    exact asks_access hc hpdu d.access

/-- **Sessions are accesses**: on the socket a session returns what the accesses come to on the
    memory of the PLC, leaves the memory they leave, and nothing to be read. -/
theorem session_refines {sock : Socket} (ho : cl.tcp.Open sock) (M : Mem) (served : List Frame) :
    ∃ qs, run plcSocket (cl.onSocket (series (DataOp.prog cl) ops)).run ⟨M, [], served⟩ =
      (.ok (.ok (effects DataOp.effect ops M).1),
        ⟨(effects DataOp.effect ops M).2, [], served ++ qs⟩) := by
  obtain ⟨qs, hlink⟩ := run_session_plc hc hpdu ops (s := ⟨M, [], served⟩) rfl
  obtain ⟨s', hs, rfl, -⟩ :=
    run_onSocket ho (asks_ops hc hpdu ops) (t := ⟨M, [], served⟩) ⟨rfl, nofun⟩
  rw [hlink] at hs
  exact ⟨qs, hs⟩

end Session

/-- A client on an open socket. -/
def online : S7Client :=
  { S7Client.new with connected := true, tcp := (TcpConnection.new {}).opened ⟨0⟩ 480 }

theorem open_online : online.tcp.Open ⟨0⟩ := ⟨rfl, rfl⟩

def writeFlags : DataOp fun _ => true :=
  ⟨.mbWrite 4 [1, 2], _, rfl, .writes .flags (by decide) (by decide)⟩

def readFlags : DataOp fun _ => true :=
  ⟨.mbRead 4 3, _, rfl, .reads .flags (by decide) (by decide) (by decide)⟩

/-- Two bytes are written to the flags, and three read from where they begin. -/
theorem session_refines_flags :
    ∃ qs, run plcSocket (online.onSocket (series (DataOp.prog online) [writeFlags, readFlags])).run
        ⟨fun _ _ => 7, [], []⟩ =
      (.ok (.ok [⟨writeFlags, .ok ()⟩, ⟨readFlags, .ok ([1, 2, 7] : List UInt8)⟩]),
        ⟨Mem.store (fun _ _ => 7) .flags 4 [1, 2], [], [] ++ qs⟩) :=
  session_refines rfl (by decide) [writeFlags, readFlags] open_online (fun _ _ => 7) []

/-! ## 2. Variables -/

/-- The cells an access changes. -/
def Access.changes {β : Type} (a : Access β) : Set Cell := cells (a.range.1, a.range.2.1, a.stored.length)

/-- `ReadsSet w r P`: the operation `w` writes a variable and `r` reads it; for what was written it
    returns a `v` with `P v`. -/
inductive ReadsSet (takes : Int32 → Bool) : Operation → (o : Operation) → (o.Result → Prop) → Prop where
  | ag (db start : Int32) {size : Int32} {data : List UInt8} (h : size.toInt = data.length) :
      ReadsSet takes (.agWrite db start data) (.agRead db start size) (· = data)
  | eb (start : Int32) {size : Int32} {data : List UInt8} (h : size.toInt = data.length) :
      ReadsSet takes (.ebWrite start data) (.ebRead start size) (· = data)
  | ab (start : Int32) {size : Int32} {data : List UInt8} (h : size.toInt = data.length) :
      ReadsSet takes (.abWrite start data) (.abRead start size) (· = data)
  | mb (start : Int32) {size : Int32} {data : List UInt8} (h : size.toInt = data.length) :
      ReadsSet takes (.mbWrite start data) (.mbRead start size) (· = data)
  | int (db start v : Int32) : ReadsSet takes (.agWriteInt db start v) (.agReadInt db start)
      fun (r : Int32) => -32768 ≤ r.toInt ∧ r.toInt ≤ 32767 ∧ r.toInt % 2 ^ 16 = v.toInt % 2 ^ 16
  | word (db start v : Int32) : ReadsSet takes (.agWriteWord db start v) (.agReadWord db start)
      fun (r : Int32) => 0 ≤ r.toInt ∧ r.toInt ≤ 65535 ∧ r.toInt % 2 ^ 16 = v.toInt % 2 ^ 16
  | dint (db start v : Int32) : ReadsSet takes (.agWriteDInt db start v) (.agReadDInt db start) (· = v)
  | dword (db start : Int32) (w : Int64) :
      ReadsSet takes (.agWriteDWord db start w) (.agReadDWord db start)
        fun (r : Int64) => 0 ≤ r.toInt ∧ r.toInt ≤ 2 ^ 32 - 1 ∧ r.toInt % 2 ^ 32 = w.toInt % 2 ^ 32
  | string (db start : Int32) {maxLen : Int32} {s : List Char}
      (htakes : ∀ c : Char, takes (Int32.ofNat c.toNat) = true)
      (h : 0 ≤ maxLen.toInt ∧ maxLen.toInt ≤ 255) (hs : (Utf8.bytes s).length ≤ maxLen.toInt) :
      ReadsSet takes (.agWriteString db start maxLen (text s)) (.agReadString db start maxLen)
        (· = text s)

/-- The two ends of a variable: what the writer stores in a range, the reader takes from there. -/
structure SameRange {β γ : Type} (P : γ → Prop) (w : Access β) (r : Access γ) (area : Area)
    (start size : Int32) (data : List UInt8) (res : β) (dec : List UInt8 → S7Result γ) : Prop where
  writer : w = .writes area start data res
  reader : r = .reads area start size dec
  covers : size.toInt = data.length
  decodes : ∃ v, dec data = .ok v ∧ P v

/-- A string that fits is read from the bytes of its field. -/
theorem decode_stringField {takes : Int32 → Bool}
    (htakes : ∀ c : Char, takes (Int32.ofNat c.toNat) = true) (db start : Int32) {maxLen : Int32}
    {s : List Char} (h : 0 ≤ maxLen.toInt ∧ maxLen.toInt ≤ 255)
    (hs : (Utf8.bytes s).length ≤ maxLen.toInt) :
    (maxLen + 2).toInt = ((StringField.new db start maxLen (text s)).toBytes.length : Nat) ∧
      decodeS7String takes (StringField.new db start maxLen (text s)).toBytes = .ok (text s) := by
  have hbody : fieldChars maxLen s = Utf8.bytes s := List.take_of_length_le (by omega)
  have hsum : (maxLen + 2).toInt = maxLen.toInt + 2 := by
    rw [Int32.toInt_add, show (2 : Int32).toInt = 2 from rfl, Int.bmod_eq_of_le] <;> omega
  have hbytes : (StringField.new db start maxLen (text s)).toBytes =
      [tb maxLen, UInt8.ofNat (Utf8.bytes s).length] ++ Utf8.bytes s ++
        List.replicate (maxLen.toInt.toNat - (Utf8.bytes s).length) 0 := by
    rw [StringField.toBytes]
    simp only [StringField.new, encodeS7String_text h, hbody, hsum, List.length_append,
      List.length_cons, List.length_nil]
    congr 2
    omega
  refine ⟨?_, decode_text htakes ?_⟩
  · rw [hbytes, hsum]
    simp only [List.length_append, List.length_cons, List.length_nil, List.length_replicate]
    omega
  · rw [hbytes, s7StringCodes_field _ (by omega), ← List.append_nil (Utf8.bytes s), utf8Codes_bytes]
    exact List.append_nil _

/-- **The two ends of every variable fit.** -/
theorem ReadsSet.sameRange {takes : Int32 → Bool} {w r : Operation} {P : r.Result → Prop}
    (h : ReadsSet takes w r P) {aw : Access w.Result} {ar : Access r.Result}
    (hw : w.access takes = some aw) (hr : r.access takes = some ar) :
    ∃ area start size data res dec, SameRange P aw ar area start size data res dec := by
  cases h with
  | ag db start h => cases hw; cases hr; exact ⟨_, _, _, _, _, _, rfl, rfl, h, _, rfl, rfl⟩
  | eb start h => cases hw; cases hr; exact ⟨_, _, _, _, _, _, rfl, rfl, h, _, rfl, rfl⟩
  | ab start h => cases hw; cases hr; exact ⟨_, _, _, _, _, _, rfl, rfl, h, _, rfl, rfl⟩
  | mb start h => cases hw; cases hr; exact ⟨_, _, _, _, _, _, rfl, rfl, h, _, rfl, rfl⟩
  | int db start v =>
    cases hw
    cases hr
    obtain ⟨a, hback, hp⟩ := int_readsBack S7Client.new db start v
    exact ⟨_, _, _, _, _, _, rfl, rfl, hback.covers, a, hback.decodes, hp⟩
  | word db start v =>
    cases hw
    cases hr
    obtain ⟨a, hback, hp⟩ := word_readsBack S7Client.new db start v
    exact ⟨_, _, _, _, _, _, rfl, rfl, hback.covers, a, hback.decodes, hp⟩
  | dint db start v =>
    cases hw
    cases hr
    have hback := dint_readsBack S7Client.new db start v
    exact ⟨_, _, _, _, _, _, rfl, rfl, hback.covers, v, hback.decodes, rfl⟩
  | dword db start v =>
    cases hw
    cases hr
    obtain ⟨a, hback, hp⟩ := dword_readsBack S7Client.new db start v
    exact ⟨_, _, _, _, _, _, rfl, rfl, hback.covers, a, hback.decodes, hp⟩
  | string db start htakes h hs =>
    cases hw
    cases hr
    obtain ⟨hlen, hdec⟩ := decode_stringField htakes db start h hs
    exact ⟨_, _, _, _, _, _, rfl, rfl, hlen, _, hdec, rfl⟩

section Variables

variable {takes : Int32 → Bool}

/-- Accesses that store nothing in the cells `F` leave them as they are. -/
theorem effects_frame {F : Set Cell} {ops : List (DataOp takes)}
    (h : ∀ d ∈ ops, Disjoint d.access.changes F) (m : Mem) :
    AgreeOn F (effects DataOp.effect ops m).2 m := by
  induction ops generalizing m with
  | nil => exact fun _ _ => rfl
  | cons d ops ih =>
    obtain ⟨hd, hops⟩ := List.forall_mem_cons.mp h
    intro c hc
    show (effects DataOp.effect ops (d.effect m).2).2 c.1 c.2 = m c.1 c.2
    rw [ih hops _ c hc, DataOp.effect, Access.effect_mem]
    exact Mem.store_outside m fun hm => Set.disjoint_left.mp hd hm hc

/-- **A variable is read as it was written**, whatever is done elsewhere meanwhile. -/
theorem effects_read_back {w r : DataOp takes} {P : r.Result → Prop} (h : ReadsSet takes w.op r.op P)
    {mid : List (DataOp takes)} (hmid : ∀ d ∈ mid, Disjoint d.access.changes w.access.changes)
    (m : Mem) : ∃ v, (r.effect (effects DataOp.effect mid (w.effect m).2).2).1 = .ok v ∧ P v := by
  obtain ⟨area, start, size, data, res, dec, hw, hr, hsize, v, hv, hp⟩ := h.sameRange w.eq r.eq
  refine ⟨v, ?_, hp⟩
  have hframe := effects_frame hmid (w.effect m).2
  rw [hw] at hframe
  have hwin := AgreeOn.window hframe
  rw [DataOp.effect, hr]
  show dec (window ((effects DataOp.effect mid (w.effect m).2).2 area.region) start.toInt.toNat
    size.toInt.toNat) = _
  rw [hsize, Int.toNat_natCast]
  refine Eq.trans (congrArg dec (hwin.trans ?_)) hv
  rw [DataOp.effect, hw]
  show window (m.store area.region start.toInt.toNat data area.region) start.toInt.toNat data.length = data
  rw [Mem.store_same, window_splice]

/-- **A variable that is written and later read in a session** is read as it was written. -/
theorem session_reads_back {cl : S7Client} (hc : cl.connected = true) (hpdu : cl.pduSize.toInt ≤ 960)
    {sock : Socket} (ho : cl.tcp.Open sock) {w r : DataOp takes} {P : r.Result → Prop}
    (h : ReadsSet takes w.op r.op P) (pre post : List (DataOp takes)) {mid : List (DataOp takes)}
    (hmid : ∀ d ∈ mid, Disjoint d.access.changes w.access.changes) (M : Mem) (served : List Frame) :
    ∃ xs s', run plcSocket (cl.onSocket (series (DataOp.prog cl) (pre ++ w :: mid ++ r :: post))).run
        ⟨M, [], served⟩ = (.ok (.ok xs), s') ∧
      ∃ v, xs[pre.length + 1 + mid.length]? = some ⟨r, .ok v⟩ ∧ P v := by
  obtain ⟨qs, hlink⟩ :=
    run_session_plc hc hpdu (pre ++ w :: mid ++ r :: post) (s := ⟨M, [], served⟩) rfl
  obtain ⟨s', hrun, -, -⟩ := run_onSocket ho (asks_ops hc hpdu (pre ++ w :: mid ++ r :: post))
    (t := ⟨M, [], served⟩) ⟨rfl, nofun⟩
  rw [hlink] at hrun
  obtain ⟨v, hv, hp⟩ := effects_read_back h hmid (effects DataOp.effect pre M).2
  refine ⟨_, _, hrun, v, ?_, hp⟩
  have hget : (effects DataOp.effect ((pre ++ w :: mid) ++ r :: post) M).1[(pre ++ w :: mid).length]? =
      some ⟨r, _⟩ := effects_getElem? (pre ++ w :: mid) post r M
  rw [effects_append pre (w :: mid)] at hget
  have hlen : (pre ++ w :: mid).length = pre.length + 1 + mid.length := by
    rw [List.length_append, List.length_cons]
    omega
  rw [hlen] at hget
  rw [hget]
  exact congrArg (fun x : S7Result r.Result => some (⟨r, x⟩ : Σ d : DataOp takes, S7Result d.Result)) hv

end Variables

def setInt (start v : Int32) (h₀ : 0 ≤ start.toInt)
    (hr : start.toInt + (intBytes v).length ≤ 2 ^ 21) : DataOp fun _ => true :=
  ⟨.agWriteInt 1 start v, _, rfl, .writes (.db (by decide) (by decide)) h₀ hr⟩

def getInt : DataOp fun _ => true :=
  ⟨.agReadInt 1 0, _, rfl, .reads (.db (by decide) (by decide)) (by decide) (by decide) (by decide)⟩

/-- A negative number is read back, with another variable set in between. -/
theorem session_reads_back_int :
    ∃ xs s', run plcSocket (online.onSocket (series (DataOp.prog online)
        ([] ++ setInt 0 (-2) (by decide) (by decide) :: [setInt 2 5 (by decide) (by decide)] ++
          getInt :: []))).run ⟨fun _ _ => 0, [], []⟩ = (.ok (.ok xs), s') ∧
      ∃ v : Int32, xs[2]? = some ⟨getInt, .ok v⟩ ∧ -32768 ≤ v.toInt ∧ v.toInt ≤ 32767 ∧
        v.toInt % 2 ^ 16 = (-2 : Int32).toInt % 2 ^ 16 := by
  refine session_reads_back rfl (by decide) open_online (ReadsSet.int 1 0 (-2)) [] [] ?_
    (fun _ _ => 0) []
  intro d hd
  cases List.mem_singleton.mp hd
  refine Set.disjoint_left.mpr fun c h₁ h₂ => ?_
  have hl : 2 ≤ c.2 := h₁.2.1
  have hu : c.2 < 0 + 2 := h₂.2.2
  omega

end MoonS7
