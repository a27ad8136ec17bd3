import MoonS7.Client.Matching
import MoonS7.Lib.Registers
import MoonS7.Plc.Faults
import MoonS7.Plc.Sessions

/-!
# Sessions over a connection that fails

Each request of a session meets a fate (`Fate`), whichever it is, and the caller goes on whatever an
operation comes to.

Main results: `session_attempts` -- every operation of a session either comes to its effect or fails,
and one that fails has changed nothing, or stored a beginning of its data; `session_mayHold` -- so
after a session each byte holds what the last write that succeeded put there, or what one that
failed since has; and `retried_once` -- a write made again until it succeeds has stored its data.
-/

namespace MoonS7

open Interaction Port Ranges Registers

/-! ## 1. One access -/

/-- What an access comes to where requests can get lost. -/
inductive Access.Attempt {β : Type} (a : Access β) (m : Mem) : S7Result β → Mem → Prop where
  | done : Attempt a m (a.effect m).1 (a.effect m).2
  | failed (e : S7Error) {k : Nat} (hk : k ≤ a.stored.length) :
      Attempt a m (err e) (m.store a.range.1 a.range.2.1 (a.stored.take k))

/-- The client takes no rejection for data. -/
theorem readCheck_readRejection {rc : UInt8} (hrc : rc ≠ 0xFF) (refn : Nat) :
    ∃ e, readCheck (readRejection rc refn) = err e := by
  rcases parseResponse_cases (readRejection rc refn) with ⟨s7, hr, -⟩ | ⟨⟨e, he⟩, -⟩
  · have hf : findS7 (readRejection rc refn) = some 7 := findS7_frame (by decide) (by decide)
    cases hf.symm.trans hr.header
    exact absurd (Option.some.inj hr.code) hrc
  · exact ⟨e, by rw [readCheck, he]; rfl⟩

/-- No reply is left over after an exchange. -/
theorem exchange_silent {q : Frame} {L L' : FaultyLink} {x : Except Stop Frame} (hL : L.reply = none)
    (h : Exec faultStep (exchange Stop.err q : Client Frame).run L x L') : L'.reply = none := by
  rcases exec_exchange_iff.mp h with ⟨e, h₁, -⟩ | ⟨L₁, h₁, h₂⟩
  · cases h₁ with
    | undelivered => exact hL
    | lost => rfl
  · rcases h₂ with ⟨e, h₂, -⟩ | ⟨a, h₂, -⟩
    · cases h₂ with
      | giveUp hn => exact hn
    · cases h₂
      rfl

theorem paired_silent {α : Type} {p : Client α} (hp : Paired Stop.err p) {L L' : FaultyLink}
    {x : S7Result α} (hL : L.reply = none) (h : Exec faultStep p.run L x L') : L'.reply = none := by
  induction hp generalizing L with
  | done y =>
    obtain ⟨-, rfl⟩ := exec_ret_iff.mp h
    exact hL
  | exchange _ ih =>
    rcases exec_op_bind_iff.mp h with ⟨e, h₁, -⟩ | ⟨a, L₁, h₁, h₂⟩
    · exact exchange_silent hL h₁
    · exact ih a (exchange_silent hL h₁) h₂

/-- **The requests of a read** change nothing; they return the bytes, all of them, or fail. -/
theorem exec_fault_reads {cl : S7Client} {area : Area} {start : Int32} {l : List (Nat × Nat)}
    (hl : ∀ p ∈ l, p.2 ≤ 937) {L L' : FaultyLink} {x : Except Stop (List (List UInt8))}
    (hL : L.reply = none)
    (h : Exec faultStep (session Stop.err readCheck (l.map (readReq cl area start)) :
      Client (List (List UInt8))).run L x L') :
    L'.mem = L.mem ∧ (x = .ok (readPieces area start L.mem l) ∨ ∃ e, x = err e) := by
  induction l generalizing L x with
  | nil =>
    obtain ⟨rfl, rfl⟩ := exec_ret_iff.mp h
    exact ⟨rfl, Or.inl rfl⟩
  | cons p l ih =>
    obtain ⟨hp, hl⟩ := List.forall_mem_cons.mp hl
    have hserve := plcServe_readFrame L.mem area (start + Int32.ofNat p.1) (Int32.ofNat p.2) cl.pduRef
    rw [show bits (Int32.ofNat p.2) % 65536 = p.2 by rw [bits_ofNat]; omega] at hserve
    rw [List.map_cons, readReq] at h
    rcases exec_session_cons.mp h with ⟨d, he, rfl⟩ | ⟨a, L₁, he, hrest⟩
    · obtain ⟨f, -, -, hf⟩ := exec_fault_exchange hserve hL he
      cases f with
      | undelivered =>
        obtain ⟨⟨e, hx⟩, hm⟩ := hf
        cases hx
        exact ⟨hm, Or.inr ⟨e, rfl⟩⟩
      | acked => cases hf.1
      | lost =>
        obtain ⟨⟨e, hx⟩, hm⟩ := hf
        cases hx
        exact ⟨hm, Or.inr ⟨e, rfl⟩⟩
      | rejected rc =>
        obtain ⟨-, ⟨refn, hx⟩, -⟩ := hf
        cases hx
    · obtain ⟨f, -, hL₁, hf⟩ := exec_fault_exchange hserve hL he
      cases f with
      | undelivered =>
        obtain ⟨⟨e, hx⟩, -⟩ := hf
        cases hx
      | lost =>
        obtain ⟨⟨e, hx⟩, -⟩ := hf
        cases hx
      | rejected rc =>
        obtain ⟨hrc, ⟨refn, hx⟩, hm⟩ := hf
        rw [rejection_readFrame] at hx
        cases hx
        obtain ⟨e, hbad⟩ := readCheck_readRejection hrc refn
        rcases hrest with ⟨d, hd, rfl, rfl⟩ | ⟨b, y, hb, -⟩
        · cases hbad.symm.trans hd
          exact ⟨hm, Or.inr ⟨e, rfl⟩⟩
        · cases hbad.symm.trans hb
      | acked =>
        obtain ⟨hx, hm⟩ := hf
        cases hx
        have hcheck : readCheck (buildReadResp (window (L.mem area.region)
            (bits (start + Int32.ofNat p.1) % 2 ^ 21) p.2) (bits cl.pduRef % 65536)) =
            .ok (window (L.mem area.region) (bits (start + Int32.ofNat p.1) % 2 ^ 21) p.2) := by
          rw [readCheck, parseResponse_buildReadResp (by rw [length_window]; omega)]
          rfl
        rcases hrest with ⟨d, hd, -⟩ | ⟨b, y, hb, rfl, hs⟩
        · cases hcheck.symm.trans hd
        · cases hcheck.symm.trans hb
          obtain ⟨hm', hy⟩ := ih hl hL₁ hs
          rw [hm] at hm' hy
          rcases hy with rfl | ⟨e, rfl⟩
          · exact ⟨hm', Or.inl rfl⟩
          · exact ⟨hm', Or.inr ⟨e, rfl⟩⟩

section Access

variable {cl : S7Client} (hc : cl.connected = true) (hpdu : cl.pduSize.toInt ≤ 960) {area : Area}
  {r : Region} (ha : Names area r) {start : Int32} (h₀ : 0 ≤ start.toInt) {L L' : FaultyLink}
  (hL : L.reply = none)

include hc hpdu ha h₀ hL

theorem exec_fault_chunkedRead {size : Int32} (h₁ : 1 ≤ size.toInt)
    (hr : start.toInt + size.toInt ≤ 2 ^ 21) {x : S7Result (List UInt8)}
    (h : Exec faultStep (chunkedRead cl area start size).run L x L') :
    L'.mem = L.mem ∧ (x = .ok (window (L.mem r) start.toInt.toNat size.toInt.toNat) ∨ ∃ e, x = err e) := by
  have hl : ∀ p ∈ cuts (maxChunk cl.pduSize 23) 0 size.toInt.toNat, p.2 ≤ 937 := fun p hp =>
    chunk_le hpdu (by decide) hp
  have hbytes := readPieces_eq ha h₀ (tiles_cuts (maxChunk cl.pduSize 23) 0 size.toInt.toNat)
    (by omega) L.mem
  rw [chunkedRead_eq hc, readReqs] at h
  rcases exec_op_bind_iff.mp h with ⟨d, hs, rfl⟩ | ⟨ps, L₁, hs, hend⟩
  · obtain ⟨hm, hx | ⟨e, hx⟩⟩ := exec_fault_reads hl hL hs
    · cases hx
    · cases hx
      exact ⟨hm, Or.inr ⟨e, rfl⟩⟩
  · obtain ⟨rfl, rfl⟩ := exec_ret_iff.mp hend
    obtain ⟨hm, hx | ⟨e, hx⟩⟩ := exec_fault_reads hl hL hs
    · cases hx
      rw [hbytes, length_window, if_neg (by omega)]
      exact ⟨hm, Or.inl rfl⟩
    · cases hx

theorem exec_fault_chunkedWrite {data : List UInt8} (hr : start.toInt + data.length ≤ 2 ^ 21)
    {x : S7Result Unit} (h : Exec faultStep (chunkedWrite cl area start data).run L x L') :
    (x = .ok () ∧ L'.mem = L.mem.store r start.toInt.toNat data) ∨
    ∃ e k, x = err e ∧ k ≤ data.length ∧ L'.mem = L.mem.store r start.toInt.toNat (data.take k) := by
  have ht := tiles_cuts (maxChunk cl.pduSize 35) 0 data.length
  have hl : ∀ p ∈ cuts (maxChunk cl.pduSize 35) 0 data.length, p.2 ≤ 929 := fun p hp =>
    Nat.le_trans (chunk_le hpdu (by decide) hp) (by decide)
  have hmem : L.mem = L.mem.store r start.toInt.toNat (data.take 0) := by
    rw [List.take_zero, Mem.store_nil]
  rw [chunkedWrite_eq hc, writeReqs] at h
  rcases exec_op_bind_iff.mp h with ⟨d, hs, rfl⟩ | ⟨bs, L₁, hs, hend⟩
  · rcases exec_fault_writes ha h₀ hr ht (by omega) hl hL hmem hs with
      ⟨_, hx, -⟩ | ⟨e, done, p, f, hx, hfail⟩
    · cases hx
    · cases hx
      obtain ⟨rest, hpieces⟩ := hfail.pieces
      have hb := ht.bounds (p := p) (by rw [hpieces]; exact List.mem_append_right _ List.mem_cons_self)
      exact Or.inr ⟨e, _, rfl, by split <;> omega, hfail.mem⟩
  · obtain ⟨rfl, rfl⟩ := exec_ret_iff.mp hend
    rcases exec_fault_writes ha h₀ hr ht (by omega) hl hL hmem hs with
      ⟨_, -, -, hm⟩ | ⟨e, _, _, _, hx, -⟩
    · rw [Nat.zero_add, List.take_length] at hm
      exact Or.inl ⟨rfl, hm⟩
    · cases hx

end Access

theorem paired_access (cl : S7Client) {β : Type} (a : Access β) : Paired Stop.err (a.prog cl) := by
  cases a with
  | reads area start size dec => exact paired_read cl area start size dec
  | writes area start data res => exact (paired_write cl area start data).bind fun _ => .done _

/-- **One access** comes to its effect, or fails with a beginning of its data stored. -/
theorem exec_access {cl : S7Client} (hc : cl.connected = true) (hpdu : cl.pduSize.toInt ≤ 960) {β : Type}
    {a : Access β} (ha : a.InRange) {L L' : FaultyLink} {x : S7Result β} (hL : L.reply = none)
    (h : Exec faultStep (a.prog cl).run L x L') : a.Attempt L.mem x L'.mem ∧ L'.reply = none := by
  refine ⟨?_, paired_silent (paired_access cl a) hL h⟩
  cases ha with
  | @reads area r start size dec ha h₀ h₁ hr =>
    have hdone := Access.Attempt.done (a := .reads area start size dec) (m := L.mem)
    have hfail := fun e => Access.Attempt.failed (a := .reads area start size dec) (m := L.mem) e
      (Nat.zero_le 0)
    simp only [Access.stored, List.take_nil, Mem.store_nil] at hfail
    rw [Access.effect, ha.region] at hdone
    rcases exec_op_bind_iff.mp h with ⟨e, hs, rfl⟩ | ⟨b, L₁, hs, hdec⟩
    · obtain ⟨hm, hx | ⟨e', hx⟩⟩ := exec_fault_chunkedRead hc hpdu ha h₀ hL h₁ hr hs
      · cases hx
      · cases hx
        rw [hm]
        exact hfail e'
    · obtain ⟨rfl, rfl⟩ := exec_ret_iff.mp hdec
      obtain ⟨hm, hx | ⟨e', hx⟩⟩ := exec_fault_chunkedRead hc hpdu ha h₀ hL h₁ hr hs
      · cases hx
        rw [hm]
        exact hdone
      · cases hx
  | @writes area r start data res ha h₀ hr =>
    rcases exec_op_bind_iff.mp h with ⟨e, hs, rfl⟩ | ⟨b, L₁, hs, hret⟩
    · rcases exec_fault_chunkedWrite hc hpdu ha h₀ hL hr hs with ⟨hx, -⟩ | ⟨e', k, hx, hk, hm⟩
      · cases hx
      · cases hx
        rw [hm, ← ha.region]
        exact .failed (a := .writes area start data res) e' hk
    · obtain ⟨rfl, rfl⟩ := exec_ret_iff.mp hret
      rcases exec_fault_chunkedWrite hc hpdu ha h₀ hL hr hs with ⟨-, hm⟩ | ⟨e', k, hx, -, -⟩
      · rw [hm, ← ha.region]
        exact .done (a := .writes area start data res)
      · cases hx

/-! ## 2. Sessions -/

section Session

variable {cl : S7Client} (hc : cl.connected = true) (hpdu : cl.pduSize.toInt ≤ 960)
  {takes : Int32 → Bool}

include hc hpdu

/-- One operation of a session is an attempt, and leaves no reply behind. -/
theorem exec_dataOp (d : DataOp takes) {L L' : FaultyLink} {m : Mem} {y : S7Result d.Result}
    (hL : L.mem = m ∧ L.reply = none) (h : Exec faultStep (DataOp.prog cl d).run L y L') :
    ∃ m', d.access.Attempt m y m' ∧ L'.mem = m' ∧ L'.reply = none := by
  obtain ⟨rfl, hn⟩ := hL
  rw [d.prog_eq hc] at h
  obtain ⟨ha, hn'⟩ := exec_access hc hpdu d.inRange hn h
  exact ⟨_, ha, rfl, hn'⟩

variable {ops : List (DataOp takes)} {L L' : FaultyLink}
  {x : S7Result (Results (DataOp takes) DataOp.Result Stop)} (hL : L.reply = none)
  (h : Exec faultStep (series (DataOp.prog cl) ops : Client _).run L x L')

include hL h

/-- **A session over a connection that fails**: whatever the fates of its requests, each operation
    comes to its effect or fails with a beginning of its data stored, and the next goes on from
    there. -/
theorem session_attempts : ∃ xs, x = .ok xs ∧
    Plays (fun (d : DataOp takes) m y m' => d.access.Attempt m y m') ops L.mem xs L'.mem := by
  obtain ⟨xs, m', hx, hplays, rfl, -⟩ :=
    exec_series (fun d _ _ _ _ _ hL hx => exec_dataOp hc hpdu d hL hx) ⟨rfl, hL⟩ h
  exact ⟨xs, hx, hplays⟩

end Session

/-! ## 3. Which values a byte may hold -/

/-- The bytes an access stores, cell by cell. -/
def Access.values {β : Type} (a : Access β) (c : Cell) : Option UInt8 :=
  if c.1 = a.range.1 ∧ a.range.2.1 ≤ c.2 then a.stored[c.2 - a.range.2.1]? else none

/-- A memory by its cells. -/
def byCell (m : Mem) : Cell → UInt8 := fun c => m c.1 c.2

theorem byCell_store (m : Mem) (r : Region) (off : Nat) (bs : List UInt8) (c : Cell) :
    byCell (m.store r off bs) c =
      (if c.1 = r ∧ off ≤ c.2 then bs[c.2 - off]? else none).getD (byCell m c) := by
  obtain ⟨r', o⟩ := c
  show m.store r off bs r' o = _
  by_cases hr : r' = r
  · subst hr
    rw [Mem.store_same]
    by_cases ho : off ≤ o
    · rw [if_pos ⟨rfl, ho⟩, splice, if_pos ho]
      rfl
    · rw [if_neg fun h => ho h.2, splice, if_neg ho]
      rfl
  · rw [Mem.store_other m hr, if_neg fun h => hr h.1]
    rfl

/-- An operation of a session as a write. -/
def asWrite {takes : Int32 → Bool} (o : Σ d : DataOp takes, S7Result d.Result) : Write Cell UInt8 :=
  ⟨o.1.access.values, o.2.isOk⟩

section Values

variable {takes : Int32 → Bool}

theorem effect_values (d : DataOp takes) (m : Mem) (c : Cell) :
    byCell (d.effect m).2 c = (d.access.values c).getD (byCell m c) := by
  rw [DataOp.effect, Access.effect_mem, byCell_store]
  rfl

/-- An attempt is a write that may have been cut short. -/
theorem attempt_step {d : DataOp takes} {m m' : Mem} {x : S7Result d.Result}
    (h : d.access.Attempt m x m') : (asWrite ⟨d, x⟩).Step (byCell m) (byCell m') := by
  cases h with
  | done =>
    have hval := effect_values d m
    refine ⟨fun c => ?_, fun _ c v hv => (hval c).trans (by rw [show d.access.values c = some v from hv]; rfl)⟩
    show byCell (d.effect m).2 c = _ ∨ d.access.values c = some (byCell (d.effect m).2 c)
    rw [hval c]
    cases d.access.values c with
    | none => exact Or.inl rfl
    | some v => exact Or.inr rfl
  | failed e hk =>
    refine ⟨fun c => ?_, fun hok => by cases hok⟩
    rw [byCell_store]
    show _ ∨ d.access.values c = _
    unfold Access.values
    split
    · rw [List.getElem?_take]
      split
      · cases d.access.stored[c.2 - d.access.range.2.1]? with
        | none => exact Or.inl rfl
        | some v => exact Or.inr rfl
      · exact Or.inl rfl
    · exact Or.inl rfl

theorem plays_writes {ops : List (DataOp takes)} {m₀ m m' : Mem}
    {xs : Results (DataOp takes) DataOp.Result Stop} {ws : List (Write Cell UInt8)}
    (h₀ : Writes (byCell m₀) ws (byCell m))
    (h : Plays (fun (d : DataOp takes) m y m' => d.access.Attempt m y m') ops m xs m') :
    Writes (byCell m₀) ((xs.map asWrite).reverse ++ ws) (byCell m') := by
  induction h generalizing ws with
  | nil => exact h₀
  | cons ha _ ih =>
    have hw := ih (h₀.snoc (attempt_step ha))
    rwa [List.map_cons, List.reverse_cons, List.append_assoc]

variable {cl : S7Client} (hc : cl.connected = true) (hpdu : cl.pduSize.toInt ≤ 960)
  {ops : List (DataOp takes)} {L L' : FaultyLink}
  {xs : Results (DataOp takes) DataOp.Result Stop} (hL : L.reply = none)

include hc hpdu hL

/-- **After a session** each byte of the PLC holds what the last operation that succeeded in writing
    there has stored, or what one that failed since has. -/
theorem session_mayHold
    (h : Exec faultStep (series (DataOp.prog cl) ops : Client _).run L (.ok xs) L') (c : Cell) :
    MayHold (byCell L.mem) (xs.map asWrite).reverse c (L'.mem c.1 c.2) := by
  obtain ⟨_, _, hx, hplays, rfl, -⟩ :=
    exec_series (fun d _ _ _ _ _ hL hx => exec_dataOp hc hpdu d hL hx) ⟨rfl, hL⟩ h
  cases hx
  have hw := plays_writes .nil hplays
  rw [List.append_nil] at hw
  exact hw.mayHold c

/-- **A write made again until it succeeds**, with reads in between, has stored its data. On this link a
    reply is there at once or never: no acknowledgement of an earlier attempt is left for a later one. -/
theorem retried_once {d : DataOp takes} {v : d.Result}
    (hops : ∀ d' ∈ ops, d'.access.values = d.access.values ∨ d'.access.stored = [])
    (h : Exec faultStep (series (DataOp.prog cl) (ops ++ [d]) : Client _).run L
      (.ok (xs ++ [⟨d, .ok v⟩])) L') : L'.mem = (d.effect L.mem).2 := by
  obtain ⟨_, _, hx, hplays, rfl, -⟩ :=
    exec_series (fun d _ _ _ _ _ hL hx => exec_dataOp hc hpdu d hL hx) ⟨rfl, hL⟩ h
  cases hx
  have hfst := hplays.ops
  rw [List.map_append] at hfst
  have hxs : xs.map Sigma.fst = ops := (List.append_inj' hfst rfl).1
  have hw := plays_writes .nil hplays
  rw [List.append_nil, List.map_append, List.reverse_append] at hw
  have hlast : Writes (byCell L.mem) (asWrite ⟨d, .ok v⟩ :: (xs.map asWrite).reverse) (byCell L'.mem) := hw
  funext r o
  have hcell := hlast.retried rfl (fun w hw => ?_) (r, o)
  · exact hcell.trans (effect_values d L.mem (r, o)).symm
  · obtain ⟨y, hy, rfl⟩ := List.mem_map.mp (List.mem_reverse.mp hw)
    rcases hops y.1 (hxs ▸ List.mem_map_of_mem hy) with hv | hn
    · exact Or.inl hv
    · refine Or.inr fun c => ?_
      show y.1.access.values c = none
      rw [Access.values, hn]
      split <;> rfl

end Values

/-! ## 4. A write whose acknowledgement is lost, made again -/

/-- A byte of the flags, in one chunk. -/
def setFlag : DataOp fun _ => true :=
  ⟨.mbWrite 5 [1], .writes .flags 5 [1] (), rfl, .writes .flags (by decide) (by decide)⟩

theorem prog_setFlag : DataOp.prog online setFlag =
    session Stop.err writeReply [.ok (writeFrame .flags (5 + Int32.ofNat 0) [1] online.pduRef)] >>=
      fun _ => ofResult (.ok ()) := by
  show online.mbWrite 5 [1] = _
  rw [S7Client.mbWrite, chunkedWrite_eq rfl, writeReqs,
    cuts_single _ (by decide) (by decide)]
  rfl

theorem serve_setFlag (m : Mem) :
    plcServe m (writeFrame .flags (5 + Int32.ofNat 0) [1] online.pduRef) =
      some (buildWriteResp (bits online.pduRef % 65536), m.store .flags 5 [1]) :=
  plcServe_writeFrame m .flags (5 + Int32.ofNat 0) online.pduRef (by decide)

theorem exec_setFlag_lost (L : FaultyLink) : ∃ L',
    Exec faultStep (DataOp.prog online setFlag).run L (err (.timeout "read timeout")) L' := by
  rw [prog_setFlag]
  exact ⟨_, exec_op_bind_iff.mpr (Or.inl ⟨_, exec_session_cons.mpr (Or.inl
    ⟨_, exec_lost (serve_setFlag L.mem) (.timeout "read timeout"), rfl⟩), rfl⟩)⟩

theorem exec_setFlag_acked (L : FaultyLink) :
    ∃ L', Exec faultStep (DataOp.prog online setFlag).run L (.ok ()) L' := by
  have hok := (writeReply_writeResp 0xFF (bits online.pduRef % 65536)).mpr rfl
  rw [prog_setFlag]
  exact ⟨_, exec_op_bind_iff.mpr (Or.inr ⟨_, _, exec_session_cons.mpr (Or.inr
    ⟨_, _, exec_acked (serve_setFlag L.mem), Or.inr ⟨(), .ok [], hok, rfl, .ret _ _⟩⟩), .ret _ _⟩)⟩

/-- The first attempt stores the byte, but the client does not hear of it; the second succeeds. -/
theorem exec_setFlag_twice :
    ∃ L', Exec faultStep (series (DataOp.prog online) ([setFlag] ++ [setFlag]) : Client _).run
      ⟨fun _ _ => 0, none, []⟩
      (.ok ([⟨setFlag, err (.timeout "read timeout")⟩] ++ [⟨setFlag, .ok ()⟩])) L' := by
  obtain ⟨L₁, h₁⟩ := exec_setFlag_lost ⟨fun _ _ => 0, none, []⟩
  obtain ⟨L₂, h₂⟩ := exec_setFlag_acked L₁
  have hlast : Exec faultStep (series (DataOp.prog online) [setFlag] : Client _).run L₁
      (.ok [⟨setFlag, .ok ()⟩]) L₂ :=
    exec_series_cons_iff.mpr ⟨_, _, .ok [], h₂, .ret _ _, rfl⟩
  exact ⟨L₂, exec_series_cons_iff.mpr ⟨_, _, _, h₁, hlast, rfl⟩⟩

theorem session_attempts_twice : ∃ xs M', xs.length = 2 ∧
    Plays (fun (d : DataOp fun _ => true) m y m' => d.access.Attempt m y m') ([setFlag] ++ [setFlag])
      (fun _ _ => 0) xs M' := by
  obtain ⟨L', h⟩ := exec_setFlag_twice
  obtain ⟨xs, hx, hplays⟩ := session_attempts rfl (by decide) rfl h
  cases hx
  exact ⟨_, _, rfl, hplays⟩

theorem session_mayHold_twice : ∃ L' : FaultyLink, ∀ c : Cell,
    MayHold (byCell fun _ _ => 0)
      (List.map asWrite ([⟨setFlag, err (.timeout "read timeout")⟩] ++ [⟨setFlag, .ok ()⟩])).reverse c
      (L'.mem c.1 c.2) := by
  obtain ⟨L', h⟩ := exec_setFlag_twice
  exact ⟨L', session_mayHold rfl (by decide) rfl h⟩

theorem retried_once_flag : ∃ L' : FaultyLink, L'.mem = (setFlag.effect fun _ _ => 0).2 := by
  obtain ⟨L', h⟩ := exec_setFlag_twice
  have hops : ∀ d ∈ [setFlag], d.access.values = setFlag.access.values ∨ d.access.stored = [] :=
    fun d hd => Or.inl (by rw [List.mem_singleton.mp hd])
  exact ⟨L', retried_once rfl (by decide) rfl hops h⟩

end MoonS7
