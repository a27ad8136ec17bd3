import MoonS7.Plc.Databases
import MoonS7.Plc.OnSocket
import MoonS7.Plc.Requests

/-!
# The simulator as a server (`tools/s7_sim.py`, 19-60 and 311-366)

One thread for each connection, one table of data blocks for all of them. A thread replies to what
`recv` gives it and goes on, in one of three states, until it closes the connection. The threads take
turns a request at a time.

Main results, for any number of connections, any bytes on each and any order of turns:
`run_blocks` -- no block changes its size, and no byte changes but those a write names;
`run_replies` -- the requests of a connection are answered one by one, in order, up to the one that
closes it, each answer is a frame with the request's reference, and the other connections have no part
in it but for the bytes of the blocks that a read returns.
-/

namespace MoonS7

/-! ## 1. One connection -/

def buildCotpCc (srcRef dstRef : Nat) : Frame :=
  [0x03, 0x00, 0x00, 0x16, 0x11, 0xD0, UInt8.ofNat (dstRef / 256), UInt8.ofNat dstRef,
    UInt8.ofNat (srcRef / 256), UInt8.ofNat srcRef, 0x00, 0xC0, 0x01, 0x03, 0xC1, 0x02, 0x01, 0x00,
    0xC2, 0x02, 0x01, 0x00]

def buildSetupResp (refn pduSize : Nat) : Frame :=
  [0x03, 0x00, 0x00, 0x1C, 0x02, 0xF0, 0x80, 0x32, 0x03, 0x00, 0x00, UInt8.ofNat (refn / 256),
    UInt8.ofNat refn, 0x00, 0x02, 0x00, 0x09, 0x00, 0x00, 0xF0, 0x00, 0x00, 0x01, 0x00, 0x01,
    UInt8.ofNat (pduSize / 256), UInt8.ofNat pduSize, 0x00]

/-- What `parse_s7_request` comes to: `None`, an `IndexError` where a header is cut off, or a
    request. -/
inductive SimParse where
  | absent
  | raised
  | request (req : Request)

def simParse (data : List UInt8) : SimParse :=
  if (findS7Header data).isNone then .absent else (parseS7Request data).elim .raised .request

inductive Phase where
  | cotp
  | setup
  | ready
  | closed
  deriving DecidableEq

/-- The reply to what cannot be served. -/
def dummyResp (refn : Nat) : Frame := buildReadResp (List.replicate 10 0) refn

/-- One turn of `handle_client`: the reply, the next state and the blocks after it. -/
def handleClient (state : Phase) (d : DbMemory) (data : List UInt8) : Option Frame × Phase × DbMemory :=
  if data.isEmpty then (none, .closed, d)
  else match state with
  | .cotp =>
    if 7 ≤ data.length ∧ data[4]? = some 0x11 ∧ data[5]? = some 0xE0 then
      (some (buildCotpCc 0x0000 0x0001), .setup, d)
    else (none, .closed, d)
  | .setup =>
    match simParse data with
    | .request req =>
      if req.msgType = 0x01 then (some (buildSetupResp req.refn 480), .ready, d) else (none, .closed, d)
    | _ => (none, .closed, d)
  | .ready =>
    match simParse data with
    | .absent => (some (dummyResp 1), .ready, d)
    | .raised => (none, .closed, d)
    | .request req =>
      match handleSimRequest d req with
      | some (resp, d') => (some resp, .ready, d')
      | none => (some (dummyResp req.refn), .ready, d)
  | .closed => (none, .closed, d)

/-- The state after a turn: the blocks have no part in it. -/
def nextPhase (state : Phase) (data : List UInt8) : Phase :=
  if data.isEmpty then .closed
  else match state with
  | .cotp =>
    if 7 ≤ data.length ∧ data[4]? = some 0x11 ∧ data[5]? = some 0xE0 then .setup else .closed
  | .setup =>
    match simParse data with
    | .request req => if req.msgType = 0x01 then .ready else .closed
    | _ => .closed
  | .ready =>
    match simParse data with
    | .raised => .closed
    | _ => .ready
  | .closed => .closed

theorem simParse_request_iff {data : List UInt8} {req : Request} :
    simParse data = .request req ↔ parseS7Request data = some req := by
  unfold simParse
  by_cases hn : findS7Header data = none
  · have hp : parseS7Request data = none := by rw [parseS7Request, hn]; rfl
    rw [hn, hp]
    constructor <;> intro h <;> cases h
  · rw [if_neg (by rw [Option.isNone_iff_eq_none]; exact hn)]
    cases parseS7Request data with
    | none => constructor <;> intro h <;> cases h
    | some r => constructor <;> intro h <;> cases h <;> rfl

/-- What a thread that is ready does with a request it can parse. -/
theorem handleClient_ready {q : Frame} {req : Request} (hq : parseS7Request q = some req) (d : DbMemory) :
    handleClient .ready d q = (handleSimRequest d req).elim (some (dummyResp req.refn), .ready, d)
      fun r => (some r.1, .ready, r.2) := by
  have hne : q.isEmpty = false := by
    cases q with
    | nil => cases hq
    | cons b q => rfl
  unfold handleClient
  rw [if_neg (by rw [hne]; decide)]
  simp only [simParse_request_iff.mpr hq]
  cases handleSimRequest d req <;> rfl

/-- A reply to the request in `q`: as long as it says, if its length can be said in two bytes, and
    with the request's reference. -/
structure Answers (q : List UInt8) (f : Frame) : Prop where
  framed : f.length < 65536 → TpktFrame f
  refn : ∀ req, parseS7Request q = some req →
    (f.drop 11).take 2 = [UInt8.ofNat (req.refn / 256), UInt8.ofNat req.refn]

/-- What a turn can be. -/
inductive Turn (d : DbMemory) (data : List UInt8) : Phase → Option Frame × Phase × DbMemory → Prop where
  | closes (state : Phase) : Turn d data state (none, .closed, d)
  | confirms : Turn d data .cotp (some (buildCotpCc 0x0000 0x0001), .setup, d)
  | setsUp {req : Request} (hq : parseS7Request data = some req) :
      Turn d data .setup (some (buildSetupResp req.refn 480), .ready, d)
  | serves {req : Request} {resp : Frame} {d' : DbMemory} (hq : parseS7Request data = some req)
      (h : handleSimRequest d req = some (resp, d')) : Turn d data .ready (some resp, .ready, d')
  | stands {refn : Nat} (hr : ∀ req, parseS7Request data = some req → req.refn = refn) :
      Turn d data .ready (some (dummyResp refn), .ready, d)

theorem handleClient_turn (state : Phase) (d : DbMemory) (data : List UInt8) :
    Turn d data state (handleClient state d data) := by
  unfold handleClient
  split
  · exact .closes state
  cases state with
  | cotp =>
    show Turn d data .cotp (if _ then _ else _)
    split
    · exact .confirms
    · exact .closes _
  | setup =>
    show Turn d data .setup (match simParse data with | .request req => _ | _ => _)
    split
    · rename_i req hp
      split
      · exact .setsUp (simParse_request_iff.mp hp)
      · exact .closes _
    · exact .closes _
  | ready =>
    show Turn d data .ready (match simParse data with | .absent => _ | .raised => _ | .request req => _)
    split
    · rename_i hp
      exact .stands fun req hq => by cases hp.symm.trans (simParse_request_iff.mpr hq)
    · exact .closes _
    · rename_i req hp
      have hq := simParse_request_iff.mp hp
      split
      · rename_i resp d' h
        exact .serves hq h
      · exact .stands fun req' hq' => by cases hq.symm.trans hq'; rfl
  | closed => exact .closes _

/-- **The state after a turn** does not depend on the blocks. -/
theorem handleClient_phase (state : Phase) (d : DbMemory) (data : List UInt8) :
    (handleClient state d data).2.1 = nextPhase state data := by
  unfold handleClient nextPhase
  split
  · rfl
  cases state with
  | cotp =>
    show (if _ then _ else _ : Option Frame × Phase × DbMemory).2.1 = if _ then _ else _
    split <;> rfl
  | setup =>
    show (match simParse data with | .request req => _ | _ => _ : Option Frame × Phase × DbMemory).2.1 = _
    cases simParse data with
    | absent => rfl
    | raised => rfl
    | request req =>
      show (if _ then _ else _ : Option Frame × Phase × DbMemory).2.1 = if _ then _ else _
      split <;> rfl
  | ready =>
    show (match simParse data with | .absent => _ | .raised => _ | .request req => _ :
      Option Frame × Phase × DbMemory).2.1 = _
    cases simParse data with
    | absent => rfl
    | raised => rfl
    | request req =>
      show (match handleSimRequest d req with | some (resp, d') => _ | none => _ :
        Option Frame × Phase × DbMemory).2.1 = .ready
      cases handleSimRequest d req <;> rfl
  | closed => rfl

/-! ## 2. Replies -/

theorem answers_read {q : List UInt8} {refn : Nat}
    (hr : ∀ req, parseS7Request q = some req → req.refn = refn) (data : List UInt8) :
    Answers q (buildReadResp data refn) where
  framed h := tpktFrame_buildReadResp (by
    have hlen : (buildReadResp data refn).length = 25 + data.length := by
      rw [buildReadResp, List.length_append]
      rfl
    omega) refn
  refn req hq := by
    rw [hr req hq]
    rfl

theorem answers_of {q : List UInt8} {req : Request} (hq : parseS7Request q = some req) {f : Frame}
    (hf : TpktFrame f)
    (hr : (f.drop 11).take 2 = [UInt8.ofNat (req.refn / 256), UInt8.ofNat req.refn]) : Answers q f where
  framed _ := hf
  refn req' hq' := by
    rw [hq] at hq'
    cases hq'
    exact hr

theorem answers_write {q : List UInt8} {req : Request} (hq : parseS7Request q = some req) :
    Answers q (buildWriteResp req.refn) :=
  answers_of hq (tpktFrame_short 22 rfl rfl) rfl

theorem answers_setup {q : List UInt8} {req : Request} (hq : parseS7Request q = some req) (pduSize : Nat) :
    Answers q (buildSetupResp req.refn pduSize) :=
  answers_of hq (tpktFrame_short 28 rfl rfl) rfl

theorem answers_status {q : List UInt8} {req : Request} (hq : parseS7Request q = some req) (status : UInt8) :
    Answers q (buildPlcStatusResp req.refn status) :=
  answers_of hq (tpktFrame_short 45 rfl (length_patched 45 _)) rfl

theorem answers_szl {q : List UInt8} {req : Request} (hq : parseS7Request q = some req) :
    Answers q (buildSzlResp req.refn) :=
  answers_of hq (tpktFrame_short 246 rfl (by
    rw [buildSzlResp, szlHeader, szlPayload, List.length_append, length_patched, length_patched]
    rfl)) rfl

theorem answers_handled {q : List UInt8} {req : Request} (hq : parseS7Request q = some req)
    {d d' : DbMemory} {resp : Frame} (h : handleSimRequest d req = some (resp, d')) : Answers q resp := by
  rcases handleSimRequest_cases req with ⟨-, hn | hst | hszl⟩ | ⟨-, -, hr⟩ | ⟨-, -, hw⟩
  · cases (hn d).symm.trans h
  · obtain ⟨rfl, -⟩ := Prod.mk.inj (Option.some.inj ((hst d).symm.trans h))
    exact answers_status hq 0x08
  · obtain ⟨rfl, -⟩ := Prod.mk.inj (Option.some.inj ((hszl d).symm.trans h))
    exact answers_szl hq
  · cases (hr d).symm.trans h
    exact answers_read (fun req' hq' => by cases hq.symm.trans hq'; rfl) _
  · cases (hw d).symm.trans h
    exact answers_write hq

/-- The last of the three states in which a thread replies. -/
theorem Turn.answers {d d' : DbMemory} {data : List UInt8} {state state' : Phase} {f : Frame}
    (h : Turn d data state (some f, state', d')) (hs : state ≠ .cotp) : Answers data f := by
  cases h with
  | confirms => exact absurd rfl hs
  | setsUp hq => exact answers_setup hq 480
  | serves hq h => exact answers_handled hq h
  | stands hr => exact answers_read hr _

/-- Two replies to the request in `q` that differ in no more than the bytes a read returns. -/
inductive Alike (q : List UInt8) : Frame → Frame → Prop where
  | same (f : Frame) : Alike q f f
  | read {req : Request} (hq : parseS7Request q = some req) (hf : req.params.head? = some 0x04)
      {data data' : List UInt8} (h : data.length = data'.length) :
      Alike q (buildReadResp data req.refn) (buildReadResp data' req.refn)

/-- **The blocks have no other part in a reply**, as long as they are those of `d₀`, or made on the
    way. -/
theorem handleClient_alike {d₀ d d' : DbMemory} (h : Keeps d₀ d) (h' : Keeps d₀ d') (state : Phase)
    (q : List UInt8) :
    List.Forall₂ (Alike q) (handleClient state d q).1.toList (handleClient state d' q).1.toList := by
  have one : ∀ f : Frame, List.Forall₂ (Alike q) (some f).toList (some f).toList :=
    fun f => .cons (.same f) .nil
  unfold handleClient
  split
  · exact .nil
  cases state with
  | cotp =>
    show List.Forall₂ (Alike q) (ite _ _ _ : Option Frame × Phase × DbMemory).1.toList
      (ite _ _ _ : Option Frame × Phase × DbMemory).1.toList
    split
    · exact one _
    · exact .nil
  | setup =>
    cases simParse q with
    | absent => exact .nil
    | raised => exact .nil
    | request req =>
      show List.Forall₂ (Alike q) (ite _ _ _ : Option Frame × Phase × DbMemory).1.toList
        (ite _ _ _ : Option Frame × Phase × DbMemory).1.toList
      split
      · exact one _
      · exact .nil
  | ready =>
    cases hp : simParse q with
    | absent => exact one _
    | raised => exact .nil
    | request req =>
      have hq := simParse_request_iff.mp hp
      simp only
      rcases handleSimRequest_cases req with ⟨-, hn | hst | hszl⟩ | ⟨hf, -, hr⟩ | ⟨-, -, hw⟩
      · rw [hn d, hn d']
        exact one _
      · rw [hst d, hst d']
        exact one _
      · rw [hszl d, hszl d']
        exact one _
      · rw [hr d, hr d']
        exact .cons (.read hq hf ((length_readItems h _).trans (length_readItems h' _).symm)) .nil
      · rw [hw d, hw d']
        exact one _
  | closed => exact .nil

/-! ## 3. All connections -/

/-- The threads' states, the blocks, and for each connection what it sent and the reply to that. -/
structure Server (ι : Type) where
  phase : ι → Phase
  db : DbMemory
  log : ι → List (List UInt8 × Frame)

/-- Connections that have just been accepted. -/
def Server.fresh {ι : Type} (d : DbMemory) : Server ι := ⟨fun _ => .cotp, d, fun _ => []⟩

section Run

variable {ι : Type} [DecidableEq ι]

/-- The thread of the connection `x.1` gets `x.2`. -/
def Server.step (s : Server ι) (x : ι × List UInt8) : Server ι :=
  let r := handleClient (s.phase x.1) s.db x.2
  { phase := Function.update s.phase x.1 r.2.1, db := r.2.2,
    log := Function.update s.log x.1 (s.log x.1 ++ r.1.toList.map fun f => (x.2, f)) }

def Server.run (s : Server ι) (xs : List (ι × List UInt8)) : Server ι := xs.foldl Server.step s

theorem Server.step_phase (s : Server ι) (x : ι × List UInt8) :
    (s.step x).phase x.1 = (handleClient (s.phase x.1) s.db x.2).2.1 := Function.update_self ..

theorem Server.step_log (s : Server ι) (x : ι × List UInt8) : (s.step x).log x.1 = s.log x.1 ++
    (handleClient (s.phase x.1) s.db x.2).1.toList.map fun f => (x.2, f) := Function.update_self ..

theorem Server.step_other (s : Server ι) {x : ι × List UInt8} {c : ι} (h : x.1 ≠ c) :
    (s.step x).phase c = s.phase c := Function.update_of_ne h.symm _ _

theorem Server.step_log_other (s : Server ι) {x : ι × List UInt8} {c : ι} (h : x.1 ≠ c) :
    (s.step x).log c = s.log c := Function.update_of_ne h.symm _ _

/-- What a connection sent. -/
def sentOn (c : ι) (xs : List (ι × List UInt8)) : List (List UInt8) :=
  (xs.filter fun x => x.1 = c).map Prod.snd

theorem sentOn_concat (c : ι) (xs : List (ι × List UInt8)) (x : ι × List UInt8) :
    sentOn c (xs ++ [x]) = sentOn c xs ++ if x.1 = c then [x.2] else [] := by
  rw [sentOn, List.filter_append, List.map_append, sentOn]
  by_cases h : x.1 = c
  · rw [if_pos h, List.filter_cons_of_pos (by simpa using h)]
    rfl
  · rw [if_neg h, List.filter_cons_of_neg (by simpa using h)]
    rfl

theorem Server.run_concat (s : Server ι) (xs : List (ι × List UInt8)) (x : ι × List UInt8) :
    s.run (xs ++ [x]) = (s.run xs).step x := List.foldl_concat _ _ _ _

/-- A turn keeps the sizes of the blocks, and the bytes that it does not name for writing. -/
theorem Turn.blocks {d d' : DbMemory} {data : List UInt8} {state state' : Phase} {resp : Option Frame}
    (h : Turn d data state (resp, state', d')) : Keeps d d' ∧
      ∀ n i, (Region.db n, i) ∉ storedCells data → byteOf d' n i = byteOf d n i := by
  cases h with
  | closes => exact ⟨.refl d, fun _ _ _ => rfl⟩
  | confirms => exact ⟨.refl d, fun _ _ _ => rfl⟩
  | setsUp => exact ⟨.refl d, fun _ _ _ => rfl⟩
  | serves hq h => exact ⟨handleSimRequest_keeps h, fun _ _ hc => handleSimRequest_bytes hq h hc⟩
  | stands => exact ⟨.refl d, fun _ _ _ => rfl⟩

theorem run_keeps (s : Server ι) (xs : List (ι × List UInt8)) : Keeps s.db (s.run xs).db := by
  induction xs using List.reverseRecOn with
  | nil => exact .refl _
  | append_singleton xs x ih =>
    rw [Server.run_concat]
    exact ih.trans (handleClient_turn ((s.run xs).phase x.1) (s.run xs).db x.2).blocks.1

/-- **The blocks, over any run**: each keeps its size, one made on the way has 256 bytes, and no
    byte changes but those that something sent names for writing. -/
theorem run_blocks (s : Server ι) (xs : List (ι × List UInt8)) :
    Keeps s.db (s.run xs).db ∧
      ∀ n i, (∀ x ∈ xs, (Region.db n, i) ∉ storedCells x.2) →
        byteOf (s.run xs).db n i = byteOf s.db n i := by
  refine ⟨run_keeps s xs, ?_⟩
  induction xs using List.reverseRecOn with
  | nil => exact fun _ _ _ => rfl
  | append_singleton xs x ih =>
    intro n i hc
    rw [Server.run_concat, ← ih n i fun y hy => hc y (List.mem_append_left _ hy)]
    exact (handleClient_turn ((s.run xs).phase x.1) (s.run xs).db x.2).blocks.2 n i
      (hc x (List.mem_append_right _ (List.mem_singleton_self x)))

/-- Block 200, as `main` makes it: it begins with `00 11 22 ... FF`. -/
def db200 : List UInt8 :=
  (List.range 16).map (fun i => UInt8.ofNat (i * 16 + i)) ++ List.replicate 1780 0

def simStart : DbMemory := Function.update (fun _ => none) 200 (some db200)

/-- **The blocks of a simulator that runs** are as long as `main` and `ensure_db` make them. -/
theorem run_blocks_start (xs : List (ι × List UInt8)) (n : Nat) (l : List UInt8)
    (h : ((Server.fresh simStart).run xs).db n = some l) :
    l.length = if n = 200 then 1796 else 256 := by
  have hk := run_keeps (Server.fresh simStart) xs
  by_cases hn : n = 200
  · subst hn
    have h200 : simStart 200 = some db200 := Function.update_self ..
    obtain ⟨l', hl', hlen⟩ := hk.kept 200 db200 h200
    cases hl'.symm.trans h
    rw [if_pos rfl, hlen, db200, List.length_append, List.length_map, List.length_range,
      List.length_replicate]
  · rw [if_neg hn]
    have hnone : simStart n = none := Function.update_of_ne hn _ _
    exact hk.made n l hnone h

/-- How many replies a thread in this state has sent. -/
def Phase.Replied (state : Phase) (k : Nat) : Prop :=
  match state with
  | .cotp => k = 0
  | .setup => k = 1
  | .ready => 2 ≤ k
  | .closed => True

/-- The connection sent `qs`, and `log` is what was replied to it. -/
structure Served (state : Phase) (qs : List (List UInt8)) (log : List (List UInt8 × Frame)) : Prop where
  phase : state = qs.foldl nextPhase .cotp
  inOrder : log.map Prod.fst <+: qs
  all : state ≠ .closed → log.map Prod.fst = qs
  count : state.Replied log.length
  confirm : ∀ e, log[0]? = some e → e.2 = buildCotpCc 0x0000 0x0001
  answers : ∀ k e, log[k + 1]? = some e → Answers e.1 e.2

theorem getElem?_concat_some {α : Type} {l : List α} {a e : α} {k : Nat} (h : (l ++ [a])[k]? = some e) :
    l[k]? = some e ∨ k = l.length ∧ e = a := by
  rw [List.getElem?_append] at h
  split at h
  · exact Or.inl h
  · obtain ⟨hk, he⟩ := List.getElem?_eq_some_iff.mp h
    rw [List.length_singleton] at hk
    exact Or.inr ⟨by omega, he.symm.trans (List.getElem_singleton hk)⟩

theorem Served.concat {state : Phase} {qs : List (List UInt8)} {log : List (List UInt8 × Frame)}
    (h : Served state qs log) (d : DbMemory) (q : List UInt8) :
    Served (handleClient state d q).2.1 (qs ++ [q])
      (log ++ (handleClient state d q).1.toList.map fun f => (q, f)) := by
  have hphase : (handleClient state d q).2.1 = (qs ++ [q]).foldl nextPhase .cotp := by
    rw [handleClient_phase, List.foldl_concat, ← h.phase]
  have hturn := handleClient_turn state d q
  generalize handleClient state d q = r at hphase hturn
  obtain ⟨resp, state', d'⟩ := r
  cases resp with
  | none =>
    cases hturn
    refine ⟨hphase, ?_, fun hc => absurd rfl hc, trivial, ?_, ?_⟩
    · rw [Option.toList_none, List.map_nil, List.append_nil]
      exact h.inOrder.trans (List.prefix_append _ _)
    · simpa using h.confirm
    · simpa using h.answers
  | some f =>
    -- the thread has not closed, so that everything was replied to
    have hopen : state ≠ .closed := by
      rintro rfl
      cases hturn
    have hlog : (log ++ [(q, f)]).map Prod.fst = qs ++ [q] := by
      rw [List.map_append, h.all hopen]
      rfl
    have hcount := h.count
    refine ⟨hphase, ⟨[], (List.append_nil _).trans hlog⟩, fun _ => hlog, ?_, fun e he => ?_, fun k e he => ?_⟩
    · show state'.Replied (log ++ [(q, f)]).length
      rw [List.length_append, List.length_singleton]
      cases hturn with
      | confirms => exact congrArg (· + 1) hcount
      | setsUp => exact Nat.le_of_eq (congrArg (· + 1) hcount).symm
      | serves => exact Nat.le_succ_of_le hcount
      | stands => exact Nat.le_succ_of_le hcount
    · rcases getElem?_concat_some he with he | ⟨hk, rfl⟩
      · exact h.confirm e he
      · cases hturn with
        | confirms => rfl
        | setsUp => exact absurd (hk.trans hcount) (by decide)
        | serves => exact absurd (Nat.le_trans hcount (Nat.le_of_eq hk.symm)) (by decide)
        | stands => exact absurd (Nat.le_trans hcount (Nat.le_of_eq hk.symm)) (by decide)
    · rcases getElem?_concat_some he with he | ⟨hk, rfl⟩
      · exact h.answers k e he
      · refine hturn.answers ?_
        rintro rfl
        exact absurd (hk.trans hcount) (Nat.succ_ne_zero k)

theorem run_served (d : DbMemory) (xs : List (ι × List UInt8)) (c : ι) :
    Served (((Server.fresh d).run xs).phase c) (sentOn c xs) (((Server.fresh d).run xs).log c) := by
  induction xs using List.reverseRecOn with
  | nil => exact ⟨rfl, List.prefix_refl _, fun _ => rfl, rfl, nofun, nofun⟩
  | append_singleton xs x ih =>
    rw [Server.run_concat, sentOn_concat]
    by_cases hc : x.1 = c
    · subst hc
      rw [if_pos rfl, Server.step_phase, Server.step_log]
      exact ih.concat _ x.2
    · rw [if_neg hc, List.append_nil, Server.step_other _ hc, Server.step_log_other _ hc]
      exact ih

/-- The turns of one connection. -/
def alone (c : ι) (xs : List (ι × List UInt8)) : List (ι × List UInt8) := xs.filter fun x => x.1 = c

theorem sentOn_alone (c : ι) (xs : List (ι × List UInt8)) : sentOn c (alone c xs) = sentOn c xs := by
  rw [sentOn, alone, List.filter_filter]
  simp only [Bool.and_self, sentOn]

theorem alone_concat (c : ι) (xs : List (ι × List UInt8)) (x : ι × List UInt8) :
    alone c (xs ++ [x]) = alone c xs ++ if x.1 = c then [x] else [] := by
  rw [alone, List.filter_append, alone]
  by_cases h : x.1 = c
  · rw [if_pos h, List.filter_cons_of_pos (by simpa using h)]
    rfl
  · rw [if_neg h, List.filter_cons_of_neg (by simpa using h)]
    rfl

/-- The other connections have a part in the blocks only. -/
theorem run_alike_alone (d : DbMemory) (xs : List (ι × List UInt8)) (c : ι) :
    List.Forall₂ (fun e e' => e.1 = e'.1 ∧ Alike e.1 e.2 e'.2) (((Server.fresh d).run xs).log c)
      (((Server.fresh d).run (alone c xs)).log c) := by
  induction xs using List.reverseRecOn with
  | nil => exact .nil
  | append_singleton xs x ih =>
    rw [Server.run_concat, alone_concat]
    by_cases hc : x.1 = c
    · subst hc
      have hphase : ((Server.fresh d).run (alone x.1 xs)).phase x.1 = ((Server.fresh d).run xs).phase x.1 := by
        rw [(run_served d xs x.1).phase, (run_served d (alone x.1 xs) x.1).phase, sentOn_alone]
      rw [if_pos rfl, Server.run_concat, Server.step_log, Server.step_log, hphase]
      refine List.rel_append ih (List.forall₂_map_left_iff.mpr (List.forall₂_map_right_iff.mpr ?_))
      exact (handleClient_alike (run_keeps (Server.fresh d) xs) (run_keeps (Server.fresh d) _) _ x.2).imp
        fun f f' h => ⟨rfl, h⟩
    · rw [if_neg hc, List.append_nil, Server.step_log_other _ hc]
      exact ih

/-- **The replies, over any run**: the requests of a connection are replied to one by one in the order
    they were sent, all of them if it is still open, and after the confirmation each reply is a frame
    with the reference of its request. Phase and requests replied to are those of the connection
    served alone; so are the replies, but for the bytes that a read returns: the blocks are common to
    all. -/
theorem run_replies (d : DbMemory) (xs : List (ι × List UInt8)) (c : ι) :
    Served (((Server.fresh d).run xs).phase c) (sentOn c xs) (((Server.fresh d).run xs).log c) ∧
      ((Server.fresh d).run xs).phase c = ((Server.fresh d).run (alone c xs)).phase c ∧
      List.Forall₂ (fun e e' => e.1 = e'.1 ∧ Alike e.1 e.2 e'.2) (((Server.fresh d).run xs).log c)
        (((Server.fresh d).run (alone c xs)).log c) := by
  refine ⟨run_served d xs c, ?_, run_alike_alone d xs c⟩
  rw [(run_served d xs c).phase, (run_served d (alone c xs) c).phase, sentOn_alone]

end Run

end MoonS7
