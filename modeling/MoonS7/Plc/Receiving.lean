import MoonS7.Plc.Server

/-!
# What one `recv` gives (`tools/s7_sim.py`, 309-345)

`handle_client` takes what one `conn.recv(4096)` gives for one request. It does not look at the length
in the TPKT header, and keeps nothing for the next call. A TCP connection has no borders between
frames, so that a call may give more than a frame, or less.

Main result: `recv_requests` -- a call that gives the rest of a frame is served as that frame, and what
comes behind the frame is lost; of a call that ends inside of a frame, the number of bytes that have
arrived says what becomes of it.
-/

namespace MoonS7

open Interaction Port

/-! ## 1. Pieces of a telegram -/

/-- The request, of which `n` bytes behind the header have arrived. -/
def Request.cut (req : Request) (n : Nat) : Request :=
  { req with params := req.params.take n, data := req.data.take (n - req.params.length) }

theorem Request.cut_all {req : Request} {n : Nat} (h : req.params.length + req.data.length ≤ n) :
    req.cut n = req := by
  rw [cut, List.take_of_length_le (by omega), List.take_of_length_le (by omega)]

/-- `parse_s7_request` on the first `n` bytes of a telegram. -/
def cutParse (req : Request) (n : Nat) : SimParse :=
  if n < 9 then .absent else if n < 17 then .raised else .request (req.cut (n - 17))

theorem cutParse_all {req : Request} {n : Nat} (h : 17 + (req.params.length + req.data.length) ≤ n) :
    cutParse req n = .request req := by
  rw [cutParse, if_neg (by omega), if_neg (by omega), Request.cut_all (by omega)]

/-- What `parse_s7_request` reads from the header on. -/
def fromHeader : List UInt8 → SimParse
  | _ :: mt :: _ :: _ :: r1 :: r0 :: p1 :: p0 :: d1 :: d0 :: rest =>
    .request ⟨mt, u16 r1 r0, rest.take (u16 p1 p0), (rest.drop (u16 p1 p0)).take (u16 d1 d0)⟩
  | _ => .raised

theorem simParse_eq (data : List UInt8) :
    simParse data = (findS7Header data).elim .absent fun s7 => fromHeader (data.drop s7) := by
  unfold simParse parseS7Request
  cases findS7Header data with
  | none => rfl
  | some s7 =>
    show Option.elim (match data.drop s7 with
      | _ :: mt :: _ :: _ :: r1 :: r0 :: p1 :: p0 :: d1 :: d0 :: rest => _ | _ => none) _ _ =
      fromHeader (data.drop s7)
    unfold fromHeader
    split <;> rfl

/-- What has arrived of two parts, when `j` bytes have. -/
theorem take_parts (a b more : List UInt8) (j : Nat) :
    ((a ++ b ++ more).take j).take a.length = a.take j ∧
      (((a ++ b ++ more).take j).drop a.length).take b.length = b.take (j - a.length) := by
  rw [List.append_assoc]
  constructor
  · rw [List.take_take, Nat.min_comm, ← List.take_take, List.take_left]
  · rw [List.drop_take, List.drop_left, List.take_take, Nat.min_comm, ← List.take_take, List.take_left]

/-- **A piece of a telegram**, from within the bytes in front of the header on: `n` of its bytes and of
    whatever comes behind it. -/
theorem Telegram.simParse_piece {q : Frame} {req : Request} (h : Telegram q req) {k : Nat} (hk : k ≤ 7)
    (more : List UInt8) (n : Nat) :
    simParse ((q.drop k ++ more).take n) = cutParse req (k + n) := by
  have hlen := h.length
  obtain ⟨hq, hhi, hmt, hr, hp, hd⟩ := h
  have h7 : findS7Header q = some 7 := hq ▸ findHeader_frame (by decide) hhi hmt
  rw [simParse_eq, findS7Header, findHeader_take (findHeader_piece h7 hk more)]
  unfold cutParse
  by_cases h9 : k + n < 9
  · rw [if_neg (by omega), if_pos h9]
    rfl
  have hbehind : (((q.drop k ++ more).take n).drop (7 - k)) = (q.drop 7 ++ more).take (k + n - 7) := by
    rw [List.drop_take, List.drop_append_of_le_length (by rw [List.length_drop]; omega), List.drop_drop,
      show k + (7 - k) = 7 by omega, show n - (7 - k) = k + n - 7 by omega]
  rw [if_pos (by omega), if_neg h9, Option.elim_some, hbehind, hq]
  generalize hm : k + n - 7 = m
  by_cases h17 : k + n < 17
  · -- the header is cut off
    rw [if_pos h17]
    have hcases : m = 2 ∨ m = 3 ∨ m = 4 ∨ m = 5 ∨ m = 6 ∨ m = 7 ∨ m = 8 ∨ m = 9 := by omega
    rcases hcases with rfl | rfl | rfl | rfl | rfl | rfl | rfl | rfl <;> rfl
  rw [if_neg h17, show k + n - 17 = m - 10 by omega]
  obtain ⟨j, rfl⟩ := Nat.exists_eq_add_of_le' (show 10 ≤ m by omega)
  show SimParse.request (Request.mk _ (u16 _ _) (((req.params ++ req.data ++ more).take j).take (u16 _ _))
    ((((req.params ++ req.data ++ more).take j).drop (u16 _ _)).take (u16 _ _))) = _
  obtain ⟨hparams, hdata⟩ := take_parts req.params req.data more j
  rw [hr, hp, hd, Nat.add_sub_cancel, hparams, hdata]
  rfl

/-- Whatever comes behind it. -/
theorem Telegram.simParse_rest {q : Frame} {req : Request} (h : Telegram q req) {k : Nat} (hk : k ≤ 7)
    (more : List UInt8) : simParse (q.drop k ++ more) = .request req := by
  have hlen := h.length
  have hp := h.simParse_piece hk more (q.drop k ++ more).length
  rw [List.take_length] at hp
  rw [hp, cutParse_all]
  rw [List.length_append, List.length_drop]
  omega

/-! ## 2. One call -/

/-- The first `n` bytes of the telegram of `req` are served as a request of their own. -/
structure CutServed (d : DbMemory) (req : Request) (n : Nat) (piece : List UInt8) : Prop where
  /-- No header has arrived. -/
  dummy : n < 9 → handleClient .ready d piece = (some (dummyResp 1), .ready, d)
  /-- A part of the header has: the `IndexError` ends the thread. -/
  closed : 9 ≤ n → n < 17 → handleClient .ready d piece = (none, .closed, d)
  /-- Parameters and data are those that have arrived. -/
  served : 17 ≤ n → handleClient .ready d piece =
    (handleSimRequest d (req.cut (n - 17))).elim (some (dummyResp req.refn), .ready, d)
      fun r => (some r.1, .ready, r.2)

theorem handleClient_dummy {data : List UInt8} (hne : data ≠ []) (h : simParse data = .absent)
    (d : DbMemory) : handleClient .ready d data = (some (dummyResp 1), .ready, d) := by
  unfold handleClient
  rw [if_neg (by rw [List.isEmpty_iff]; exact hne)]
  simp only [h]

theorem handleClient_raised {data : List UInt8} (h : simParse data = .raised) (d : DbMemory) :
    handleClient .ready d data = (none, .closed, d) := by
  unfold handleClient
  split
  · rfl
  · simp only [h]

theorem Telegram.cutServed {q : Frame} {req : Request} (h : Telegram q req) (d : DbMemory) {k n : Nat}
    (hk : k ≤ 7) (hn : 0 < n) : CutServed d req (k + n) ((q.drop k).take n) := by
  have hlen := h.length
  have hp := h.simParse_piece hk [] n
  rw [List.append_nil] at hp
  have hne : (q.drop k).take n ≠ [] := by
    refine List.ne_nil_of_length_pos ?_
    rw [List.length_take, List.length_drop]
    omega
  refine ⟨fun h9 => ?_, fun h9 h17 => ?_, fun h17 => ?_⟩
  · rw [cutParse, if_pos h9] at hp
    exact handleClient_dummy hne hp d
  · rw [cutParse, if_neg (by omega), if_pos h17] at hp
    exact handleClient_raised hp d
  · rw [cutParse, if_neg (by omega), if_neg (by omega)] at hp
    exact handleClient_ready (simParse_request_iff.mp hp) d

/-- A call that begins in the frame `q`, not behind its TPKT and COTP headers, and gives the rest of it
    and any bytes that come behind. -/
structure Reaches (q : Frame) (piece : List UInt8) : Prop where
  rest : ∃ k more, k ≤ 7 ∧ piece = q.drop k ++ more
  length : piece.length ≤ 4096

theorem Telegram.parse {q : Frame} {req : Request} (h : Telegram q req) :
    parseS7Request q = some req := by
  have hp := h.simParse_rest (Nat.zero_le 7) []
  rw [List.drop_zero, List.append_nil] at hp
  exact simParse_request_iff.mp hp

theorem Telegram.reached {q : Frame} {req : Request} (h : Telegram q req) {piece : List UInt8}
    (hr : Reaches q piece) (d : DbMemory) :
    handleClient .ready d piece = handleClient .ready d q ∧ (handleClient .ready d q).2.1 = .ready := by
  obtain ⟨k, more, hk, rfl⟩ := hr.rest
  rw [handleClient_ready (simParse_request_iff.mp (h.simParse_rest hk more)), handleClient_ready h.parse]
  refine ⟨rfl, ?_⟩
  cases handleSimRequest d req <;> rfl

/-! ## 3. Runs -/

/-- Some client hands `q` to its connection in some series of operations, whatever comes of each. -/
def Sent (q : Frame) : Prop :=
  ∃ (cl : S7Client) (takes : Int32 → Bool) (os : List Operation) (tr : List (Event Frame Frame S7Error))
    (x : S7Result (Results Operation Operation.Result Stop)),
    Follows (series (Operation.prog takes cl) os : Client _).run tr x ∧ q ∈ attempts tr

theorem Sent.readWhole {q : Frame} (h : Sent q) : ReadWhole q := by
  obtain ⟨cl, takes, os, tr, x, hx, hq⟩ := h
  exact (sent_clientFrame hx hq).readWhole

section Run

variable {ι : Type} [DecidableEq ι]

/-- Two servers that differ in no more than what their connections have sent. -/
structure Level (s s' : Server ι) : Prop where
  phase : s.phase = s'.phase
  db : s.db = s'.db
  replies : ∀ c, (s.log c).map Prod.snd = (s'.log c).map Prod.snd

theorem Level.step {s s' : Server ι} (h : Level s s') {c : ι} {q q' : List UInt8}
    (hq : handleClient (s.phase c) s.db q = handleClient (s.phase c) s.db q') :
    Level (s.step (c, q)) (s'.step (c, q')) where
  phase := by
    show Function.update s.phase c (handleClient (s.phase c) s.db q).2.1 =
      Function.update s'.phase c (handleClient (s'.phase c) s'.db q').2.1
    rw [hq, h.phase, h.db]
  db := by
    show (handleClient (s.phase c) s.db q).2.2 = (handleClient (s'.phase c) s'.db q').2.2
    rw [hq, h.phase, h.db]
  replies b := by
    by_cases hb : c = b
    · subst hb
      rw [Server.step_log, Server.step_log, List.map_append, List.map_append, h.replies, hq, h.phase, h.db]
      simp only [List.map_map, Function.comp_def]
    · rw [Server.step_log_other s hb, Server.step_log_other s' hb]
      exact h.replies b

/-- A thread that is ready, and gets the rest of a frame, is ready for the next one. -/
theorem Level.run {xs : List (ι × Frame × List UInt8)} {s s' : Server ι} (hs : Level s s')
    (h : ∀ x ∈ xs, s.phase x.1 = .ready ∧ Sent x.2.1 ∧ Reaches x.2.1 x.2.2) :
    Level (s.run (xs.map fun x => (x.1, x.2.2))) (s'.run (xs.map fun x => (x.1, x.2.1))) := by
  induction xs generalizing s s' with
  | nil => exact hs
  | cons x xs ih =>
    obtain ⟨hready, hsent, hreach⟩ := h x (List.mem_cons_self ..)
    obtain ⟨req, htel⟩ := hsent.readWhole.telegram
    obtain ⟨heq, hstays⟩ := htel.reached hreach s.db
    refine ih (hs.step (c := x.1) (by rw [hready]; exact heq)) fun y hy => ?_
    obtain ⟨hy₁, hy₂⟩ := h y (List.mem_cons_of_mem _ hy)
    refine ⟨?_, hy₂⟩
    by_cases hxy : x.1 = y.1
    · rw [← hxy]
      refine (Server.step_phase s (x.1, x.2.2)).trans ?_
      rw [hready, heq]
      exact hstays
    · rw [Server.step_other s hxy]
      exact hy₁

/-- **What `recv` gives**: in every run in which each call gives the rest of a frame that a client has
    sent, and maybe more, the simulator does what it does when it is given the frames: there is one
    reply to a call, whatever comes behind the frame. A call that ends inside of a frame is served by
    how far the frame has arrived, in any state of the blocks. -/
theorem recv_requests {s : Server ι} {xs : List (ι × Frame × List UInt8)}
    (h : ∀ x ∈ xs, s.phase x.1 = .ready ∧ Sent x.2.1 ∧ Reaches x.2.1 x.2.2) :
    Level (s.run (xs.map fun x => (x.1, x.2.2))) (s.run (xs.map fun x => (x.1, x.2.1))) ∧
      ∀ q, Sent q → ∃ req, parseS7Request q = some req ∧ ∀ d k n, k ≤ 7 → 0 < n →
        CutServed d req (k + n) ((q.drop k).take n) := by
  refine ⟨Level.run ⟨rfl, rfl, fun _ => rfl⟩ h, fun q hq => ?_⟩
  obtain ⟨req, htel⟩ := hq.readWhole.telegram
  exact ⟨req, htel.parse, fun d k n hk hn => htel.cutServed d hk hn⟩

end Run

def linked : S7Client := { S7Client.new with connected := true }

/-- A request to stop the CPU that is cut off by the end of the connection. -/
theorem sent_stop : Sent (buildPlcStopPdu 1) :=
  ⟨linked, fun _ => true, [.plcStop], [.sent (buildPlcStopPdu 1) (.error .connectionClosed)],
    .ok [⟨.plcStop, .error (.err .connectionClosed)⟩], .ask (.ret _), List.mem_singleton_self _⟩

def twoReady : Server Bool := ⟨fun _ => .ready, simStart, fun _ => []⟩

/-- One of two connections gives a request with another one behind it, then both give one without its
    first three bytes. -/
def joined : List (Bool × Frame × List UInt8) :=
  [(true, buildPlcStopPdu 1, buildPlcStopPdu 1 ++ buildPlcStatusPdu 1),
    (true, buildPlcStopPdu 1, (buildPlcStopPdu 1).drop 3), (false, buildPlcStopPdu 1, (buildPlcStopPdu 1).drop 3)]

theorem recv_requests_stop :
    Level (twoReady.run (joined.map fun x => (x.1, x.2.2))) (twoReady.run (joined.map fun x => (x.1, x.2.1))) ∧
      ∀ q, Sent q → ∃ req, parseS7Request q = some req ∧ ∀ d k n, k ≤ 7 → 0 < n →
        CutServed d req (k + n) ((q.drop k).take n) :=
  recv_requests fun x hx => by
    refine ⟨rfl, ?_⟩
    rcases List.mem_cons.mp hx with rfl | hx
    · exact ⟨sent_stop, ⟨⟨0, buildPlcStatusPdu 1, by decide, rfl⟩, by decide⟩⟩
    rcases List.mem_cons.mp hx with rfl | hx
    · exact ⟨sent_stop, ⟨⟨3, [], by decide, (List.append_nil _).symm⟩, by decide⟩⟩
    · cases List.mem_singleton.mp hx
      exact ⟨sent_stop, ⟨⟨3, [], by decide, (List.append_nil _).symm⟩, by decide⟩⟩

end MoonS7
