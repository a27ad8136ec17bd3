import MoonS7.Async.TaskGroups

/-!
# What `with_timeout_opt` means

For the one who calls it, `with_timeout_opt` runs its block to the end and then returns; that there
are tasks, a group and a timer is not seen. `Ends` says so: it runs a routine from its beginning to
its end, and what ends is one list of calls.

`Inv` is what holds of a world of tasks between two steps: which coroutine is for what (`Plan`), what
each of them is doing (`Place`, `TimerPlace`) and how far each group is (`Status`). The end of a task
(`Inv.taskEnds`) and of the block of a group (`Inv.blockEnds`) keep it.
-/

namespace MoonS7.Async

variable {E : Type} {R : E → Type} {V : Type}

/-! ## 1. Routines without a scheduler -/

/-- How a `with_timeout_opt` ends: its block is in time, the time is over before the block is, or it
    is cancelled from outside. -/
inductive End where
  | inTime
  | expired
  | cancelled
  deriving DecidableEq

/-- What a `with_timeout_opt` makes of how its block has ended. -/
def End.result : End → Except Raise V → Except Raise (Option V)
  | .inTime, y => y.map some
  | .expired, .error (.error m) => .error (.error m)
  | .expired, _ => .ok none
  | .cancelled, .error err => .error err
  | .cancelled, .ok _ => .error .cancelled

/-- A routine ends with `r` and has made the calls `tr`. Calls are only cancelled where the routine
    may be (`b`): as a whole, or as the block of a `with_timeout_opt` that does not end in time. -/
inductive Ends : Bool → Routine E R V → List (Event E R) → Except Raise V → Prop where
  | ret (b : Bool) (r : Except Raise V) : Ends b (.ret r) [] r
  | call {b : Bool} {e : E} {q : Except Raise (R e) → Routine E R V} {a : Except Raise (R e)}
      {tr : List (Event E R)} {r : Except Raise V} (ha : a = .error .cancelled → b = true)
      (h : Ends b (q a) tr r) : Ends b (.call e q) (⟨e, a⟩ :: tr) r
  | scope {b : Bool} {time : Int32} {f : Routine E R V} {q : Except Raise (Option V) → Routine E R V}
      {w : End} {tr tr' : List (Event E R)} {y r : Except Raise V} (hw : w = .cancelled → b = true)
      (hf : Ends (decide (w ≠ .inTime)) f tr y) (hq : Ends b (q (w.result y)) tr' r) :
      Ends b (.withTimeoutOpt time f q) (tr ++ tr') r

/-- `p` has come to `q` by the calls `tr`: however `q` ends, `p` does. -/
def Came (cancelled : Bool) (p : Routine E R V) (tr : List (Event E R)) (q : Routine E R V) : Prop :=
  ∀ b, (cancelled = true → b = true) → ∀ tr' r, Ends b q tr' r → Ends b p (tr ++ tr') r

theorem Came.refl (cancelled : Bool) (p : Routine E R V) : Came cancelled p [] p :=
  fun _ _ _ _ h => h

section Came

variable {x y : Bool} {p : Routine E R V} {tr : List (Event E R)}

theorem Came.mono {q : Routine E R V} (h : Came x p tr q) (hxy : x = true → y = true) :
    Came y p tr q := fun b hb => h b fun hx => hb (hxy hx)

theorem Came.call {e : E} {q : Except Raise (R e) → Routine E R V} (h : Came x p tr (.call e q))
    {a : Except Raise (R e)} (ha : a = .error .cancelled → x = true) :
    Came x p (tr ++ [⟨e, a⟩]) (q a) := by
  intro b hb tr' r hq
  have hall := h b hb _ _ (.call (fun hc => hb (ha hc)) hq)
  rwa [List.append_assoc]

theorem Came.scope {time : Int32} {f : Routine E R V} {q : Except Raise (Option V) → Routine E R V}
    (h : Came x p tr (.withTimeoutOpt time f q)) {w : End} (hw : w = .cancelled → x = true)
    {tr' : List (Event E R)} {r : Except Raise V} (hf : Ends (decide (w ≠ .inTime)) f tr' r) :
    Came x p (tr ++ tr') (q (w.result r)) := by
  intro b hb tr'' r' hq
  have hall := h b hb _ _ (.scope (fun hc => hb (hw hc)) hf hq)
  rwa [List.append_assoc]

theorem Came.ends {r : Except Raise V} (h : Came x p tr (.ret r)) {b : Bool}
    (hb : x = true → b = true) : Ends b p tr r := by
  have hall := h b hb [] r (.ret b r)
  rwa [List.append_nil] at hall

end Came

/-! ## 2. What each coroutine is for -/

inductive Kind where
  | task
  | block (g : Nat)
  | timer (g : Nat)
  deriving DecidableEq

/-- A coroutine that runs a routine: the routine, the calls its owner had made before, the calls it
    has made, what it has still to do, and the group it waits in. -/
structure Role (E : Type) (R : E → Type) (V : Type) where
  kind : Kind
  body : Routine E R V
  start : List (Event E R)
  past : List (Event E R)
  rest : Routine E R V
  scope : Option Nat

/-- The group of a `with_timeout_opt`: its two tasks, and how its parent goes on. -/
structure Span (E : Type) (R : E → Type) (V : Type) where
  time : Int32
  block : Nat
  timer : Option Nat
  cont : Except Raise (Option V) → Routine E R V

/-- The coroutines and groups of a world, and for each owner the coroutine that acts for it. -/
structure Plan (E : Type) (R : E → Type) (V : Type) where
  role : Nat → Role E R V
  span : Nat → Span E R V
  active : Nat → Nat

/-- What a coroutine does when its routine is over. -/
def Kind.finish : Kind → Nat → Except Raise V → Code E R (Option V)
  | .block g, c => fun r =>
    (do workerEnd g c false false (← storeResult g (r.map some)) : Lib E R (Option V) _) .ended
  | _, _ => fun r => .ended (r.map fun _ => ())

/-- What a coroutine has still to do. -/
def Kind.code (kind : Kind) (c : Nat) (q : Routine E R V) : Code E R (Option V) :=
  q.code (kind.finish c)

/-- What a timer does when it wakes up. -/
def timerWakes (g c : Nat) (r : Except Raise Unit) : Code E R (Option V) :=
  (do workerEnd g c true false (← timeOver g r) : Lib E R (Option V) _) .ended

def Plan.code (P : Plan E R V) (c : Nat) : Code E R (Option V) :=
  match (P.role c).kind with
  | .block g =>
    worker g (groupBody (timeoutBody (P.span g).time (P.role c).body.code) g) false false
  | _ => (P.role c).body.task

/-- The states of a group whose block still runs. -/
def End.state : End → GroupState
  | .inTime => .running
  | .expired => .done
  | .cancelled => .fail .cancelled

def End.stored : End → Option (Option V)
  | .expired => some none
  | _ => none

/-- The outcome of a group whose block is over. -/
def TaskGroup.Settled (tg : TaskGroup (Option V)) (x : Except Raise (Option V)) : Prop :=
  (∃ v, tg.state = .done ∧ tg.result = some v ∧ x = .ok v) ∨
    ∃ err, tg.state = .fail err ∧ x = .error err

/-! ## 3. The invariant -/

section Invariant

variable (run : Option Nat) (W : World E R (Option V)) (P : Plan E R V)

def World.isOver (c : Nat) : Bool := (W.coro c).state.isOver

/-- The parent `c` of the group `g` waits in it, for as long as there are tasks in the group. -/
inductive Waits (g c : Nat) : Prop where
  | first (hs : (W.coro c).state = .suspended fun r =>
        groupResume g r fun x => (P.role c).kind.code c ((P.span g).cont x))
      (hsh : (W.coro c).shielded = false)
      (hr : (W.coro c).ready = true → (W.coro c).cancelled = true ∨ (W.group g).children = [])
      (he : (W.group g).children = [] → (W.coro c).ready = true)
  | second (hs : (W.coro c).state = .suspended fun r => setShielded false fun _ =>
        groupEnd g r fun x => (P.role c).kind.code c ((P.span g).cont x))
      (hsh : (W.coro c).shielded = true)
      (hr : (W.coro c).ready = true ↔ (W.group g).children = [])
  | awake (hs : (W.coro c).state = .running) (hrun : run = some c) (hsh : (W.coro c).shielded = false)
      (hready : (W.coro c).ready = false)

/-- How far the group `g` with parent `c` and block `d` is. -/
inductive Status (g c d : Nat) : Prop where
  | unsettled (w : End) (hd : W.isOver d = false) (hs : (W.group g).state = w.state)
      (hr : (W.group g).result = w.stored) (hcd : (W.coro d).cancelled = decide (w ≠ .inTime))
      (hc : w = .cancelled → (W.coro c).cancelled = true)
      (ht : ∀ t, (P.span g).timer = some t → W.isOver t = false →
        (W.coro t).cancelled = decide (w ≠ .inTime))
      (hrest : (P.role c).rest = .withTimeoutOpt (P.span g).time (P.role d).body (P.span g).cont)
      (hstart : (P.role d).start = (P.role c).start ++ (P.role c).past)
  | settled (x : Except Raise (Option V)) (hd : W.isOver d = true) (hx : (W.group g).Settled x)
      (ht : ∀ t, (P.span g).timer = some t → W.isOver t = false → (W.coro t).cancelled = true)
      (hrest : (P.role c).rest = (P.span g).cont x) (hact : P.active (W.coro c).owner = c)

/-- A group that its parent has not left. -/
structure Open (g : Nat) : Prop where
  lt : g < W.groups
  scope : (P.role (W.group g).parent).scope = some g
  waits : Waits run W P g (W.group g).parent
  nodup : (W.group g).children.Nodup
  mem : ∀ d, d ∈ (W.group g).children ↔
    (d = (P.span g).block ∨ (P.span g).timer = some d) ∧ W.isOver d = false
  waiting : (W.group g).waiting = if W.isOver (P.span g).block then 0 else 1
  block : (P.role (P.span g).block).kind = .block g
  timer : ∀ t, (P.span g).timer = some t → (P.role t).kind = .timer g ∧ t < W.coroId
  later : (W.group g).parent < (P.span g).block ∧ (P.span g).block < W.coroId
  owner : (W.coro (P.span g).block).owner = (W.coro (W.group g).parent).owner
  parent : ∀ g', (P.role (W.group g).parent).kind ≠ .timer g'
  status : Status W P g (W.group g).parent (P.span g).block

/-- What a coroutine with a routine is doing. -/
inductive Place (c : Nat) : Prop where
  | starting (hs : (W.coro c).state = .spawned (P.code c)) (hsh : (W.coro c).shielded = true)
      (hready : (W.coro c).ready = true) (hrest : (P.role c).rest = (P.role c).body)
      (hpast : (P.role c).past = [])
      (hact : P.active (W.coro c).owner = c) (hscope : (P.role c).scope = none)
      (ht : ∀ g, (P.role c).kind = .block g → (P.span g).timer = none)
  | calling {e : E} {reply : Option (Except String (R e))} {q : Except Raise (R e) → Routine E R V}
      (hs : (W.coro c).state = .calling e reply fun x => (P.role c).kind.code c (q x))
      (hsh : (W.coro c).shielded = false) (hready : reply.isSome = true → (W.coro c).ready = true)
      (hrest : (P.role c).rest = .call e q)
      (hact : P.active (W.coro c).owner = c) (hscope : (P.role c).scope = none)
  | running (hs : (W.coro c).state = .running) (hrun : run = some c)
      (hsh : (W.coro c).shielded = false) (hready : (W.coro c).ready = false)
      (hact : P.active (W.coro c).owner = c) (hscope : (P.role c).scope = none)
  | waiting {g : Nat} (hscope : (P.role c).scope = some g) (hp : (W.group g).parent = c)
      (ho : Open run W P g)

structure User (c : Nat) : Prop where
  came : Came (W.coro c).cancelled (P.role c).body (P.role c).past (P.role c).rest
  place : Place run W P c

inductive TimerPlace (g c : Nat) : Prop where
  | starting {time : Int32}
      (hs : (W.coro c).state = .spawned (worker g (timeoutTask time g) true false))
      (hsh : (W.coro c).shielded = true) (hready : (W.coro c).ready = true)
  | sleeping (hs : (W.coro c).state = .sleeping (timerWakes g c)) (hsh : (W.coro c).shielded = false)
  | running (hs : (W.coro c).state = .running) (hrun : run = some c)
      (hsh : (W.coro c).shielded = false)

/-- What holds of a coroutine that is not over. -/
inductive Member (c : Nat) : Prop where
  | task (hk : (P.role c).kind = .task) (hu : User run W P c)
  | block {g : Nat} (hk : (P.role c).kind = .block g) (ho : Open run W P g)
      (hb : (P.span g).block = c) (hu : User run W P c)
  | timer {g : Nat} (hk : (P.role c).kind = .timer g) (ho : Open run W P g)
      (ht : (P.span g).timer = some c) (hp : TimerPlace run W g c)

/-- The world of `n` tasks, of which the coroutine `run` is the one that runs. -/
structure Inv (n : Nat) (tasks : Nat → Routine E R V) : Prop where
  goes : W.aborted = false
  queue : W.Queue
  fresh : ∀ c, W.coroId ≤ c → W.isOver c = true ∧ (W.coro c).ready = false
  count : n ≤ W.coroId
  task : ∀ i < n, (P.role i).kind = .task ∧ (P.role i).body = tasks i ∧ (P.role i).start = [] ∧
    (W.coro i).owner = i
  kinds : ∀ c, (P.role c).kind = .task → c < n
  ended : ∀ i < n, W.isOver i = true → P.active i = i ∧ ∃ r : Except Raise V,
    (W.coro i).state = ending (r.map fun _ => ()) ∧
      ∀ b, ((W.coro i).cancelled = true → b = true) → Ends b (tasks i) (P.role i).past r
  acts : ∀ i < n, P.active i < W.coroId ∧ (W.coro (P.active i)).owner = i
  log : ∀ i < n, W.log i = (P.role (P.active i)).start ++ (P.role (P.active i)).past
  members : ∀ c, W.isOver c = false → Member run W P c

end Invariant

/-! ## 4. What does not concern a coroutine or a group -/

/-- Nothing has happened to a coroutine but that it may have been cancelled. -/
def Stays (W W' : World E R (Option V)) (c : Nat) : Prop :=
  W'.coro c = W.coro c ∨ W'.coro c = (W.coro c).stop

section Frame

variable {run run' : Option Nat} {W W' : World E R (Option V)} {P P' : Plan E R V}

/-- What a coroutine is doing has not changed. -/
structure Kept (W W' : World E R (Option V)) (c : Nat) : Prop where
  state : (W'.coro c).state = (W.coro c).state
  shielded : (W'.coro c).shielded = (W.coro c).shielded
  owner : (W'.coro c).owner = (W.coro c).owner
  cancelled : (W.coro c).cancelled = true → (W'.coro c).cancelled = true

theorem Stays.state {c : Nat} (h : Stays W W' c) : (W'.coro c).state = (W.coro c).state := by
  rcases h with h | h <;> simp [h, Coroutine.stop]

theorem Stays.shielded {c : Nat} (h : Stays W W' c) : (W'.coro c).shielded = (W.coro c).shielded := by
  rcases h with h | h <;> simp [h, Coroutine.stop]

theorem Stays.owner {c : Nat} (h : Stays W W' c) : (W'.coro c).owner = (W.coro c).owner := by
  rcases h with h | h <;> simp [h, Coroutine.stop]

theorem Stays.isOver {c : Nat} (h : Stays W W' c) : W'.isOver c = W.isOver c := by
  rw [World.isOver, h.state, World.isOver]

theorem Stays.cancelled {c : Nat} (h : Stays W W' c) (hc : (W.coro c).cancelled = true) :
    (W'.coro c).cancelled = true := by
  rcases h with h | h <;> rw [h]
  · exact hc
  · rfl

theorem Stays.ready {c : Nat} (h : Stays W W' c) (hc : (W.coro c).ready = true) :
    (W'.coro c).ready = true := by
  rcases h with h | h <;> rw [h]
  · exact hc
  · rw [Coroutine.stop, hc]
    rfl

theorem Stays.kept {c : Nat} (h : Stays W W' c) : Kept W W' c :=
  ⟨h.state, h.shielded, h.owner, h.cancelled⟩

theorem Stays.of_eq {c : Nat} (h : W'.coro c = W.coro c) : Stays W W' c := Or.inl h

theorem Waits.frame {g c : Nat} (h : Waits run W P g c) (hg : W'.group g = W.group g)
    (hc : Stays W W' c) (hrole : P'.role c = P.role c) (hspan : P'.span g = P.span g)
    (hrun : run ≠ some c) : Waits run' W' P' g c := by
  cases h with
  | first hs hsh hr he =>
    refine .first (by rw [hc.state, hs, hrole, hspan]) (hc.shielded.trans hsh) ?_ ?_
    · rw [hg]
      rcases hc with h | h
      · rw [h]
        exact hr
      · rw [h]
        exact fun _ => Or.inl rfl
    · rw [hg]
      rcases hc with h | h
      · rw [h]
        exact he
      · simp [h, Coroutine.stop, hsh]
  | second hs hsh hr =>
    refine .second (by rw [hc.state, hs, hrole, hspan]) (hc.shielded.trans hsh) ?_
    rw [hg, ← hr]
    rcases hc with h | h <;> rw [h]
    simp [Coroutine.stop, hsh]
  | awake _ hr => exact absurd hr hrun

/-- The coroutine `d` of a group has not ended meanwhile, nor been cancelled, nor changed its
    purpose. -/
structure SameTask (W W' : World E R (Option V)) (P P' : Plan E R V) (d : Nat) : Prop where
  isOver : W'.isOver d = W.isOver d
  cancelled : (W'.coro d).cancelled = (W.coro d).cancelled
  owner : (W'.coro d).owner = (W.coro d).owner
  kind : (P'.role d).kind = (P.role d).kind
  body : (P'.role d).body = (P.role d).body
  start : (P'.role d).start = (P.role d).start

/-- A group whose tasks go on, and whose parent waits. -/
theorem Open.reframe {g : Nat} (h : Open run W P g) (hg : W'.group g = W.group g)
    (hgs : W.groups ≤ W'.groups) (hid : W.coroId ≤ W'.coroId) (hspan : P'.span g = P.span g)
    (howner : (W'.coro (W.group g).parent).owner = (W.coro (W.group g).parent).owner)
    (hcancel : (W.coro (W.group g).parent).cancelled = true →
      (W'.coro (W.group g).parent).cancelled = true)
    (hrole : P'.role (W.group g).parent = P.role (W.group g).parent)
    (hwaits : Waits run' W' P' g (W.group g).parent)
    (hact : P.active (W.coro (W.group g).parent).owner = (W.group g).parent →
      P'.active (W.coro (W.group g).parent).owner = (W.group g).parent)
    (hd : SameTask W W' P P' (P.span g).block)
    (ht : ∀ t, (P.span g).timer = some t → SameTask W W' P P' t) : Open run' W' P' g where
  lt := Nat.lt_of_lt_of_le h.lt hgs
  scope := by rw [hg, hrole, h.scope]
  waits := by rwa [hg]
  nodup := hg ▸ h.nodup
  mem d := by
    rw [hg, hspan, h.mem d]
    refine and_congr_right fun hd' => ?_
    rcases hd' with rfl | hd'
    · rw [hd.isOver]
    · rw [(ht d hd').isOver]
  waiting := by rw [hg, hspan, hd.isOver, h.waiting]
  block := by rw [hspan, hd.kind, h.block]
  timer t ht' := by
    rw [hspan] at ht'
    exact ⟨(ht t ht').kind.trans (h.timer t ht').1, Nat.lt_of_lt_of_le (h.timer t ht').2 hid⟩
  later := by
    rw [hg, hspan]
    exact ⟨h.later.1, Nat.lt_of_lt_of_le h.later.2 hid⟩
  owner := by rw [hg, hspan, hd.owner, howner, h.owner]
  parent := by
    rw [hg, hrole]
    exact h.parent
  status := by
    rw [hg, hspan]
    cases h.status with
    | unsettled w hd' hs hr hcd hc' ht' hrest hstart =>
      refine .unsettled w (hd.isOver.trans hd') (hg ▸ hs) (hg ▸ hr) (hd.cancelled.trans hcd)
        (fun hw => hcancel (hc' hw)) ?_ ?_ ?_
      · rw [hspan]
        exact fun t h₁ h₂ => (ht t h₁).cancelled.trans (ht' t h₁ ((ht t h₁).isOver ▸ h₂))
      · rw [hrole, hd.body, hspan, hrest]
      · rw [hd.start, hrole, hstart]
    | settled x hd' hx ht' hrest hact' =>
      refine .settled x (hd.isOver.trans hd') (hg ▸ hx) ?_ ?_ ?_
      · rw [hspan]
        exact fun t h₁ h₂ => (ht t h₁).cancelled.trans (ht' t h₁ ((ht t h₁).isOver ▸ h₂))
      · rw [hrole, hspan, hrest]
      · rw [howner]
        exact hact hact'

/-- A group to which nothing happens. -/
theorem Open.frame {g : Nat} (h : Open run W P g) (hg : W'.group g = W.group g)
    (hgs : W.groups ≤ W'.groups) (hid : W.coroId ≤ W'.coroId) (hspan : P'.span g = P.span g)
    (hc : Stays W W' (W.group g).parent)
    (hrole : P'.role (W.group g).parent = P.role (W.group g).parent)
    (hrun : run ≠ some (W.group g).parent)
    (hact : P.active (W.coro (W.group g).parent).owner = (W.group g).parent →
      P'.active (W.coro (W.group g).parent).owner = (W.group g).parent)
    (hd : SameTask W W' P P' (P.span g).block)
    (ht : ∀ t, (P.span g).timer = some t → SameTask W W' P P' t) : Open run' W' P' g :=
  h.reframe hg hgs hid hspan hc.owner hc.cancelled hrole
    (h.waits.frame hg hc hrole hspan hrun) hact hd ht

theorem SameTask.of_eq {d : Nat} (hd : W'.coro d = W.coro d) (hrole : P'.role d = P.role d) :
    SameTask W W' P P' d := by
  constructor <;> simp [World.isOver, hd, hrole]

/-- The block, the timer and the parent of a group. -/
def Attached (W : World E R (Option V)) (P : Plan E R V) (g c : Nat) : Prop :=
  (P.span g).block = c ∨ (P.span g).timer = some c ∨ (W.group g).parent = c

theorem Member.frame {c : Nat} (h : Member run W P c) (hc : Kept W W' c)
    (hr : (W.coro c).ready = true → (W'.coro c).ready = true)
    (hrole : P'.role c = P.role c)
    (hact : P.active (W.coro c).owner = c → P'.active (W.coro c).owner = c)
    (hrun : run ≠ some c)
    (hspan : ∀ g, (P.role c).kind = .block g ∨ (P.role c).kind = .timer g → P'.span g = P.span g)
    (hopen : ∀ g, Open run W P g → Attached W P g c →
      Open run' W' P' g ∧ (W'.group g).parent = (W.group g).parent) : Member run' W' P' c := by
  have hcode : P'.code c = P.code c := by
    unfold Plan.code
    rw [hrole]
    split
    · rename_i g hk
      rw [hspan g (Or.inl hk)]
    · rfl
  have huser : User run W P c → User run' W' P' c := by
    intro hu
    refine ⟨?_, ?_⟩
    · rw [hrole]
      exact hu.came.mono hc.cancelled
    · cases hu.place with
      | starting hs hsh hready hrest hpast ha hscope ht =>
        refine .starting (by rw [hc.state, hs, hcode]) (hc.shielded.trans hsh) (hr hready)
          (by rw [hrole, hrest]) (by rw [hrole, hpast]) (by rw [hc.owner, hact ha])
          (by rw [hrole, hscope]) fun g hk => ?_
        rw [hrole] at hk
        rw [hspan g (Or.inl hk), ht g hk]
      | calling hs hsh hready hrest ha hscope =>
        exact .calling (by rw [hc.state, hs, hrole]) (hc.shielded.trans hsh)
          (fun hx => hr (hready hx)) (by rw [hrole, hrest])
          (by rw [hc.owner, hact ha]) (by rw [hrole, hscope])
      | running _ hr => exact absurd hr hrun
      | waiting hscope hp ho =>
        obtain ⟨ho', hp'⟩ := hopen _ ho (Or.inr (Or.inr hp))
        exact .waiting (by rw [hrole, hscope]) (hp'.trans hp) ho'
  cases h with
  | task hk hu => exact .task (by rw [hrole, hk]) (huser hu)
  | block hk ho hb hu =>
    exact .block (by rw [hrole, hk]) (hopen _ ho (Or.inl hb)).1 (by rw [hspan _ (Or.inl hk), hb])
      (huser hu)
  | timer hk ho ht hp =>
    refine .timer (by rw [hrole, hk]) (hopen _ ho (Or.inr (Or.inl ht))).1
      (by rw [hspan _ (Or.inr hk), ht]) ?_
    cases hp with
    | starting hs hsh hready =>
      exact .starting (hc.state.trans hs) (hc.shielded.trans hsh) (hr hready)
    | sleeping hs hsh => exact .sleeping (hc.state.trans hs) (hc.shielded.trans hsh)
    | running _ hr => exact absurd hr hrun

/-- A coroutine to which nothing happens but that it may be cancelled. -/
theorem Member.stays {c : Nat} (h : Member run W P c) (hc : Stays W W' c) (hrole : P'.role c = P.role c)
    (hact : P.active (W.coro c).owner = c → P'.active (W.coro c).owner = c) (hrun : run ≠ some c)
    (hspan : ∀ g, (P.role c).kind = .block g ∨ (P.role c).kind = .timer g → P'.span g = P.span g)
    (hopen : ∀ g, Open run W P g → Attached W P g c →
      Open run' W' P' g ∧ (W'.group g).parent = (W.group g).parent) : Member run' W' P' c :=
  h.frame hc.kept hc.ready hrole hact hrun hspan hopen

end Frame

section Steps

variable {run run' : Option Nat} {W W' : World E R (Option V)} {P P' : Plan E R V} {n : Nat}
  {tasks : Nat → Routine E R V}

theorem Inv.lt_coroId (h : Inv run W P n tasks) {c : Nat} (hc : W.isOver c = false) : c < W.coroId := by
  refine Nat.lt_of_not_le fun hle => ?_
  rw [(h.fresh c hle).1] at hc
  cases hc

theorem Open.parent_ne {g c : Nat} (ho : Open run W P g) (hscope : (P.role c).scope = none) :
    (W.group g).parent ≠ c := fun he => by
  have hs := ho.scope
  rw [he, hscope] at hs
  cases hs

/-- Nothing happens but to the coroutine `c` and the log. -/
structure Local (W W' : World E R (Option V)) (c : Nat) : Prop where
  others : ∀ d, d ≠ c → W'.coro d = W.coro d
  group : W'.group = W.group
  groups : W'.groups = W.groups
  coroId : W'.coroId = W.coroId
  aborted : W'.aborted = W.aborted

/-- The groups of the other coroutines, when one that is nobody's parent goes on. -/
theorem Open.aside {g c : Nat} (ho : Open run W P g) (hne : (W.group g).parent ≠ c)
    (hl : Local W W' c) (hc : SameTask W W' P P' c)
    (hrole : ∀ d, d ≠ c → P'.role d = P.role d) (hspan : P'.span = P.span)
    (hactive : P'.active = P.active) (hrun : ∀ d, d ≠ c → run ≠ some d) :
    Open run' W' P' g := by
  have hsame : ∀ d, SameTask W W' P P' d := fun d => by
    by_cases hd : d = c
    · rwa [hd]
    · exact .of_eq (hl.others d hd) (hrole d hd)
  exact ho.frame (by rw [hl.group]) (hl.groups ▸ Nat.le_refl _) (hl.coroId ▸ Nat.le_refl _)
    (by rw [hspan]) (.of_eq (hl.others _ hne)) (hrole _ hne) (hrun _ hne)
    (by rw [hactive]; exact id) (hsame _) fun t _ => hsame t

/-- A coroutine that is nobody's parent goes on, and nothing else happens. -/
theorem Inv.act (h : Inv run W P n tasks) {c : Nat} (hover : W.isOver c = false)
    (hne : ∀ g, Open run W P g → (W.group g).parent ≠ c) (hl : Local W W' c) (hq : W'.Queue)
    (hc : SameTask W W' P P' c)
    (hrole : ∀ d, d ≠ c → P'.role d = P.role d) (hspan : P'.span = P.span)
    (hactive : P'.active = P.active) (hrun : ∀ d, d ≠ c → run ≠ some d)
    (hlog : ∀ i < n, W'.log i = (P'.role (P.active i)).start ++ (P'.role (P.active i)).past)
    (hm : (∀ g, Open run W P g → Open run' W' P' g) → Member run' W' P' c) :
    Inv run' W' P' n tasks := by
  have hlt := h.lt_coroId hover
  have hopen : ∀ g, Open run W P g → Open run' W' P' g := fun g ho =>
    ho.aside (hne g ho) hl hc hrole hspan hactive hrun
  have hsame : ∀ d, SameTask W W' P P' d := fun d => by
    by_cases hd : d = c
    · rwa [hd]
    · exact .of_eq (hl.others d hd) (hrole d hd)
  exact {
    goes := hl.aborted.trans h.goes
    queue := hq
    fresh := fun d hd => by
      rw [hl.coroId] at hd
      rw [(hsame d).isOver, hl.others d (by omega)]
      exact h.fresh d hd
    count := hl.coroId ▸ h.count
    task := fun i hi => by
      rw [(hsame i).kind, (hsame i).body, (hsame i).start, (hsame i).owner]
      exact h.task i hi
    kinds := fun d hd => h.kinds d (by rwa [(hsame d).kind] at hd)
    ended := fun i hi hov => by
      rw [(hsame i).isOver] at hov
      have hne : i ≠ c := fun he => by
        rw [he, hover] at hov
        cases hov
      rw [hactive, hl.others i hne, hrole i hne]
      exact h.ended i hi hov
    acts := fun i hi => by
      rw [hactive, (hsame _).owner, hl.coroId]
      exact h.acts i hi
    log := fun i hi => by rw [hactive, hlog i hi]
    members := fun d hd => by
      by_cases hdc : d = c
      · rw [hdc]
        exact hm hopen
      · rw [(hsame d).isOver] at hd
        refine (h.members d hd).stays (Stays.of_eq (hl.others d hdc)) (hrole d hdc)
          (by rw [hactive]; exact id) (hrun d hdc) (fun _ _ => by rw [hspan])
          fun g ho _ => ⟨hopen g ho, by rw [hl.group]⟩ }

/-! ## 5. A routine that runs -/

/-- The coroutine `c` runs, and has `q` to do. -/
structure Runs (W : World E R (Option V)) (P : Plan E R V) (c : Nat) (q : Routine E R V) : Prop where
  state : (W.coro c).state = .running
  rest : (P.role c).rest = q
  scope : (P.role c).scope = none
  kind : ∀ g, (P.role c).kind ≠ .timer g

/-- The plan where `c` has made the call `ev` and goes on with `q`. -/
def Plan.advance (P : Plan E R V) (c : Nat) (ev : Event E R) (q : Routine E R V) : Plan E R V :=
  { P with
    role := Function.update P.role c { P.role c with past := (P.role c).past ++ [ev], rest := q } }

@[simp] theorem advance_role (P : Plan E R V) (c d : Nat) (ev : Event E R) (q : Routine E R V) :
    (P.advance c ev q).role d =
      if d = c then { P.role c with past := (P.role c).past ++ [ev], rest := q } else P.role d :=
  Function.update_apply ..

theorem User.member {c : Nat} (hu : User run W P c) (hk : ∀ g, (P.role c).kind ≠ .timer g)
    (hb : ∀ g, (P.role c).kind = .block g → Open run W P g ∧ (P.span g).block = c) :
    Member run W P c := by
  cases hkind : (P.role c).kind with
  | task => exact .task hkind hu
  | block g => exact .block hkind (hb g hkind).1 (hb g hkind).2 hu
  | timer g => exact absurd hkind (hk g)

theorem Member.user {c : Nat} (h : Member run W P c) (hk : ∀ g, (P.role c).kind ≠ .timer g) :
    User run W P c ∧
      ∀ g, (P.role c).kind = .block g → Open run W P g ∧ (P.span g).block = c := by
  cases h with
  | task hkind hu =>
    refine ⟨hu, fun g hg => ?_⟩
    rw [hkind] at hg
    cases hg
  | block hkind ho hb hu =>
    refine ⟨hu, fun g hg => ?_⟩
    rw [hkind] at hg
    cases hg
    exact ⟨ho, hb⟩
  | timer hkind => exact absurd hkind (hk _)

/-- The logs, where the coroutine that acts for its owner has made a call. -/
theorem Inv.log_note (h : Inv run W P n tasks) {c : Nat} (hact : P.active (W.coro c).owner = c)
    {ev : Event E R} {q : Routine E R V} {i : Nat} (hi : i < n) :
    Function.update W.log (W.coro c).owner (W.log (W.coro c).owner ++ [ev]) i =
      ((P.advance c ev q).role (P.active i)).start ++ ((P.advance c ev q).role (P.active i)).past := by
  by_cases ho : i = (W.coro c).owner
  · subst ho
    rw [Function.update_self, h.log _ hi, advance_role, hact, if_pos rfl, List.append_assoc]
  · have hne : P.active i ≠ c := fun he => ho (by rw [← (h.acts i hi).2, he])
    rw [Function.update_of_ne ho, h.log i hi, advance_role, if_neg hne]

/-- A call is answered, and the coroutine runs on. -/
theorem Inv.answered (h : Inv run W P n tasks) {c : Nat} (hu : User run W P c)
    (hk : ∀ g, (P.role c).kind ≠ .timer g)
    (hb : ∀ g, (P.role c).kind = .block g → Open run W P g ∧ (P.span g).block = c)
    (hover : W.isOver c = false) {e : E} {q : Except Raise (R e) → Routine E R V}
    (hrest : (P.role c).rest = .call e q) (hscope : (P.role c).scope = none)
    (hact : P.active (W.coro c).owner = c) (hrun : ∀ d, d ≠ c → run ≠ some d)
    {a : Except Raise (R e)} (ha : a = .error .cancelled → (W.coro c).cancelled = true)
    (hl : Local W W' c) (hstate : (W'.coro c).state = .running)
    (hshielded : (W'.coro c).shielded = false) (hready : (W'.coro c).ready = false)
    (hcancelled : (W'.coro c).cancelled = (W.coro c).cancelled)
    (howner : (W'.coro c).owner = (W.coro c).owner) (hq : W'.Queue)
    (hlog : W'.log = Function.update W.log (W.coro c).owner (W.log (W.coro c).owner ++ [⟨e, a⟩])) :
    Inv (some c) W' (P.advance c ⟨e, a⟩ (q a)) n tasks ∧
      Runs W' (P.advance c ⟨e, a⟩ (q a)) c (q a) := by
  have hover' : W'.isOver c = false := by rw [World.isOver, hstate]; rfl
  have hsame : SameTask W W' P (P.advance c ⟨e, a⟩ (q a)) c :=
    ⟨hover'.trans hover.symm, hcancelled, howner, by simp, by simp, by simp⟩
  refine ⟨h.act hover (fun g ho => ho.parent_ne hscope) hl hq hsame
    (fun d hd => by rw [advance_role, if_neg hd]) rfl rfl hrun
    (fun i hi => by rw [hlog]; exact h.log_note hact hi) fun hopen => ?_, ?_⟩
  · have hcame := hu.came
    rw [hrest] at hcame
    refine User.member ⟨?_, ?_⟩ (by simpa using hk) fun g hg => ?_
    · rw [hcancelled]
      simpa using hcame.call ha
    · exact .running hstate rfl hshielded hready (by rw [howner]; exact hact) (by simpa using hscope)
    · rw [advance_role, if_pos rfl] at hg
      exact ⟨hopen g (hb g hg).1, (hb g hg).2⟩
  · exact ⟨hstate, by simp, by simpa using hscope, by simpa using hk⟩

/-! ## 6. A coroutine that ends -/

theorem Runs.isOver {c : Nat} {q : Routine E R V} (hr : Runs W P c q) : W.isOver c = false := by
  rw [World.isOver, hr.state]
  rfl

/-- A coroutine that runs a routine acts for its owner. -/
theorem Inv.runs (h : Inv run W P n tasks) {c : Nat} {q : Routine E R V} (hr : Runs W P c q) :
    User run W P c ∧ (∀ g, (P.role c).kind = .block g → Open run W P g ∧ (P.span g).block = c) ∧
      run = some c ∧ P.active (W.coro c).owner = c ∧ (W.coro c).shielded = false ∧
      (W.coro c).ready = false := by
  obtain ⟨hu, hb⟩ := (h.members c hr.isOver).user hr.kind
  refine ⟨hu, hb, ?_⟩
  have hs := hr.state
  have hscope := hr.scope
  cases hu.place with
  | starting hs' => simp [hs] at hs'
  | calling hs' => simp [hs] at hs'
  | running _ hrun hsh hready hact _ => exact ⟨hrun, hact, hsh, hready⟩
  | waiting hscope' => simp [hscope] at hscope'

theorem Inv.taskEnds {c : Nat} (h : Inv (some c) W P n tasks) {r : Except Raise V}
    (hr : Runs W P c (.ret r)) (hk : (P.role c).kind = .task) :
    Inv none (W.setState c (ending (r.map fun _ => ()))) P n tasks := by
  obtain ⟨hu, -, -, hact, -⟩ := h.runs hr
  have hover : (W.setState c (ending (r.map fun _ => ()))).isOver c = true := by
    rw [World.isOver, setState_coro, if_pos rfl, over_ending]
  have hcoro : ∀ d, d ≠ c →
      (W.setState c (ending (r.map fun _ => ()))).coro d = W.coro d := fun d hd => by
    rw [setState_coro, if_neg hd]
  have howner : ∀ d, ((W.setState c (ending (r.map fun _ => ()))).coro d).owner = (W.coro d).owner :=
    fun d => by
      rw [setState_coro]
      split <;> simp [*]
  have hopen : ∀ g, Open (some c) W P g →
      Open none (W.setState c (ending (r.map fun _ => ()))) P g := by
    intro g ho
    have hne := ho.parent_ne hr.scope
    have hne' : (P.span g).block ≠ c := fun he => by
      have hb := ho.block
      rw [he, hk] at hb
      cases hb
    refine ho.frame rfl (Nat.le_refl _) (Nat.le_refl _) rfl (.of_eq (hcoro _ hne)) rfl
      (fun he => hne (Option.some.inj he).symm) id (.of_eq (hcoro _ hne') rfl) fun t ht => ?_
    refine .of_eq (hcoro t fun he => ?_) rfl
    have hb := (ho.timer t ht).1
    rw [he, hk] at hb
    cases hb
  exact {
    goes := h.goes
    queue := h.queue.setCoro c rfl
    fresh := fun d hd => by
      have hd' : d ≠ c := Nat.ne_of_gt (Nat.lt_of_lt_of_le (h.lt_coroId hr.isOver) hd)
      rw [World.isOver, hcoro d hd']
      exact h.fresh d hd
    count := h.count
    task := fun i hi => by
      rw [howner]
      exact h.task i hi
    kinds := h.kinds
    ended := fun i hi hov => by
      by_cases hic : i = c
      · subst hic
        obtain ⟨-, hbody, -, how⟩ := h.task i hi
        rw [how] at hact
        refine ⟨hact, r, by rw [setState_coro, if_pos rfl], fun b hb => ?_⟩
        rw [← hbody]
        have hcame := hu.came
        rw [hr.rest] at hcame
        exact hcame.ends fun hc => hb (by rw [setState_coro, if_pos rfl]; exact hc)
      · rw [hcoro i hic]
        rw [World.isOver, hcoro i hic] at hov
        exact h.ended i hi hov
    acts := fun i hi => by
      rw [howner]
      exact h.acts i hi
    log := h.log
    members := fun d hd => by
      have hdc : d ≠ c := fun he => by
        rw [he, hover] at hd
        cases hd
      rw [World.isOver, hcoro d hdc] at hd
      exact (h.members d hd).stays (Stays.of_eq (hcoro d hdc)) rfl id
        (fun he => hdc (Option.some.inj he).symm) (fun _ _ => rfl) fun g ho _ => ⟨hopen g ho, rfl⟩ }

/-- The plan where the block `c` is over: its calls are its parent's, which acts again. -/
def Plan.settle (P : Plan E R V) (p c : Nat) (q : Routine E R V) (owner : Nat) : Plan E R V :=
  { P with
    role := Function.update P.role p
      { P.role p with past := (P.role p).past ++ (P.role c).past, rest := q }
    active := Function.update P.active owner p }

@[simp] theorem settle_role (P : Plan E R V) (p c d : Nat) (q : Routine E R V) (owner : Nat) :
    (P.settle p c q owner).role d = if d = p then
      { P.role p with past := (P.role p).past ++ (P.role c).past, rest := q } else P.role d :=
  Function.update_apply ..

/-- What happens where the block `c` of the group `g` ends. -/
structure BlockOver (W W' : World E R (Option V)) (P : Plan E R V) (g c : Nat)
    (x : Except Raise (Option V)) : Prop where
  isOver : W'.isOver c = true
  owner : (W'.coro c).owner = (W.coro c).owner
  parent : W'.coro (W.group g).parent = { W.coro (W.group g).parent with
    ready := (W.coro (W.group g).parent).ready || decide ((W'.group g).children = []) }
  others : ∀ d, d ≠ c → d ≠ (W.group g).parent → W'.coro d = W.coro d ∨
    (P.span g).timer = some d ∧ W'.coro d = (W.coro d).stop
  timer : ∀ t, (P.span g).timer = some t → W.isOver t = false → (W'.coro t).cancelled = true
  children : (W'.group g).children = (W.group g).children.erase c
  same : (W'.group g).parent = (W.group g).parent
  waiting : (W'.group g).waiting = (W.group g).waiting - 1
  settled : (W'.group g).Settled x
  group : ∀ g', g' ≠ g → W'.group g' = W.group g'
  groups : W'.groups = W.groups
  coroId : W'.coroId = W.coroId
  aborted : W'.aborted = W.aborted
  log : W'.log = W.log

/-- Somebody leaves a group, and wakes the parent if nobody else is in it. -/
theorem Waits.left {g c p : Nat} (h : Waits run W P g p) (hmem : c ∈ (W.group g).children)
    (hp : W'.coro p = { W.coro p with
      ready := (W.coro p).ready || decide ((W'.group g).children = []) })
    (hkind : (P'.role p).kind = (P.role p).kind) (hspan : P'.span g = P.span g)
    (hrun : run ≠ some p) : Waits run' W' P' g p := by
  have hne : (W.group g).children ≠ [] := List.ne_nil_of_mem hmem
  cases h with
  | first hs hsh hr he =>
    refine .first (by rw [hp, hkind, hspan]; exact hs) (by rw [hp, hsh]) ?_ ?_
    · rw [hp]
      intro hready
      simp only [Bool.or_eq_true, decide_eq_true_eq] at hready
      exact hready.imp (fun hr' => (hr hr').resolve_right hne) id
    · rw [hp]
      intro hn
      simp [hn]
  | second hs hsh hr =>
    refine .second (by rw [hp, hkind, hspan]; exact hs) (by rw [hp, hsh]) ?_
    have hnr : (W.coro p).ready = false := Bool.eq_false_iff.mpr fun hr' => hne (hr.mp hr')
    rw [hp]
    simp [hnr]
  | awake _ hr => exact absurd hr hrun

theorem BlockOver.same_over {g c : Nat} {x : Except Raise (Option V)} (hw : BlockOver W W' P g c x)
    {d : Nat} (hd : d ≠ c) : W'.isOver d = W.isOver d := by
  by_cases hdp : d = (W.group g).parent
  · rw [World.isOver, hdp, hw.parent]
    rfl
  · exact Stays.isOver ((hw.others d hd hdp).imp id And.right)

theorem BlockOver.same_owner {g c : Nat} {x : Except Raise (Option V)} (hw : BlockOver W W' P g c x)
    (d : Nat) : (W'.coro d).owner = (W.coro d).owner := by
  by_cases hd : d = c
  · rw [hd, hw.owner]
  · by_cases hdp : d = (W.group g).parent
    · rw [hdp, hw.parent]
    · exact Stays.owner ((hw.others d hd hdp).imp id And.right)

/-- The group whose block ends is settled. -/
theorem Open.settle {g c : Nat} {q : Except Raise (Option V)} (ho : Open (some c) W P g)
    (hb : (P.span g).block = c) (hover : W.isOver c = false) (hw : BlockOver W W' P g c q) :
    Open none W' (P.settle (W.group g).parent c ((P.span g).cont q) (W.coro c).owner) g := by
  have hpc : (W.group g).parent ≠ c := fun he => by have := ho.later.1; omega
  have htc : ∀ t, (P.span g).timer = some t → t ≠ c := fun t ht he => by
    have hk := (ho.timer t ht).1
    rw [he, ← hb, ho.block] at hk
    cases hk
  have howner : (W.coro c).owner = (W.coro (W.group g).parent).owner := by rw [← hb, ho.owner]
  have hmem : c ∈ (W.group g).children := (ho.mem c).mpr ⟨Or.inl hb.symm, hover⟩
  refine {
    lt := hw.groups ▸ ho.lt
    scope := by rw [hw.same, settle_role, if_pos rfl, ho.scope]
    waits := ?_
    nodup := hw.children ▸ ho.nodup.erase c
    mem := fun d => ?_
    waiting := ?_
    block := ?_
    timer := fun t ht => ?_
    later := ?_
    owner := ?_
    parent := ?_
    status := ?_ }
  · rw [hw.same]
    exact ho.waits.left hmem hw.parent (by rw [settle_role, if_pos rfl]) rfl
      fun he => hpc (Option.some.inj he).symm
  · rw [hw.children, ho.nodup.mem_erase_iff, ho.mem d]
    show _ ↔ (d = (P.span g).block ∨ (P.span g).timer = some d) ∧ W'.isOver d = false
    by_cases hd : d = c
    · simp [hd, hw.isOver]
    · simp [hd, hw.same_over hd]
  · show (W'.group g).waiting = if W'.isOver (P.span g).block then 0 else 1
    rw [hw.waiting, ho.waiting, hb, hover, hw.isOver]
    rfl
  · show ((P.settle _ c _ _).role (P.span g).block).kind = _
    rw [settle_role, hb, if_neg hpc.symm, ← hb, ho.block]
  · obtain ⟨hk, hlt⟩ := ho.timer t ht
    have htp : t ≠ (W.group g).parent := fun he => ho.parent g (he ▸ hk)
    rw [settle_role, if_neg htp, hw.coroId]
    exact ⟨hk, hlt⟩
  · rw [hw.same, hw.coroId]
    exact ho.later
  · rw [hw.same, hw.parent]
    show (W'.coro (P.span g).block).owner = _
    rw [hb, hw.owner, howner]
  · rw [hw.same, settle_role, if_pos rfl]
    exact ho.parent
  · rw [hw.same]
    refine .settled q ?_ hw.settled (fun t ht hto => ?_) ?_ ?_
    · show W'.isOver (P.span g).block = true
      rw [hb, hw.isOver]
    · exact hw.timer t ht (hw.same_over (htc t ht) ▸ hto)
    · rw [settle_role, if_pos rfl]
      rfl
    · rw [hw.parent]
      show Function.update P.active (W.coro c).owner (W.group g).parent _ = _
      rw [howner, Function.update_self]

/-- A coroutine other than the one that acts for an owner does not act for it. -/
theorem act_ne {c d : Nat} (hact : P.active (W.coro c).owner = c)
    (hd : P.active (W.coro d).owner = d) (hne : d ≠ c) : (W.coro d).owner ≠ (W.coro c).owner :=
  fun he => hne (by rw [← hd, he, hact])

theorem Inv.blockEnds {g c : Nat} (h : Inv (some c) W P n tasks) {r : Except Raise V}
    (hr : Runs W P c (.ret r)) (hk : (P.role c).kind = .block g) {w : End}
    (hww : w = .cancelled → (W.coro (W.group g).parent).cancelled = true)
    (hcw : (W.coro c).cancelled = true → w ≠ .inTime)
    (hrest : (P.role (W.group g).parent).rest =
      .withTimeoutOpt (P.span g).time (P.role c).body (P.span g).cont)
    (hstart : (P.role c).start = (P.role (W.group g).parent).start ++ (P.role (W.group g).parent).past)
    (hw : BlockOver W W' P g c (w.result r)) (hq : W'.Queue) : ∃ P', Inv none W' P' n tasks := by
  obtain ⟨hu, hblock, -, hact, -⟩ := h.runs hr
  obtain ⟨ho, hb⟩ := hblock g hk
  have hopen := ho.settle hb hr.isOver hw
  have hpc : (W.group g).parent ≠ c := fun he => by have := ho.later.1; omega
  have howner : (W.coro c).owner = (W.coro (W.group g).parent).owner := by rw [← hb, ho.owner]
  have hp : W.isOver (W.group g).parent = false := by
    cases ho.waits with
    | first hs | second hs | awake hs => rw [World.isOver, hs]; rfl
  obtain ⟨hup, hbp⟩ := (h.members _ hp).user ho.parent
  have hnt : ∀ d, (∀ g', (P.role d).kind = .timer g' → g' ≠ g) → (P.span g).timer ≠ some d :=
    fun d hd ht => hd g (ho.timer d ht).1 rfl
  refine ⟨P.settle (W.group g).parent c ((P.span g).cont (w.result r)) (W.coro c).owner, ?_⟩
  set p := (W.group g).parent with hpdef
  set P' := P.settle p c ((P.span g).cont (w.result r)) (W.coro c).owner with hP'
  have hrole : ∀ d, d ≠ p → P'.role d = P.role d := fun d hd => by rw [hP', settle_role, if_neg hd]
  have hactive : ∀ d, d ≠ c → P.active (W.coro d).owner = d → P'.active (W.coro d).owner = d :=
    fun d hdc hd => by
      rw [hP', Plan.settle]
      exact (Function.update_of_ne (act_ne hact hd hdc) ..).trans hd
  have hsame : ∀ d, d ≠ c → (P.span g).timer ≠ some d → SameTask W W' P P' d := by
    intro d hdc hdt
    by_cases hdp : d = p
    · refine ⟨hw.same_over hdc, by rw [hdp, hw.parent], hw.same_owner _, ?_, ?_, ?_⟩ <;> simp [hP', hdp]
    · exact .of_eq ((hw.others d hdc hdp).resolve_right fun ht => hdt ht.1) (hrole d hdp)
  have hother : ∀ g', g' ≠ g → Open (some c) W P g' → Open none W' P' g' := by
    intro g' hg ho'
    have hp'c := ho'.parent_ne hr.scope
    have hp'p : (W.group g').parent ≠ p := fun he => hg (by
      have hs := ho'.scope
      rw [he, ho.scope] at hs
      exact (Option.some.inj hs).symm)
    have hcoro := (hw.others _ hp'c hp'p).resolve_right fun ht =>
      hnt _ (fun g'' hg'' => absurd hg'' (ho'.parent g'')) ht.1
    refine ho'.frame (hw.group g' hg) (hw.groups ▸ Nat.le_refl _) (hw.coroId ▸ Nat.le_refl _) rfl
      (.of_eq hcoro) (hrole _ hp'p) (fun he => hp'c (Option.some.inj he).symm)
      (hactive _ hp'c) (hsame _ (fun he => ?_) (hnt _ fun g'' hg'' => ?_)) fun t ht =>
        hsame t (fun he => ?_) (hnt t fun g'' hg'' => ?_)
    · have hk' := ho'.block
      rw [he, hk] at hk'
      exact hg (Kind.block.inj hk').symm
    · rw [ho'.block] at hg''
      cases hg''
    · have hk' := (ho'.timer t ht).1
      rw [he, hk] at hk'
      cases hk'
    · rw [(ho'.timer t ht).1] at hg''
      exact Kind.timer.inj hg'' ▸ hg
  have hattached : ∀ g', Open (some c) W P g' → Open none W' P' g' ∧
      (W'.group g').parent = (W.group g').parent := fun g' ho' => by
    by_cases hg : g' = g
    · rw [hg]
      exact ⟨hopen, hw.same⟩
    · exact ⟨hother g' hg ho', by rw [hw.group g' hg]⟩
  have hends : Ends (decide (w ≠ .inTime)) (P.role c).body (P.role c).past r := by
    have hcame := hu.came
    rw [hr.rest] at hcame
    exact hcame.ends fun hc => decide_eq_true (hcw hc)
  exact {
    goes := hw.aborted.trans h.goes
    queue := hq
    fresh := fun d hd => by
      rw [hw.coroId] at hd
      have hdc : d ≠ c := Nat.ne_of_gt (Nat.lt_of_lt_of_le (h.lt_coroId hr.isOver) hd)
      have hdp : d ≠ p := Nat.ne_of_gt (Nat.lt_of_lt_of_le (h.lt_coroId hp) hd)
      have hcoro := (hw.others d hdc hdp).resolve_right fun ht =>
        absurd (ho.timer d ht.1).2 (Nat.not_lt_of_le hd)
      rw [World.isOver, hcoro]
      exact h.fresh d hd
    count := hw.coroId ▸ h.count
    task := fun i hi => by
      obtain ⟨hki, hbi, hsi, howni⟩ := h.task i hi
      have hic : i ≠ c := fun he => by
        rw [he, hk] at hki
        cases hki
      have hs := hsame i hic (hnt i fun g' hg' => by rw [hki] at hg'; cases hg')
      rw [hs.kind, hs.body, hs.start, hs.owner]
      exact ⟨hki, hbi, hsi, howni⟩
    kinds := fun d hd => h.kinds d (by
      by_cases hdp : d = p
      · rwa [hP', settle_role, if_pos hdp, ← hdp] at hd
      · rwa [hrole d hdp] at hd)
    ended := fun i hi hov => by
      obtain ⟨hki, hbi, hsi, howni⟩ := h.task i hi
      have hic : i ≠ c := fun he => by
        rw [he, hk] at hki
        cases hki
      rw [hw.same_over hic] at hov
      have hip : i ≠ p := fun he => by
        rw [he, hp] at hov
        cases hov
      have hcoro := (hw.others i hic hip).resolve_right fun ht => by
        have hkt := (ho.timer i ht.1).1
        rw [hki] at hkt
        cases hkt
      obtain ⟨hai, hri⟩ := h.ended i hi hov
      refine ⟨?_, ?_⟩
      · have ha := hactive i hic (by rw [howni]; exact hai)
        rwa [howni] at ha
      · rw [hcoro, hrole i hip]
        exact hri
    acts := fun i hi => by
      rw [hw.same_owner]
      by_cases hio : i = (W.coro c).owner
      · rw [hP', Plan.settle, hio]
        show Function.update P.active _ p _ < _ ∧ (W.coro (Function.update P.active _ p _)).owner = _
        rw [Function.update_self, howner, hw.coroId]
        exact ⟨h.lt_coroId hp, rfl⟩
      · have hai : P'.active i = P.active i := Function.update_of_ne hio ..
        rw [hai, hw.coroId]
        exact h.acts i hi
    log := fun i hi => by
      rw [hw.log, h.log i hi]
      by_cases hio : i = (W.coro c).owner
      · have hai : P'.active i = p := by
          rw [hP', Plan.settle, hio]
          exact Function.update_self ..
        rw [hai, hio, hact, hP', settle_role, if_pos rfl, hstart, List.append_assoc]
      · have hai : P'.active i = P.active i := Function.update_of_ne hio ..
        have hip : P.active i ≠ p := fun he => hio (by rw [← (h.acts i hi).2, he, howner])
        rw [hai, hrole _ hip]
    members := fun d hd => by
      have hdc : d ≠ c := fun he => by
        rw [he, hw.isOver] at hd
        cases hd
      rw [hw.same_over hdc] at hd
      by_cases hdp : d = p
      · rw [hdp]
        have hscope := hopen.scope
        rw [hw.same] at hscope
        refine User.member ⟨?_, .waiting hscope hw.same hopen⟩ ?_ fun g' hg' => ?_
        · have hcame := hup.came
          rw [hrest] at hcame
          rw [hP', settle_role, if_pos rfl, hw.parent]
          exact hcame.scope hww hends
        · rw [hP', settle_role, if_pos rfl]
          exact ho.parent
        · rw [hP', settle_role, if_pos rfl] at hg'
          obtain ⟨ho', hb'⟩ := hbp g' hg'
          exact ⟨(hattached g' ho').1, hb'⟩
      · have hstays : Stays W W' d := (hw.others d hdc hdp).imp id And.right
        exact (h.members d hd).stays hstays (hrole d hdp) (hactive d hdc)
          (fun he => hdc (Option.some.inj he).symm) (fun _ _ => rfl) fun g' ho' _ => hattached g' ho' }

end Steps

end MoonS7.Async
