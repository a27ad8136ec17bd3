import MoonS7.Async.Timeouts

/-!
# The life of a `with_timeout_opt`

What its block, its timer and its parent do to the group, step by step, and that each step keeps the
invariant.
-/

namespace MoonS7.Async

variable {E : Type} {R : E → Type} {V : Type}

/-! ## 1. A worker that ends -/

section Exec

variable {X : Type} (c d g : Nat) (W : World E R X)

theorem setGroup_wake (tg : TaskGroup X) : (W.setGroup g tg).wake d = (W.wake d).setGroup g tg := by
  unfold World.wake World.setGroup
  simp only
  split <;> rfl

theorem setGroup_cancel (tg : TaskGroup X) :
    (W.setGroup g tg).cancel d = (W.cancel d).setGroup g tg := by
  have hset : ∀ x, (W.setGroup g tg).setCoro d x = (W.setCoro d x).setGroup g tg := fun _ => rfl
  cases hs : (W.coro d).shielded with
  | true => simp only [World.cancel, setGroup_coro, hs, if_true, hset]
  | false =>
    simp only [World.cancel, setGroup_coro, hs, Bool.false_eq_true, if_false, hset,
      setGroup_wake]

theorem setGroup_cancelAll (tg : TaskGroup X) (cs : List Nat) :
    (W.setGroup g tg).cancelAll cs = (W.cancelAll cs).setGroup g tg := by
  induction cs generalizing W with
  | nil => rfl
  | cons d cs ih =>
    show ((W.setGroup g tg).cancel d).cancelAll cs = ((W.cancel d).cancelAll cs).setGroup g tg
    rw [setGroup_cancel, ih]

@[simp] theorem cancelAll_group (cs : List Nat) : (W.cancelAll cs).group = W.group :=
  (cancelAll_sameElse W cs).group

@[simp] theorem wake_group : (W.wake d).group = W.group := (wake_sameElse W d).group

/-- Those of `stop` are cancelled, the group `g` becomes `tg`, and its parent is woken if nobody is
    left in it. -/
def World.regroup (stop : List Nat) (tg : TaskGroup X) : World E R X :=
  let W' := (W.cancelAll stop).setGroup g tg
  if tg.children = [] then W'.wake tg.parent else W'

/-- The group after a worker has left it. -/
def TaskGroup.without (tg : TaskGroup X) : TaskGroup X := { tg with children := tg.children.erase c }

/-- The last of those that are waited for leaves the group. -/
def TaskGroup.lastOut (tg : TaskGroup X) : TaskGroup X :=
  { tg.without c with
    waiting := tg.waiting - 1
    state := if tg.state = .running then .done else tg.state }

theorem exec_workerDefer_timer (k : Unit → Code E R X) :
    W.exec c (workerDefer g c true k) =
      (W.regroup g [] ((W.group g).without c)).exec c (k ()) := by
  simp [workerDefer, World.regroup, TaskGroup.without, World.cancelAll]
  split <;> simp [*]

theorem exec_workerDefer_block (hw : (W.group g).waiting = 1) (k : Unit → Code E R X) :
    W.exec c (workerDefer g c false k) =
      (W.regroup g (if (W.group g).state = .running then (W.group g).children.erase c else [])
        ((W.group g).lastOut c)).exec c (k ()) := by
  simp [workerDefer, World.regroup, TaskGroup.lastOut, TaskGroup.without, hw]
  by_cases hs : (W.group g).state = .running
  · simp [hs, setGroup_cancelAll]
    split <;> simp [*]
  · simp [hs, World.cancelAll]
    split <;> simp [*]

@[simp] theorem regroup_coro (stop : List Nat) (tg : TaskGroup X) :
    (W.regroup g stop tg).coro d =
      { if d ∈ stop then (W.coro d).stop else W.coro d with
        ready := (if d ∈ stop then (W.coro d).stop else W.coro d).ready ||
          decide (tg.children = [] ∧ d = tg.parent) } := by
  unfold World.regroup
  by_cases hn : tg.children = []
  · by_cases hd : d = tg.parent
    · subst hd
      simp [hn]
    · simp [hn, hd]
  · simp [hn]

@[simp] theorem regroup_group (stop : List Nat) (tg : TaskGroup X) (g' : Nat) :
    (W.regroup g stop tg).group g' = if g' = g then tg else W.group g' := by
  unfold World.regroup
  split <;> simp

theorem World.Queue.regroup {W : World E R X} (h : W.Queue) (stop : List Nat) (tg : TaskGroup X) :
    (W.regroup g stop tg).Queue := by
  have hset : ((W.cancelAll stop).setGroup g tg).Queue := (h.cancelAll stop).same rfl fun _ => rfl
  unfold World.regroup
  simp only
  split
  · exact hset.wake _
  · exact hset

/-- What the functions of a group leave as it is. -/
structure World.SameOutside (W W' : World E R X) : Prop where
  coroId : W'.coroId = W.coroId
  groups : W'.groups = W.groups
  aborted : W'.aborted = W.aborted
  log : W'.log = W.log

theorem World.SameElse.outside {W W' : World E R X} (h : W.SameElse W') : W.SameOutside W' :=
  ⟨h.coroId, h.groups, h.aborted, h.log⟩

theorem regroup_outside (stop : List Nat) (tg : TaskGroup X) :
    W.SameOutside (W.regroup g stop tg) := by
  have hc := cancelAll_sameElse W stop
  have hset : W.SameOutside ((W.cancelAll stop).setGroup g tg) :=
    ⟨hc.coroId, hc.groups, hc.aborted, hc.log⟩
  unfold World.regroup
  simp only
  split
  · have hw := wake_sameElse ((W.cancelAll stop).setGroup g tg) tg.parent
    exact ⟨hw.coroId.trans hset.coroId, hw.groups.trans hset.groups, hw.aborted.trans hset.aborted,
      hw.log.trans hset.log⟩
  · exact hset

theorem exec_workerCatch_cancelled (h : (W.coro c).beingCancelled = true)
    (k : Except Raise Unit → Code E R X) :
    W.exec c (workerCatch g false (.error .cancelled) k) = W.exec c (k (.error .cancelled)) := by
  simp [workerCatch, h]

/-- A task that fails. -/
theorem exec_workerCatch_error {err : Raise}
    (h : ¬ (err = .cancelled ∧ (W.coro c).beingCancelled = true))
    (k : Except Raise Unit → Code E R X) :
    W.exec c (workerCatch g false (.error err) k) =
      ((W.cancelAll (if (W.group g).state = .running then (W.group g).children else [])).setGroup g
        { W.group g with state := .fail err }).exec c (k (.error err)) := by
  by_cases hs : (W.group g).state = .running
  · by_cases he : err = .cancelled
    · have hb : (W.coro c).beingCancelled = false := Bool.eq_false_iff.mpr fun hb => h ⟨he, hb⟩
      simp [workerCatch, hs, he, hb]
    · simp [workerCatch, hs, he]
  · by_cases he : err = .cancelled
    · have hb : (W.coro c).beingCancelled = false := Bool.eq_false_iff.mpr fun hb => h ⟨he, hb⟩
      simp [workerCatch, hs, he, hb, World.cancelAll]
    · simp [workerCatch, hs, he, World.cancelAll]

@[simp] theorem setGroup_self : W.setGroup g (W.group g) = W := by
  unfold World.setGroup
  rw [Function.update_eq_self]

@[simp] theorem cancelAll_nil : W.cancelAll [] = W := rfl

end Exec

section Ends

variable {run run' : Option Nat} {W W' : World E R (Option V)} {P P' : Plan E R V} {n : Nat}
  {tasks : Nat → Routine E R V}

/-- What a block has come to when only its `defer` is left. -/
structure Caught (W : World E R (Option V)) (g c : Nat) (w : End) (x : Except Raise (Option V))
    (stop : List Nat) (tg : TaskGroup (Option V)) : Prop where
  among : ∀ d ∈ stop, d ∈ (W.group g).children
  children : tg.children = (W.group g).children
  parent : tg.parent = (W.group g).parent
  waiting : tg.waiting = (W.group g).waiting
  settled : (tg.lastOut c).Settled x
  stopped : w = .inTime → tg.state = .running ∨ stop = (W.group g).children

theorem exec_blockCatch {g c : Nat} {w : End} (hs : (W.group g).state = w.state)
    (hr : (W.group g).result = w.stored) (hsh : (W.coro c).shielded = false)
    (hcd : (W.coro c).cancelled = decide (w ≠ .inTime)) (r : Except Raise V) :
    ∃ stop tg y, W.exec c ((Kind.block g).finish c r) =
        ((W.cancelAll stop).setGroup g tg).exec c (workerDefer g c false fun _ => .ended y) ∧
      Caught W g c w (w.result r) stop tg := by
  have hbc : (W.coro c).beingCancelled = decide (w ≠ .inTime) := by
    rw [Coroutine.beingCancelled, hsh, hcd, Bool.not_false, Bool.and_true]
  cases r with
  | ok v =>
    cases w with
    | inTime =>
      refine ⟨[], { W.group g with result := some (some v) }, .ok (), ?_, nofun, rfl, rfl, rfl, ?_,
        fun _ => Or.inl hs⟩
      · simp [Kind.finish, storeResult, workerEnd, workerCatch, Except.map, hr, End.stored]
      · exact Or.inl ⟨some v, by simp [TaskGroup.lastOut, hs, End.state], rfl, rfl⟩
    | expired =>
      refine ⟨[], W.group g, .ok (), ?_, nofun, rfl, rfl, rfl, ?_, nofun⟩
      · simp [Kind.finish, storeResult, workerEnd, workerCatch, Except.map, hr, End.stored]
      · exact Or.inl ⟨none, by simp [TaskGroup.lastOut, hs, End.state], hr, rfl⟩
    | cancelled =>
      refine ⟨[], { W.group g with result := some (some v) }, .ok (), ?_, nofun, rfl, rfl, rfl, ?_,
        nofun⟩
      · simp [Kind.finish, storeResult, workerEnd, workerCatch, Except.map, hr, End.stored]
      · exact Or.inr ⟨.cancelled, by simp [TaskGroup.lastOut, hs, End.state], rfl⟩
  | error err =>
    by_cases hcatch : err = .cancelled ∧ (W.coro c).beingCancelled = true
    · obtain ⟨rfl, hb⟩ := hcatch
      refine ⟨[], W.group g, .error .cancelled, ?_, nofun, rfl, rfl, rfl, ?_, ?_⟩
      · simp [Kind.finish, storeResult, workerEnd, Except.map, exec_workerCatch_cancelled, hb]
      · cases w with
        | inTime => simp [hbc] at hb
        | expired => exact Or.inl ⟨none, by simp [TaskGroup.lastOut, hs, End.state], hr, rfl⟩
        | cancelled => exact Or.inr ⟨.cancelled, by simp [TaskGroup.lastOut, hs, End.state], rfl⟩
      · rintro rfl
        simp [hbc] at hb
    · refine ⟨if (W.group g).state = .running then (W.group g).children else [],
        { W.group g with state := .fail err }, .error err, ?_, ?_, rfl, rfl, rfl, ?_, ?_⟩
      · simp [Kind.finish, storeResult, workerEnd, Except.map, exec_workerCatch_error c g W hcatch]
      · split
        · exact fun _ h => h
        · nofun
      · refine Or.inr ⟨err, by simp [TaskGroup.lastOut], ?_⟩
        cases w with
        | inTime => rfl
        | expired =>
          cases err with
          | cancelled => exact absurd ⟨rfl, hbc⟩ hcatch
          | error m => rfl
        | cancelled => rfl
      · rintro rfl
        exact Or.inr (if_pos hs)

/-- **The end of a block**: its group is settled by what the block has come to. -/
theorem blockOver {g c : Nat} {w : End} (ho : Open run W P g) (hb : (P.span g).block = c)
    (hover : W.isOver c = false) (hq : W.Queue) (hs : (W.group g).state = w.state)
    (hr : (W.group g).result = w.stored) (hsh : (W.coro c).shielded = false)
    (hcd : (W.coro c).cancelled = decide (w ≠ .inTime))
    (ht : ∀ t, (P.span g).timer = some t → W.isOver t = false →
      (W.coro t).cancelled = decide (w ≠ .inTime)) (r : Except Raise V) :
    BlockOver W (W.exec c ((Kind.block g).finish c r)) P g c (w.result r) ∧
      (W.exec c ((Kind.block g).finish c r)).Queue := by
  obtain ⟨stop, tg, y, hexec, hcaught⟩ := exec_blockCatch hs hr hsh hcd r
  have hwait : (W.group g).waiting = 1 := by rw [ho.waiting, hb, hover]; rfl
  rw [hexec, exec_workerDefer_block _ _ _ (by simpa using hcaught.waiting.trans hwait)]
  simp only [setGroup_group, if_pos, exec_ended]
  generalize hstop' : (if tg.state = .running then tg.children.erase c else []) = stop'
  have hstop'_mem : ∀ d ∈ stop', d ∈ (W.group g).children := fun d hd => by
    rw [← hstop'] at hd
    split at hd
    · exact hcaught.children ▸ List.mem_of_mem_erase hd
    · cases hd
  have hpc : (W.group g).parent ≠ c := fun he => by have := ho.later.1; omega
  have hpn : (W.group g).parent ∉ (W.group g).children := fun hm => by
    rcases ((ho.mem _).mp hm).1 with he | he
    · exact hpc (he.trans hb)
    · exact ho.parent g (ho.timer _ he).1
  have hch : (tg.lastOut c).children = (W.group g).children.erase c := by
    rw [← hcaught.children]
    rfl
  have hp : (tg.lastOut c).parent = (W.group g).parent := hcaught.parent
  have htc : ∀ t, (P.span g).timer = some t → t ≠ c ∧ t ≠ (W.group g).parent := fun t ht => by
    have hk := (ho.timer t ht).1
    refine ⟨fun he => ?_, fun he => ho.parent g (he ▸ hk)⟩
    rw [he, ← hb, ho.block] at hk
    cases hk
  have hcoro : ∀ d, d ≠ c → d ≠ (W.group g).parent →
      ((((W.cancelAll stop).setGroup g tg).regroup g stop' (tg.lastOut c)).setState c
        (ending y)).coro d =
        if d ∈ stop ∨ d ∈ stop' then (W.coro d).stop else W.coro d := fun d hdc hdp => by
    by_cases h₁ : d ∈ stop <;> by_cases h₂ : d ∈ stop' <;> simp [h₁, h₂, hdc, hp, hdp, stop_stop]
  have hout := regroup_outside g ((W.cancelAll stop).setGroup g tg) stop' (tg.lastOut c)
  have hsame := cancelAll_sameElse W stop
  have hqg : ((W.cancelAll stop).setGroup g tg).Queue := (hq.cancelAll stop).same rfl fun _ => rfl
  refine ⟨{
    isOver := ?_
    owner := ?_
    parent := ?_
    others := fun d hdc hdp => ?_
    timer := fun t ht' hto => ?_
    children := ?_
    same := ?_
    waiting := ?_
    settled := ?_
    group := fun g' hg' => ?_
    groups := hout.groups.trans hsame.groups
    coroId := hout.coroId.trans hsame.coroId
    aborted := hout.aborted.trans hsame.aborted
    log := hout.log.trans hsame.log }, (hqg.regroup g stop' _).setCoro c rfl⟩
  · rw [World.isOver, setState_coro, if_pos rfl, over_ending]
  · simp only [setState_coro, if_pos, regroup_coro, setGroup_coro, cancelAll_coro]
    split <;> split <;> rfl
  · have hn : (W.group g).parent ∉ stop := fun h => hpn (hcaught.among _ h)
    have hn' : (W.group g).parent ∉ stop' := fun h => hpn (hstop'_mem _ h)
    simp [hpc, hn, hn', hp]
  · rw [hcoro d hdc hdp]
    by_cases hd : d ∈ stop ∨ d ∈ stop'
    · have hmem : d ∈ (W.group g).children := hd.elim (hcaught.among d) (hstop'_mem d)
      have hdt := (((ho.mem d).mp hmem).1).resolve_left fun he => hdc (he.trans hb)
      exact Or.inr ⟨hdt, if_pos hd⟩
    · exact Or.inl (if_neg hd)
  · obtain ⟨htc', htp⟩ := htc t ht'
    rw [hcoro t htc' htp]
    split
    · rfl
    · rename_i hn
      rw [ht t ht' hto]
      refine decide_eq_true fun hw => hn ?_
      have hmem : t ∈ (W.group g).children := (ho.mem t).mpr ⟨Or.inr ht', hto⟩
      rcases hcaught.stopped hw with h | h
      · rw [← hstop', if_pos h, hcaught.children]
        exact Or.inr ((List.mem_erase_of_ne htc').mpr hmem)
      · exact Or.inl (by rwa [h])
  · simp [hch]
  · simp [hp]
  · simp [TaskGroup.lastOut, hcaught.waiting]
  · simpa using hcaught.settled
  · simp [hg']

/-- A block that has come to its end ends, and the invariant is kept. -/
theorem Inv.blockReturns {g c : Nat} (h : Inv (some c) W P n tasks) {r : Except Raise V}
    (hr : Runs W P c (.ret r)) (hk : (P.role c).kind = .block g) :
    ∃ P', Inv none (W.exec c ((Kind.block g).finish c r)) P' n tasks := by
  obtain ⟨-, hblock, -, -, hsh, -⟩ := h.runs hr
  obtain ⟨ho, hb⟩ := hblock g hk
  cases ho.status with
  | settled x hd => rw [hb, hr.isOver] at hd; cases hd
  | unsettled w _ hs hres hcd hc ht hrest hstart =>
    rw [hb] at hcd hrest hstart
    obtain ⟨hw, hq⟩ := blockOver ho hb hr.isOver h.queue hs hres hsh hcd ht r
    exact h.blockEnds hr hk hc (fun hct hw' => by simp [hct, hw'] at hcd) hrest hstart hw hq

end Ends

/-! ## 2. A `with_timeout_opt` begins -/

section Begins

variable {run run' : Option Nat} {W W' : World E R (Option V)} {P P' : Plan E R V} {n : Nat}
  {tasks : Nat → Routine E R V}

/-- What the invariant asks of the task `i` where it does not end. -/
structure TaskKept (W W' : World E R (Option V)) (P P' : Plan E R V) (i : Nat) : Prop where
  isOver : W'.isOver i = W.isOver i
  owner : (W'.coro i).owner = (W.coro i).owner
  kind : (P'.role i).kind = (P.role i).kind
  body : (P'.role i).body = (P.role i).body
  start : (P'.role i).start = (P.role i).start
  ended : W.isOver i = true → Kept W W' i ∧ P'.role i = P.role i ∧ (P.active i = i → P'.active i = i)

/-- A step in which no task ends. -/
theorem Inv.change (h : Inv run W P n tasks) (hab : W'.aborted = W.aborted) (hq : W'.Queue)
    (hid : W.coroId ≤ W'.coroId) (hfresh : ∀ d, W'.coroId ≤ d → W'.coro d = W.coro d)
    (htask : ∀ i < n, (P.role i).kind = .task → TaskKept W W' P P' i)
    (hacts : ∀ i < n, P'.active i < W'.coroId ∧ (W'.coro (P'.active i)).owner = i)
    (hlog : ∀ i < n, W'.log i = (P'.role (P'.active i)).start ++ (P'.role (P'.active i)).past)
    (hkinds : ∀ d, (P'.role d).kind = .task → (P.role d).kind = .task)
    (hmembers : ∀ d, W'.isOver d = false → Member run' W' P' d) : Inv run' W' P' n tasks where
  goes := hab.trans h.goes
  queue := hq
  fresh d hd := by
    rw [World.isOver, hfresh d hd]
    exact h.fresh d (Nat.le_trans hid hd)
  count := Nat.le_trans h.count hid
  task i hi := by
    have hk := h.task i hi
    have ht := htask i hi hk.1
    rw [ht.kind, ht.body, ht.start, ht.owner]
    exact hk
  kinds d hd := h.kinds d (hkinds d hd)
  ended i hi hov := by
    have ht := htask i hi (h.task i hi).1
    rw [ht.isOver] at hov
    obtain ⟨hstay, hrole, hact⟩ := ht.ended hov
    obtain ⟨ha, r, hr, hends⟩ := h.ended i hi hov
    refine ⟨hact ha, r, hstay.state.trans hr, fun b hb => ?_⟩
    rw [hrole]
    exact hends b fun hc => hb (hstay.cancelled hc)
  acts := hacts
  log := hlog
  members := hmembers

/-- What the parent of a new group waits with: it is being cancelled (`w = .cancelled`), or not. -/
def waitCode (P : Plan E R V) (c g : Nat) (w : End) (cont : Except Raise (Option V) → Routine E R V) :
    Except Raise Unit → Code E R (Option V) := fun r =>
  if w = .cancelled then
    setShielded false fun _ => groupEnd g r fun x => (P.role c).kind.code c (cont x)
  else groupResume g r fun x => (P.role c).kind.code c (cont x)

/-- How a `with_timeout_opt` begins: the coroutine `c` waits in a new group, whose block is a new
    coroutine. -/
structure Begun (W W' : World E R (Option V)) (P : Plan E R V) (c : Nat) (time : Int32)
    (f : Routine E R V) (cont : Except Raise (Option V) → Routine E R V) (w : End) : Prop where
  parent : W'.coro c = { W.coro c with
    state := .suspended (waitCode P c W.groups w cont), shielded := decide (w = .cancelled) }
  block : W'.coro W.coroId =
    ⟨.spawned (worker W.groups (groupBody (timeoutBody time f.code) W.groups) false false), true,
      decide (w ≠ .inTime), true, (W.coro c).owner⟩
  others : ∀ d, d ≠ c → d ≠ W.coroId → W'.coro d = W.coro d
  group : W'.group W.groups = ⟨[W.coroId], c, 1, w.state, none⟩
  otherGroups : ∀ g, g ≠ W.groups → W'.group g = W.group g
  coroId : W'.coroId = W.coroId + 1
  groups : W'.groups = W.groups + 1
  aborted : W'.aborted = W.aborted
  log : W'.log = W.log

/-- A new group with the parent `c`, in which one coroutine is about to run `f`. -/
def World.newScope {X : Type} (W : World E R X) (c : Nat) (f : Code E R X) : World E R X :=
  ((W.newGroup ⟨[], c, 0, .running, none⟩).spawn f (W.coro c).owner).setGroup W.groups
    ⟨[W.coroId], c, 1, .running, none⟩

theorem exec_withTaskGroup {X : Type} (W : World E R X) (c : Nat)
    (f : Nat → Lib E R X (Except Raise X)) (k : Except Raise X → Code E R X) :
    W.exec c (withTaskGroup f k) =
      (W.newScope c (worker W.groups (groupBody f W.groups) false false)).exec c
        (suspend fun r => groupResume W.groups r k) := by
  have hcomm : ∀ (W : World E R X) g tg f o,
      (W.setGroup g tg).spawn f o = (W.spawn f o).setGroup g tg := fun _ _ _ _ _ => rfl
  simp [withTaskGroup, spawnBg, spawnCoroutine, World.newScope, hcomm, -exec_suspend]

/-- The parent of a group that is not empty is cancelled: it cancels what is in the group, and waits
    on. -/
theorem exec_groupCatch {X : Type} {W : World E R X} {c g : Nat} (hsh : (W.coro c).shielded = false)
    (hne : (W.group g).children ≠ []) (hc : c ∉ (W.group g).children)
    (k : Except Raise X → Code E R X) :
    W.exec c (groupResume g (.error .cancelled) k) =
      ((W.cancelAll (W.group g).children).setGroup g { W.group g with
        state := if (W.group g).state = .running then .fail .cancelled else
          (W.group g).state }).setCoro c { W.coro c with
            state := .suspended fun r => setShielded false fun _ => groupEnd g r k
            shielded := true } := by
  have hset : ∀ (W : World E R X) x s,
      (W.setCoro c x).setState c s = W.setCoro c { x with state := s } := fun W x s => by
    simp [World.setState, World.setCoro]
  by_cases hs : (W.group g).state = .running
  · simp [groupResume, groupCatch, protectFromCancel, hs, hne, hsh, hc, Coroutine.beingCancelled, hset,
      setGroup_cancelAll]
  · have hself : { W.group g with state := (W.group g).state } = W.group g := rfl
    have hgrp := setGroup_cancelAll g W (W.group g) (W.group g).children
    rw [setGroup_self] at hgrp
    simp [groupResume, groupCatch, protectFromCancel, hs, hne, hsh, hc, Coroutine.beingCancelled, hset,
      ← hgrp]

theorem exec_withTimeoutOpt {c : Nat} (hq : W.Queue) (hfresh : (W.coro W.coroId).ready = false)
    (hlt : c < W.coroId) (hsh : (W.coro c).shielded = false) (time : Int32) (f : Routine E R V)
    (cont : Except Raise (Option V) → Routine E R V) :
    Begun W (W.exec c ((P.role c).kind.code c (.withTimeoutOpt time f cont))) P c time f cont
        (if (W.coro c).cancelled then .cancelled else .inTime) ∧
      (W.exec c ((P.role c).kind.code c (.withTimeoutOpt time f cont))).Queue := by
  have hne : c ≠ W.coroId := Nat.ne_of_lt hlt
  have hexec : W.exec c ((P.role c).kind.code c (.withTimeoutOpt time f cont)) = _ :=
    exec_withTaskGroup W c (timeoutBody time f.code) fun x => (P.role c).kind.code c (cont x)
  rw [hexec]
  generalize hbody : worker W.groups (groupBody (timeoutBody time f.code) W.groups) false false = body
  have hcoro : ∀ d, (W.newScope c body).coro d =
      if d = W.coroId then ⟨.spawned body, true, false, true, (W.coro c).owner⟩ else W.coro d :=
    fun d => by
      rw [World.newScope, setGroup_coro, spawn_coro]
      rfl
  have hgroup : ∀ g, (W.newScope c body).group g =
      if g = W.groups then ⟨[W.coroId], c, 1, .running, none⟩ else W.group g := fun g => by
    by_cases hg : g = W.groups <;> simp [World.newScope, hg]
  have hq' : (W.newScope c body).Queue := by
    have hnew : (W.newGroup ⟨[], c, 0, .running, none⟩).Queue := hq.same rfl fun _ => rfl
    exact (hnew.spawn body (W.coro c).owner hfresh).same rfl fun _ => rfl
  cases hc : (W.coro c).cancelled with
  | false =>
    rw [exec_suspend, if_neg (by simp [hcoro, hne, Coroutine.beingCancelled, hc])]
    refine ⟨{
      parent := ?_
      block := ?_
      others := fun d hd hd' => ?_
      group := ?_
      otherGroups := fun g hg => ?_
      coroId := rfl
      groups := rfl
      aborted := rfl
      log := rfl }, hq'.setCoro c rfl⟩
    · simp [hcoro, hne, hsh]
      rfl
    · simp [hcoro, hne.symm, hbody]
    · simp [hcoro, hd, hd']
    · simp [hgroup, End.state]
    · simp [hgroup, hg]
  | true =>
    have hgc : (W.newScope c body).group W.groups = ⟨[W.coroId], c, 1, .running, none⟩ := by
      simp [hgroup]
    have hcc : (W.newScope c body).coro c = W.coro c := by simp [hcoro, hne]
    rw [exec_suspend, if_pos (by simp [hcc, Coroutine.beingCancelled, hc, hsh]),
      exec_groupCatch (by rw [hcc, hsh]) (by simp [hgc]) (by simp [hgc, hne])]
    have hsame := cancelAll_sameElse (W.newScope c body) ((W.newScope c body).group W.groups).children
    refine ⟨{
      parent := ?_
      block := ?_
      others := fun d hd hd' => ?_
      group := ?_
      otherGroups := fun g hg => ?_
      coroId := hsame.coroId
      groups := hsame.groups
      aborted := hsame.aborted
      log := hsame.log }, ?_⟩
    · simp [hcc]
      rfl
    · simp [hgc, hcoro, hne.symm, hbody, Coroutine.stop]
    · simp [hgc, hcoro, hd, hd']
    · simp [hgc, End.state]
    · simp [hgroup, hg]
    · refine World.Queue.setCoro ?_ c ?_
      · exact (hq'.cancelAll _).same rfl fun _ => rfl
      · simp [hgc, hcc, hne]

theorem Member.openGroup {c g : Nat} (h : Member run W P c)
    (hk : (P.role c).kind = .block g ∨ (P.role c).kind = .timer g) : Open run W P g := by
  cases h with
  | task hk' => simp [hk'] at hk
  | block hk' ho =>
    simp only [hk', Kind.block.injEq, reduceCtorEq, or_false] at hk
    rwa [← hk]
  | timer hk' ho =>
    simp only [hk', Kind.timer.injEq, reduceCtorEq, false_or] at hk
    rwa [← hk]

theorem Member.inSpan {c g : Nat} (h : Member run W P c)
    (hk : (P.role c).kind = .block g ∨ (P.role c).kind = .timer g) :
    (P.span g).block = c ∨ (P.span g).timer = some c := by
  cases h with
  | task hk' => simp [hk'] at hk
  | block hk' _ hb =>
    simp only [hk', Kind.block.injEq, reduceCtorEq, or_false] at hk
    exact Or.inl (hk ▸ hb)
  | timer hk' _ ht =>
    simp only [hk', Kind.timer.injEq, reduceCtorEq, false_or] at hk
    exact Or.inr (hk ▸ ht)

/-- The plan where `c` waits in the group `g` for the new coroutine `d`. -/
def Plan.begin (P : Plan E R V) (c d g owner : Nat) (time : Int32) (f : Routine E R V)
    (cont : Except Raise (Option V) → Routine E R V) : Plan E R V where
  role := Function.update (Function.update P.role c { P.role c with scope := some g }) d
    ⟨.block g, f, (P.role c).start ++ (P.role c).past, [], f, none⟩
  span := Function.update P.span g ⟨time, d, none, cont⟩
  active := Function.update P.active owner d

theorem Plan.begin_block (c d g owner : Nat) (time : Int32) (f : Routine E R V)
    (cont : Except Raise (Option V) → Routine E R V) :
    (P.begin c d g owner time f cont).role d =
      ⟨.block g, f, (P.role c).start ++ (P.role c).past, [], f, none⟩ :=
  Function.update_self ..

theorem Plan.begin_parent {c d : Nat} (hcd : c ≠ d) (g owner : Nat) (time : Int32)
    (f : Routine E R V) (cont : Except Raise (Option V) → Routine E R V) :
    (P.begin c d g owner time f cont).role c = { P.role c with scope := some g } :=
  (Function.update_of_ne hcd ..).trans (Function.update_self ..)

theorem Plan.begin_role {c d x : Nat} (hxc : x ≠ c) (hxd : x ≠ d) (g owner : Nat) (time : Int32)
    (f : Routine E R V) (cont : Except Raise (Option V) → Routine E R V) :
    (P.begin c d g owner time f cont).role x = P.role x :=
  (Function.update_of_ne hxd ..).trans (Function.update_of_ne hxc ..)

theorem Plan.begin_span (c d g owner : Nat) (time : Int32) (f : Routine E R V)
    (cont : Except Raise (Option V) → Routine E R V) :
    (P.begin c d g owner time f cont).span g = ⟨time, d, none, cont⟩ :=
  Function.update_self ..

/-- The group that begins is open: its parent waits for the one coroutine in it. -/
theorem Begun.opens {c : Nat} {time : Int32} {f : Routine E R V}
    {cont : Except Raise (Option V) → Routine E R V} {w : End} (hb : Begun W W' P c time f cont w)
    (hr : Runs W P c (.withTimeoutOpt time f cont)) (hready : (W.coro c).ready = false)
    (hlt : c < W.coroId) (hw : w ≠ .expired) (hwc : w = .cancelled → (W.coro c).cancelled = true) :
    Open none W' (P.begin c W.coroId W.groups (W.coro c).owner time f cont) W.groups := by
  have hrole_d := Plan.begin_block (P := P) c W.coroId W.groups (W.coro c).owner time f cont
  have hrole_c := Plan.begin_parent (P := P) (Nat.ne_of_lt hlt) W.groups (W.coro c).owner time f cont
  have hspan_g := Plan.begin_span (P := P) c W.coroId W.groups (W.coro c).owner time f cont
  have hover_d : W'.isOver W.coroId = false := by rw [World.isOver, hb.block]; rfl
  generalize P.begin c W.coroId W.groups (W.coro c).owner time f cont = P' at *
  refine {
    lt := by rw [hb.groups]; omega
    scope := by rw [hb.group, hrole_c]
    waits := ?_
    nodup := by rw [hb.group]; exact List.pairwise_singleton ..
    mem := fun x => ?_
    waiting := by rw [hb.group, hspan_g, hover_d]; rfl
    block := by rw [hspan_g, hrole_d]
    timer := fun t ht => by rw [hspan_g] at ht; cases ht
    later := by rw [hb.group, hspan_g, hb.coroId]; exact ⟨hlt, Nat.lt_succ_self _⟩
    owner := by rw [hb.group, hspan_g, hb.block, hb.parent]
    parent := by rw [hb.group, hrole_c]; exact hr.kind
    status := ?_ }
  · rw [hb.group]
    cases w with
    | inTime =>
      refine .first ?_ (by rw [hb.parent]; rfl) ?_ ?_
      · rw [hb.parent, hrole_c, hspan_g]
        rfl
      · rw [hb.parent]
        intro hr'
        rw [hready] at hr'
        cases hr'
      · rw [hb.group]
        simp
    | expired => exact absurd rfl hw
    | cancelled =>
      refine .second ?_ (by rw [hb.parent]; rfl) ?_
      · rw [hb.parent, hrole_c, hspan_g]
        rfl
      · rw [hb.parent, hb.group]
        simp [hready]
  · rw [hb.group, hspan_g, List.mem_singleton]
    constructor
    · rintro rfl
      exact ⟨Or.inl rfl, hover_d⟩
    · rintro ⟨rfl | hx, -⟩
      · rfl
      · cases hx
  · rw [hb.group, hspan_g]
    refine .unsettled w hover_d (by rw [hb.group]) ?_ (by rw [hb.block]) (fun he => ?_)
      (fun t ht => by rw [hspan_g] at ht; cases ht) ?_ ?_
    · rw [hb.group]
      cases w with
      | expired => exact absurd rfl hw
      | inTime | cancelled => rfl
    · rw [hb.parent]
      exact hwc he
    · rw [hrole_c, hrole_d, hspan_g]
      exact hr.rest
    · rw [hrole_c, hrole_d]

theorem Inv.begins {c : Nat} (h : Inv (some c) W P n tasks) {time : Int32} {f : Routine E R V}
    {cont : Except Raise (Option V) → Routine E R V} (hr : Runs W P c (.withTimeoutOpt time f cont))
    {w : End} (hw : w ≠ .expired) (hwc : w = .cancelled → (W.coro c).cancelled = true)
    (hb : Begun W W' P c time f cont w) (hq : W'.Queue) : ∃ P', Inv none W' P' n tasks := by
  obtain ⟨hu, hblock, -, hact, -, hready⟩ := h.runs hr
  have hlt := h.lt_coroId hr.isOver
  have hcd : c ≠ W.coroId := Nat.ne_of_lt hlt
  refine ⟨P.begin c W.coroId W.groups (W.coro c).owner time f cont, ?_⟩
  generalize hP' : P.begin c W.coroId W.groups (W.coro c).owner time f cont = P'
  have hrole_d : P'.role W.coroId =
      ⟨.block W.groups, f, (P.role c).start ++ (P.role c).past, [], f, none⟩ :=
    hP' ▸ Plan.begin_block ..
  have hrole_c : P'.role c = { P.role c with scope := some W.groups } :=
    hP' ▸ Plan.begin_parent hcd ..
  have hrole : ∀ x, x ≠ c → x ≠ W.coroId → P'.role x = P.role x := fun x hxc hxd =>
    hP' ▸ Plan.begin_role hxc hxd ..
  have hspan_g : P'.span W.groups = ⟨time, W.coroId, none, cont⟩ := hP' ▸ Plan.begin_span ..
  have hspan : ∀ g, g ≠ W.groups → P'.span g = P.span g := fun g hg => by
    rw [← hP']
    exact Function.update_of_ne hg ..
  have hactive_c : P'.active (W.coro c).owner = W.coroId := by
    rw [← hP']
    exact Function.update_self ..
  have hactive : ∀ o, o ≠ (W.coro c).owner → P'.active o = P.active o := fun o ho => by
    rw [← hP']
    exact Function.update_of_ne ho ..
  have hover_c : W'.isOver c = false := by rw [World.isOver, hb.parent]; rfl
  have hover_d : W'.isOver W.coroId = false := by rw [World.isOver, hb.block]; rfl
  have hsame : ∀ x, x ≠ W.coroId → SameTask W W' P P' x := fun x hxd => by
    by_cases hxc : x = c
    · subst hxc
      exact ⟨hover_c.trans hr.isOver.symm, by rw [hb.parent], by rw [hb.parent], by rw [hrole_c],
        by rw [hrole_c], by rw [hrole_c]⟩
    · exact .of_eq (hb.others x hxc hxd) (hrole x hxc hxd)
  have hother : ∀ g, Open (some c) W P g → Open none W' P' g := fun g ho => by
    have hpc := ho.parent_ne hr.scope
    have hpd : (W.group g).parent ≠ W.coroId := by have := ho.later; omega
    have hg : g ≠ W.groups := Nat.ne_of_lt ho.lt
    refine ho.frame (hb.otherGroups g hg) (by rw [hb.groups]; omega) (by rw [hb.coroId]; omega)
      (hspan g hg) (.of_eq (hb.others _ hpc hpd)) (hrole _ hpc hpd)
      (fun he => hpc (Option.some.inj he).symm) (fun ha => ?_)
      (hsame _ (by have := ho.later; omega)) fun t ht =>
        hsame t (by have := (ho.timer t ht).2; omega)
    rw [hactive _ (act_ne hact ha hpc), ha]
  have hopen : Open none W' P' W.groups := hP' ▸ hb.opens hr hready hlt hw hwc
  refine h.change hb.aborted hq (by rw [hb.coroId]; omega) (fun x hx => ?_) (fun i hi hk => ?_)
    (fun i hi => ?_) (fun i hi => ?_) (fun x hx => ?_) fun x hx => ?_
  · rw [hb.coroId] at hx
    exact hb.others x (by omega) (by omega)
  · have hid : i ≠ W.coroId := by have := h.count; omega
    have hs := hsame i hid
    refine ⟨hs.isOver, hs.owner, hs.kind, hs.body, hs.start, fun hov => ?_⟩
    have hic : i ≠ c := fun he => by
      rw [he, hr.isOver] at hov
      cases hov
    refine ⟨(Stays.of_eq (hb.others i hic hid)).kept, hrole i hic hid, fun ha => ?_⟩
    by_cases ho : i = (W.coro c).owner
    · rw [ho, hact] at ha
      exact absurd (ho.trans ha.symm) hic
    · rw [hactive i ho, ha]
  · by_cases ho : i = (W.coro c).owner
    · rw [ho, hactive_c, hb.coroId, hb.block]
      exact ⟨Nat.lt_succ_self _, rfl⟩
    · obtain ⟨hlt', howner⟩ := h.acts i hi
      rw [hactive i ho, (hsame _ (Nat.ne_of_lt hlt')).owner, hb.coroId]
      exact ⟨by omega, howner⟩
  · rw [hb.log, h.log i hi]
    by_cases ho : i = (W.coro c).owner
    · rw [ho, hact, hactive_c, hrole_d, List.append_nil]
    · have hne : P.active i ≠ c := fun he => ho (by rw [← (h.acts i hi).2, he])
      rw [hactive i ho, hrole _ hne (Nat.ne_of_lt (h.acts i hi).1)]
  · by_cases hxd : x = W.coroId
    · rw [hxd, hrole_d] at hx
      cases hx
    · rwa [(hsame x hxd).kind] at hx
  · by_cases hxd : x = W.coroId
    · subst hxd
      refine .block (by rw [hrole_d]) hopen (by rw [hspan_g]) ⟨?_, ?_⟩
      · rw [hrole_d]
        exact .refl _ _
      · refine .starting ?_ (by rw [hb.block]) (by rw [hb.block]) (by rw [hrole_d]) (by rw [hrole_d]) ?_
          (by rw [hrole_d]) fun g hg => ?_
        · rw [hb.block, Plan.code, hrole_d]
          simp only [hspan_g]
        · rw [hb.block, hactive_c]
        · rw [hrole_d] at hg
          cases hg
          rw [hspan_g]
    · by_cases hxc : x = c
      · subst hxc
        refine User.member ⟨?_, .waiting (by rw [hrole_c]) (by rw [hb.group]) hopen⟩
          (by rw [hrole_c]; exact hr.kind) fun g hg => ?_
        · rw [hrole_c, hb.parent]
          exact hu.came
        · rw [hrole_c] at hg
          obtain ⟨ho, hbx⟩ := hblock g hg
          exact ⟨hother g ho, by rw [hspan g (Nat.ne_of_lt ho.lt), hbx]⟩
      · rw [(hsame x hxd).isOver] at hx
        refine (h.members x hx).stays (Stays.of_eq (hb.others x hxc hxd)) (hrole x hxc hxd)
          (fun ha => by rw [hactive _ (act_ne hact ha hxc), ha])
          (fun he => hxc (Option.some.inj he).symm) (fun g hg => ?_) fun g ho _ =>
            ⟨hother g ho, by rw [hb.otherGroups g (Nat.ne_of_lt ho.lt)]⟩
        exact hspan g (Nat.ne_of_lt ((h.members x hx).openGroup hg).lt)

end Begins

/-! ## 3. A coroutine that is resumed -/

section Resumes

variable {run run' : Option Nat} {W W' : World E R (Option V)} {P P' : Plan E R V} {n : Nat}
  {tasks : Nat → Routine E R V}

/-- The coroutine `c` is the one that runs now. -/
def Coroutine.runs {X : Type} (x : Coroutine E R X) : Coroutine E R X :=
  { x with state := .running, shielded := false, ready := false }

/-- A coroutine is taken out of the queue, and runs. -/
theorem Inv.picked (h : Inv none W P n tasks) {c : Nat} (hover : W.isOver c = false)
    (hl : Local W W' c) (hc : W'.coro c = (W.coro c).runs) (hlog : W'.log = W.log) (hq : W'.Queue) :
    Inv (some c) W' P n tasks := by
  have hover' : W'.isOver c = false := by rw [World.isOver, hc]; rfl
  have hsame : ∀ d, SameTask W W' P P d := fun d => by
    by_cases hd : d = c
    · subst hd
      exact ⟨hover'.trans hover.symm, by rw [hc]; rfl, by rw [hc]; rfl, rfl, rfl, rfl⟩
    · exact .of_eq (hl.others d hd) rfl
  have hgroup : ∀ g, W'.group g = W.group g := fun g => by rw [hl.group]
  have hopen : ∀ g, Open none W P g → Open (some c) W' P g := fun g ho => by
    refine ho.reframe (hgroup g) (Nat.le_of_eq hl.groups.symm) (Nat.le_of_eq hl.coroId.symm) rfl
      (hsame _).owner (fun hx => (hsame _).cancelled.trans hx) rfl ?_ id (hsame _) fun t _ => hsame t
    by_cases hp : (W.group g).parent = c
    · rw [hp]
      exact .awake (by rw [hc]; rfl) rfl (by rw [hc]; rfl) (by rw [hc]; rfl)
    · exact ho.waits.frame (hgroup g) (.of_eq (hl.others _ hp)) rfl rfl (by simp)
  refine h.change hl.aborted hq (Nat.le_of_eq hl.coroId.symm) (fun d hd => ?_) (fun i hi hk => ?_)
    (fun i hi => ?_) (fun i hi => ?_) (fun _ hd => hd) fun d hd => ?_
  · have hlt := h.lt_coroId hover
    rw [hl.coroId] at hd
    exact hl.others d (by omega)
  · have hs := hsame i
    refine ⟨hs.isOver, hs.owner, rfl, rfl, rfl, fun hov =>
      ⟨(Stays.of_eq (hl.others i fun he => ?_)).kept, rfl, id⟩⟩
    rw [he, hover] at hov
    cases hov
  · rw [(hsame _).owner, hl.coroId]
    exact h.acts i hi
  · rw [hlog, h.log i hi]
  · by_cases hdc : d = c
    · subst hdc
      have huser : User none W P d → User (some d) W' P d := fun hu => by
        refine ⟨?_, ?_⟩
        · rw [hc]
          exact hu.came
        · cases hu.place with
          | starting _ _ _ _ _ hact hscope | calling _ _ _ _ hact hscope =>
            exact .running (by rw [hc]; rfl) rfl (by rw [hc]; rfl) (by rw [hc]; rfl)
              (by rw [hc]; exact hact) hscope
          | running _ hrun => cases hrun
          | waiting hscope hp ho => exact .waiting hscope (by rw [hgroup, hp]) (hopen _ ho)
      cases h.members d hover with
      | task hk hu => exact .task hk (huser hu)
      | block hk ho hb hu => exact .block hk (hopen _ ho) hb (huser hu)
      | timer hk ho ht =>
        exact .timer hk (hopen _ ho) ht (.running (by rw [hc]; rfl) rfl (by rw [hc]; rfl))
    · rw [(hsame d).isOver] at hd
      exact (h.members d hd).stays (Stays.of_eq (hl.others d hdc)) rfl id (by simp) (fun _ _ => rfl)
        fun g ho _ => ⟨hopen g ho, by rw [hgroup]⟩

/-- A new coroutine in the group `g` that sleeps for `time`. -/
def World.newTimer (W : World E R (Option V)) (c g : Nat) (time : Int32) : World E R (Option V) :=
  let W' := (W.spawn (worker g (timeoutTask time g) true false) (W.coro c).owner).setGroup g
    { W.group g with children := (W.group g).children ++ [W.coroId] }
  if (W.group g).state = .running then W' else W'.cancel W.coroId

/-- The block of a `with_timeout_opt` makes its timer, and then runs. -/
theorem exec_blockStart {c g : Nat} (hne : (W.group g).children ≠ []) (time : Int32)
    (f : Routine E R V) :
    W.exec c (worker g (groupBody (timeoutBody time f.code) g) false false) =
      (W.newTimer c g time).exec c ((Kind.block g).code c f) := by
  have hcode : ∀ W' : World E R (Option V), W'.exec c (f.code fun a =>
      storeResult g (a.map some) fun a => workerEnd g c false false a Code.ended) =
        W'.exec c ((Kind.block g).code c f) := fun _ => rfl
  by_cases hs : (W.group g).state = .running
  · simp [worker, groupBody, timeoutBody, spawnBg, spawnCoroutine, hne, hs, World.newTimer, hcode]
  · simp [worker, groupBody, timeoutBody, spawnBg, spawnCoroutine, hne, hs, World.newTimer, hcode]

/-- What the making of a timer changes. -/
structure TimerMade (W W' : World E R (Option V)) (c g : Nat) (time : Int32) : Prop where
  timer : W'.coro W.coroId = ⟨.spawned (worker g (timeoutTask time g) true false), true,
    decide ((W.group g).state ≠ .running), true, (W.coro c).owner⟩
  others : ∀ d, d ≠ W.coroId → W'.coro d = W.coro d
  group : W'.group g = { W.group g with children := (W.group g).children ++ [W.coroId] }
  otherGroups : ∀ g', g' ≠ g → W'.group g' = W.group g'
  coroId : W'.coroId = W.coroId + 1
  groups : W'.groups = W.groups
  aborted : W'.aborted = W.aborted
  log : W'.log = W.log

theorem newTimer_made (hq : W.Queue) (hfresh : (W.coro W.coroId).ready = false) (c g : Nat)
    (time : Int32) : TimerMade W (W.newTimer c g time) c g time ∧ (W.newTimer c g time).Queue := by
  have hq' : ((W.spawn (worker g (timeoutTask time g) true false) (W.coro c).owner).setGroup g
      { W.group g with children := (W.group g).children ++ [W.coroId] }).Queue :=
    (hq.spawn _ _ hfresh).same rfl fun _ => rfl
  unfold World.newTimer
  simp only
  split
  · rename_i hs
    refine ⟨⟨?_, fun d hd => ?_, ?_, fun g' hg => ?_, rfl, rfl, rfl, rfl⟩, hq'⟩
    · simp [hs]
    · simp [hd]
    · simp
    · simp [hg]
  · rename_i hs
    have hsame := cancel_sameElse ((W.spawn (worker g (timeoutTask time g) true false)
      (W.coro c).owner).setGroup g { W.group g with children := (W.group g).children ++ [W.coroId] })
      W.coroId
    refine ⟨⟨?_, fun d hd => ?_, ?_, fun g' hg => ?_, hsame.coroId, hsame.groups, hsame.aborted,
      hsame.log⟩, hq'.cancel _⟩
    · simp [hs, Coroutine.stop]
    · simp [hd]
    · rw [hsame.group]
      simp
    · rw [hsame.group]
      simp [hg]

/-- The plan where the group `g` has the timer `t`. -/
def Plan.time (P : Plan E R V) (c t g : Nat) : Plan E R V :=
  { P with
    role := Function.update P.role t { P.role c with kind := .timer g, scope := none }
    span := Function.update P.span g { P.span g with timer := some t } }

theorem Plan.time_timer (c t g : Nat) :
    (P.time c t g).role t = { P.role c with kind := .timer g, scope := none } :=
  Function.update_self ..

theorem Plan.time_role {t x : Nat} (hx : x ≠ t) (c g : Nat) : (P.time c t g).role x = P.role x :=
  Function.update_of_ne hx ..

theorem Plan.time_span (c t g : Nat) :
    (P.time c t g).span g = { P.span g with timer := some t } :=
  Function.update_self ..

/-- In a group that is not empty it does not matter to the parent who else is in it. -/
theorem Waits.refill {g c : Nat} (h : Waits run W P g c) (hne : (W.group g).children ≠ [])
    (hne' : (W'.group g).children ≠ []) (hc : W'.coro c = W.coro c) (hrole : P'.role c = P.role c)
    (hcont : (P'.span g).cont = (P.span g).cont) (hrun : run ≠ some c) : Waits run' W' P' g c := by
  cases h with
  | first hs hsh hr he =>
    refine .first (by rw [hc, hs, hrole, hcont]) (by rw [hc, hsh]) (fun hx => ?_) fun hn =>
      absurd hn hne'
    rw [hc] at hx ⊢
    exact Or.inl ((hr hx).resolve_right hne)
  | second hs hsh hr =>
    refine .second (by rw [hc, hs, hrole, hcont]) (by rw [hc, hsh]) ?_
    rw [hc, hr]
    exact iff_of_false hne hne'
  | awake _ hr => exact absurd hr hrun

/-- The group is still open when it has its timer. -/
theorem TimerMade.opens {g c : Nat} {q : Routine E R V} (hm : TimerMade W W' c g (P.span g).time)
    (h : Inv (some c) W P n tasks) (ho : Open (some c) W P g) (hb : (P.span g).block = c)
    (hr : Runs W P c q) (htimer : (P.span g).timer = none) :
    Open (some c) W' (P.time c W.coroId g) g := by
  have hrole_t := Plan.time_timer (P := P) c W.coroId g
  have hspan_g := Plan.time_span (P := P) c W.coroId g
  have hrole : ∀ x, x ≠ W.coroId → (P.time c W.coroId g).role x = P.role x := fun x hx =>
    Plan.time_role hx ..
  have hover_t : W'.isOver W.coroId = false := by rw [World.isOver, hm.timer]; rfl
  have hsame : ∀ x, x ≠ W.coroId → SameTask W W' P (P.time c W.coroId g) x := fun x hx =>
    .of_eq (hm.others x hx) (hrole x hx)
  generalize P.time c W.coroId g = P' at *
  have hpc := ho.parent_ne hr.scope
  have hpd : (W.group g).parent ≠ W.coroId := by have := ho.later; omega
  have hbd : (P.span g).block ≠ W.coroId := by have := ho.later; omega
  have hchild : (W.group g).children ≠ [] := fun hn => by
    have hmem := (ho.mem c).mpr ⟨Or.inl hb.symm, hr.isOver⟩
    rw [hn] at hmem
    cases hmem
  refine {
    lt := by rw [hm.groups]; exact ho.lt
    scope := by rw [hm.group, hrole _ hpd]; exact ho.scope
    waits := ?_
    nodup := ?_
    mem := fun x => ?_
    waiting := by rw [hm.group, hspan_g, (hsame _ hbd).isOver]; exact ho.waiting
    block := by rw [hspan_g, (hsame _ hbd).kind]; exact ho.block
    timer := fun t ht => ?_
    later := by
      rw [hm.group, hspan_g, hm.coroId]
      exact ⟨ho.later.1, Nat.lt_succ_of_lt ho.later.2⟩
    owner := by rw [hm.group, hspan_g, (hsame _ hbd).owner, hm.others _ hpd]; exact ho.owner
    parent := by rw [hm.group, hrole _ hpd]; exact ho.parent
    status := ?_ }
  · rw [hm.group]
    exact ho.waits.refill hchild (by rw [hm.group]; simp) (hm.others _ hpd) (hrole _ hpd)
      (by rw [hspan_g]) fun he => hpc (Option.some.inj he).symm
  · rw [hm.group]
    refine List.nodup_append.mpr ⟨ho.nodup, List.pairwise_singleton .., fun x hx y hy => ?_⟩
    rw [List.mem_singleton.mp hy]
    exact Nat.ne_of_lt (h.lt_coroId ((ho.mem x).mp hx).2)
  · rw [hm.group, hspan_g, List.mem_append, List.mem_singleton, ho.mem x]
    by_cases hx : x = W.coroId
    · subst hx
      simp [hover_t]
    · simp [(hsame x hx).isOver, hx, Ne.symm hx, htimer]
  · rw [hspan_g] at ht
    cases ht
    rw [hrole_t, hm.coroId]
    exact ⟨rfl, Nat.lt_succ_self _⟩
  · rw [hm.group, hspan_g]
    cases ho.status with
    | settled x hd => rw [hb, hr.isOver] at hd; cases hd
    | unsettled w hd hs hres hcd hcc' ht hrest hstart =>
      refine .unsettled w ((hsame _ hbd).isOver.trans hd) (by rw [hm.group]; exact hs)
        (by rw [hm.group]; exact hres) ((hsame _ hbd).cancelled.trans hcd)
        (fun hw => by rw [hm.others _ hpd]; exact hcc' hw) (fun t ht' _ => ?_) ?_ ?_
      · rw [hspan_g] at ht'
        cases ht'
        rw [hm.timer, hs]
        cases w <;> simp [End.state]
      · rw [hrole _ hpd, hrole _ hbd, hspan_g]
        exact hrest
      · rw [hrole _ hpd, hrole _ hbd]
        exact hstart

theorem Inv.timerMade {g c : Nat} (h : Inv (some c) W P n tasks) {q : Routine E R V}
    (hr : Runs W P c q) (hk : (P.role c).kind = .block g) (htimer : (P.span g).timer = none)
    (hm : TimerMade W W' c g (P.span g).time) (hq : W'.Queue) :
    Inv (some c) W' (P.time c W.coroId g) n tasks ∧ Runs W' (P.time c W.coroId g) c q := by
  obtain ⟨hu, hblock, -, hact, hsh, hready⟩ := h.runs hr
  obtain ⟨ho, hb⟩ := hblock g hk
  have hlt := h.lt_coroId hr.isOver
  have hct : c ≠ W.coroId := Nat.ne_of_lt hlt
  generalize hP' : P.time c W.coroId g = P'
  have hrole_t : P'.role W.coroId = { P.role c with kind := .timer g, scope := none } :=
    hP' ▸ Plan.time_timer ..
  have hrole : ∀ x, x ≠ W.coroId → P'.role x = P.role x := fun x hx => hP' ▸ Plan.time_role hx ..
  have hspan_g : P'.span g = { P.span g with timer := some W.coroId } := hP' ▸ Plan.time_span ..
  have hspan : ∀ g', g' ≠ g → P'.span g' = P.span g' := fun g' hg => by
    rw [← hP']
    exact Function.update_of_ne hg ..
  have hactive : P'.active = P.active := by rw [← hP']; rfl
  have hcc : W'.coro c = W.coro c := hm.others c hct
  have hsame : ∀ x, x ≠ W.coroId → SameTask W W' P P' x := fun x hx =>
    .of_eq (hm.others x hx) (hrole x hx)
  have hother : ∀ g', g' ≠ g → Open (some c) W P g' → Open (some c) W' P' g' := fun g' hg ho' => by
    have hpc := ho'.parent_ne hr.scope
    have hpd : (W.group g').parent ≠ W.coroId := by have := ho'.later; omega
    exact ho'.frame (hm.otherGroups g' hg) (Nat.le_of_eq hm.groups.symm) (by rw [hm.coroId]; omega)
      (hspan g' hg) (.of_eq (hm.others _ hpd)) (hrole _ hpd) (fun he => hpc (Option.some.inj he).symm)
      (by rw [hactive]; exact id) (hsame _ (by have := ho'.later; omega)) fun t ht =>
        hsame t (by have := (ho'.timer t ht).2; omega)
  have hopen : Open (some c) W' P' g := hP' ▸ hm.opens h ho hb hr htimer
  have hall : ∀ g', Open (some c) W P g' → Open (some c) W' P' g' := fun g' ho' => by
    by_cases hg : g' = g
    · rwa [hg]
    · exact hother g' hg ho'
  have hparent : ∀ g', (W'.group g').parent = (W.group g').parent := fun g' => by
    by_cases hg : g' = g
    · rw [hg, hm.group]
    · rw [hm.otherGroups g' hg]
  refine ⟨?_, by rw [hcc]; exact hr.state, by rw [hrole c hct]; exact hr.rest,
    by rw [hrole c hct]; exact hr.scope, by rw [hrole c hct]; exact hr.kind⟩
  refine h.change hm.aborted hq (by rw [hm.coroId]; omega) (fun x hx => ?_) (fun i hi hk => ?_)
    (fun i hi => ?_) (fun i hi => ?_) (fun x hx => ?_) fun x hx => ?_
  · rw [hm.coroId] at hx
    exact hm.others x (by omega)
  · have hid : i ≠ W.coroId := by have := h.count; omega
    have hs := hsame i hid
    exact ⟨hs.isOver, hs.owner, hs.kind, hs.body, hs.start, fun _ =>
      ⟨(Stays.of_eq (hm.others i hid)).kept, hrole i hid, by rw [hactive]; exact id⟩⟩
  · have ha := h.acts i hi
    rw [hactive, hm.coroId, hm.others _ (Nat.ne_of_lt ha.1)]
    exact ⟨Nat.lt_succ_of_lt ha.1, ha.2⟩
  · rw [hm.log, h.log i hi, hactive, hrole _ (Nat.ne_of_lt (h.acts i hi).1)]
  · by_cases hxt : x = W.coroId
    · rw [hxt, hrole_t] at hx
      cases hx
    · rwa [(hsame x hxt).kind] at hx
  · by_cases hxt : x = W.coroId
    · subst hxt
      exact .timer (by rw [hrole_t]) hopen (by rw [hspan_g])
        (.starting (by rw [hm.timer]) (by rw [hm.timer]) (by rw [hm.timer]))
    · by_cases hxc : x = c
      · subst hxc
        refine .block (by rw [hrole x hxt, hk]) hopen (by rw [hspan_g, hb]) ⟨?_, ?_⟩
        · rw [hrole x hxt, hcc]
          exact hu.came
        · exact .running (by rw [hcc, hr.state]) rfl (by rw [hcc, hsh]) (by rw [hcc, hready])
            (by rw [hactive, hcc, hact]) (by rw [hrole x hxt, hr.scope])
      · rw [(hsame x hxt).isOver] at hx
        refine (h.members x hx).stays (Stays.of_eq (hm.others x hxt)) (hrole x hxt)
          (by rw [hactive]; exact id) (fun he => hxc (Option.some.inj he).symm) (fun g' hg' => ?_)
          fun g' ho' _ => ⟨hall g' ho', hparent g'⟩
        refine hspan g' fun he => ?_
        rcases (h.members x hx).inSpan hg' with hx' | hx'
        · exact hxc (by rw [← hx', he, hb])
        · rw [he, htimer] at hx'
          cases hx'

end Resumes

/-! ## 4. A timer -/

section Timer

variable {run run' : Option Nat} {W W' : World E R (Option V)} {P P' : Plan E R V} {n : Nat}
  {tasks : Nat → Routine E R V}

/-- What the end of the timer `c` changes; the time is over (`fired`), or the timer is cancelled. -/
structure TimerOver (W W' : World E R (Option V)) (P : Plan E R V) (g c : Nat) (fired : Bool) :
    Prop where
  isOver : W'.isOver c = true
  owner : (W'.coro c).owner = (W.coro c).owner
  parent : W'.coro (W.group g).parent = { W.coro (W.group g).parent with
    ready := (W.coro (W.group g).parent).ready || decide ((W'.group g).children = []) }
  block : W.isOver (P.span g).block = false →
    W'.coro (P.span g).block =
      if fired then (W.coro (P.span g).block).stop else W.coro (P.span g).block
  others : ∀ d, d ≠ c → d ≠ (W.group g).parent →
    (d = (P.span g).block → W.isOver d = true) → W'.coro d = W.coro d
  group : W'.group g = { (W.group g).without c with
    state := if fired then .done else (W.group g).state
    result := if fired then some none else (W.group g).result }
  otherGroups : ∀ g', g' ≠ g → W'.group g' = W.group g'
  outside : W.SameOutside W'

/-- The parent, the block and the timer of a group are different. -/
theorem Open.apart {g t : Nat} (ho : Open run W P g) (ht : (P.span g).timer = some t) :
    (W.group g).parent ≠ t ∧ (P.span g).block ≠ t ∧ (P.span g).block ≠ (W.group g).parent := by
  refine ⟨fun he => ho.parent g (he ▸ (ho.timer t ht).1), fun he => ?_, Nat.ne_of_gt ho.later.1⟩
  have hk := ho.block
  rw [he, (ho.timer t ht).1] at hk
  cases hk

theorem Open.parent_not_mem {g : Nat} (ho : Open run W P g) :
    (W.group g).parent ∉ (W.group g).children := fun hm => by
  rcases ((ho.mem _).mp hm).1 with he | he
  · exact Nat.ne_of_lt ho.later.1 he
  · exact ho.parent g (ho.timer _ he).1

theorem timerCancelled {g c : Nat} (ho : Open run W P g) (ht : (P.span g).timer = some c)
    (hq : W.Queue) (hc : (W.coro c).beingCancelled = true) :
    TimerOver W (W.exec c (timerWakes g c (.error .cancelled))) P g c false ∧
      (W.exec c (timerWakes g c (.error .cancelled))).Queue := by
  have hexec : W.exec c (timerWakes g c (.error .cancelled)) =
      (W.regroup g [] ((W.group g).without c)).setState c (ending (.error .cancelled)) := by
    simp [timerWakes, timeOver, workerEnd, exec_workerCatch_cancelled, hc, exec_workerDefer_timer]
  obtain ⟨hpc, hbc, hbp⟩ := ho.apart ht
  have hout := regroup_outside g W [] ((W.group g).without c)
  rw [hexec]
  refine ⟨{
    isOver := ?_
    owner := ?_
    parent := ?_
    block := fun _ => ?_
    others := fun d hdc hdp _ => ?_
    group := ?_
    otherGroups := fun g' hg => ?_
    outside := ⟨hout.coroId, hout.groups, hout.aborted, hout.log⟩ }, (hq.regroup g [] _).setCoro c rfl⟩
  · rw [World.isOver, setState_coro, if_pos rfl, over_ending]
  · simp
  · simp [hpc, TaskGroup.without]
  · simp [hbc, hbp, TaskGroup.without]
  · simp [hdc, hdp, TaskGroup.without]
  · simp
    rfl
  · simp [hg]

theorem timerFires {g c : Nat} (ho : Open run W P g) (ht : (P.span g).timer = some c)
    (hq : W.Queue) (hover : W.isOver c = false) (hsh : (W.coro c).shielded = false)
    (hs : (W.group g).state = .running) (hr : (W.group g).result = none) :
    TimerOver W (W.exec c (timerWakes g c (.ok ()))) P g c true ∧
      (W.exec c (timerWakes g c (.ok ()))).Queue := by
  have hmem : c ∈ (W.group g).children := (ho.mem c).mpr ⟨Or.inr ht, hover⟩
  have hexec : W.exec c (timerWakes g c (.ok ())) =
      (((W.cancelAll (W.group g).children).setGroup g
        { W.group g with state := .done, result := some none }).regroup g []
          ({ W.group g with state := .done, result := some none }.without c)).setState c
            (ending (.error .cancelled)) := by
    simp [timerWakes, timeOver, workerEnd, exec_workerCatch_cancelled, exec_workerDefer_timer,
      returnImmediately, hs, hr, hmem, hsh, Coroutine.beingCancelled, Coroutine.stop,
      setGroup_cancelAll]
  obtain ⟨hpc, hbc, hbp⟩ := ho.apart ht
  have hpn := ho.parent_not_mem
  have hout := regroup_outside g ((W.cancelAll (W.group g).children).setGroup g
    { W.group g with state := .done, result := some none }) []
    ({ W.group g with state := .done, result := some none }.without c)
  have hsame := cancelAll_sameElse W (W.group g).children
  have hqg : ((W.cancelAll (W.group g).children).setGroup g
      { W.group g with state := .done, result := some none }).Queue :=
    (hq.cancelAll _).same rfl fun _ => rfl
  rw [hexec]
  refine ⟨{
    isOver := ?_
    owner := ?_
    parent := ?_
    block := fun hb => ?_
    others := fun d hdc hdp hdb => ?_
    group := ?_
    otherGroups := fun g' hg => ?_
    outside := ⟨hout.coroId.trans hsame.coroId, hout.groups.trans hsame.groups,
      hout.aborted.trans hsame.aborted, hout.log.trans hsame.log⟩ }, (hqg.regroup g [] _).setCoro c rfl⟩
  · rw [World.isOver, setState_coro, if_pos rfl, over_ending]
  · simp [hmem, Coroutine.stop]
  · simp [hpc, hpn, TaskGroup.without]
  · have hbm : (P.span g).block ∈ (W.group g).children := (ho.mem _).mpr ⟨Or.inl rfl, hb⟩
    simp [hbc, hbp, hbm, TaskGroup.without]
  · have hdn : d ∉ (W.group g).children := fun hm => by
      obtain ⟨hd, hdo⟩ := (ho.mem d).mp hm
      rcases hd with he | he
      · rw [hdb he] at hdo
        cases hdo
      · rw [ht] at he
        exact hdc (Option.some.inj he).symm
    simp [hdc, hdp, hdn, TaskGroup.without]
  · simp
    rfl
  · simp [hg]

/-- The group whose timer ends. -/
theorem Open.timerOver {g c : Nat} {fired : Bool} (ho : Open (some c) W P g)
    (ht : (P.span g).timer = some c) (hover : W.isOver c = false) (hw : TimerOver W W' P g c fired)
    (hf : fired = true → (W.group g).state = .running) : Open none W' P g := by
  obtain ⟨hpc, hbc, hbp⟩ := ho.apart ht
  have hmem : c ∈ (W.group g).children := (ho.mem c).mpr ⟨Or.inr ht, hover⟩
  have hparent : (W'.group g).parent = (W.group g).parent := by rw [hw.group]; rfl
  have hchildren : (W'.group g).children = (W.group g).children.erase c := by rw [hw.group]; rfl
  have hstay : Stays W W' (P.span g).block := by
    cases hb : W.isOver (P.span g).block with
    | false =>
      have hblock := hw.block hb
      cases fired with
      | true => exact Or.inr hblock
      | false => exact Or.inl hblock
    | true => exact .of_eq (hw.others _ hbc hbp fun _ => hb)
  refine {
    lt := by rw [hw.outside.groups]; exact ho.lt
    scope := by rw [hparent, ho.scope]
    waits := ?_
    nodup := hchildren ▸ ho.nodup.erase c
    mem := fun d => ?_
    waiting := by rw [hw.group, hstay.isOver]; exact ho.waiting
    block := ho.block
    timer := fun t ht' => by rw [hw.outside.coroId]; exact ho.timer t ht'
    later := by rw [hparent, hw.outside.coroId]; exact ho.later
    owner := by rw [hparent, hstay.owner, hw.parent]; exact ho.owner
    parent := by rw [hparent]; exact ho.parent
    status := ?_ }
  · rw [hparent]
    exact ho.waits.left hmem hw.parent rfl rfl fun he => hpc (Option.some.inj he).symm
  · rw [hchildren, ho.nodup.mem_erase_iff, ho.mem d]
    by_cases hdc : d = c
    · simp [hdc, hw.isOver]
    · have hd : (d = (P.span g).block ∨ (P.span g).timer = some d) → W'.isOver d = W.isOver d := by
        rintro (rfl | hd)
        · exact hstay.isOver
        · rw [ht] at hd
          exact absurd (Option.some.inj hd).symm hdc
      constructor
      · rintro ⟨-, hd', hov⟩
        exact ⟨hd', (hd hd').trans hov⟩
      · rintro ⟨hd', hov⟩
        exact ⟨hdc, hd', (hd hd').symm.trans hov⟩
  · rw [hparent]
    have hnone : ∀ t, (P.span g).timer = some t → W'.isOver t = false → False := fun t ht' hto => by
      rw [ht] at ht'
      cases ht'
      rw [hw.isOver] at hto
      cases hto
    cases ho.status with
    | unsettled w hd hs hr hcd hc _ hrest hstart =>
      cases fired with
      | false =>
        refine .unsettled w (hstay.isOver.trans hd) (by rw [hw.group]; exact hs)
          (by rw [hw.group]; exact hr) ?_ (fun he => by rw [hw.parent]; exact hc he)
          (fun t h₁ h₂ => (hnone t h₁ h₂).elim) hrest hstart
        rw [hw.block hd]
        exact hcd
      | true =>
        refine .unsettled .expired (hstay.isOver.trans hd) (by rw [hw.group]; rfl) (by rw [hw.group]; rfl)
          ?_ (by simp) (fun t h₁ h₂ => (hnone t h₁ h₂).elim) hrest hstart
        rw [hw.block hd]
        rfl
    | settled x hd hx _ hrest hact =>
      refine .settled x (hstay.isOver.trans hd) ?_ (fun t h₁ h₂ => (hnone t h₁ h₂).elim) hrest ?_
      · have hfired : fired = false := Bool.eq_false_iff.mpr fun hf' => by
          rcases hx with ⟨v, hs, -⟩ | ⟨err, hs, -⟩ <;> simp [hf hf'] at hs
        subst hfired
        rw [hw.group]
        exact hx
      · rw [hw.parent]
        exact hact

theorem Waits.notOver {g c : Nat} (h : Waits run W P g c) : W.isOver c = false := by
  cases h with
  | first hs | second hs | awake hs => rw [World.isOver, hs]; rfl

/-- A coroutine waits in one group only. -/
theorem Open.parent_inj {g g' : Nat} (ho : Open run W P g) (ho' : Open run W P g')
    (he : (W.group g').parent = (W.group g).parent) : g' = g := by
  have hs := ho'.scope
  rw [he, ho.scope] at hs
  exact (Option.some.inj hs).symm

theorem Inv.timerEnds {g c : Nat} (h : Inv (some c) W P n tasks) (ho : Open (some c) W P g)
    (ht : (P.span g).timer = some c) (hover : W.isOver c = false) {fired : Bool}
    (hw : TimerOver W W' P g c fired) (hf : fired = true → (W.group g).state = .running)
    (hq : W'.Queue) : Inv none W' P n tasks := by
  have hopen := ho.timerOver ht hover hw hf
  obtain ⟨hpc, hbc, hbp⟩ := ho.apart ht
  have hkc := (ho.timer c ht).1
  have hnb : ∀ d, d ≠ (P.span g).block → (d = (P.span g).block → W.isOver d = true) :=
    fun d hd he => absurd he hd
  have hstays : ∀ d, d ≠ c → d ≠ (W.group g).parent → Stays W W' d := fun d hdc hdp => by
    by_cases hdb : d = (P.span g).block ∧ W.isOver d = false
    · obtain ⟨rfl, hov⟩ := hdb
      have hblock := hw.block hov
      cases fired with
      | true => exact Or.inr hblock
      | false => exact Or.inl hblock
    · exact .of_eq (hw.others d hdc hdp fun he => by simpa [he] using hdb)
  have hkept : ∀ d, d ≠ c → Kept W W' d := fun d hdc => by
    by_cases hdp : d = (W.group g).parent
    · subst hdp
      constructor <;> rw [hw.parent]
      exact id
    · exact (hstays d hdc hdp).kept
  have hready : ∀ d, d ≠ c → (W.coro d).ready = true → (W'.coro d).ready = true := fun d hdc hd => by
    by_cases hdp : d = (W.group g).parent
    · subst hdp
      rw [hw.parent]
      simp [hd]
    · exact (hstays d hdc hdp).ready hd
  have hsame : ∀ d, d ≠ c → d ≠ (P.span g).block → SameTask W W' P P d := fun d hdc hdb => by
    by_cases hdp : d = (W.group g).parent
    · subst hdp
      exact ⟨by rw [World.isOver, hw.parent]; rfl, by rw [hw.parent], by rw [hw.parent], rfl, rfl, rfl⟩
    · exact .of_eq (hw.others d hdc hdp (hnb d hdb)) rfl
  have hother : ∀ g', g' ≠ g → Open (some c) W P g' → Open none W' P g' := fun g' hg ho' => by
    have hp'c : (W.group g').parent ≠ c := fun he => ho'.parent g (he ▸ hkc)
    have hp'p : (W.group g').parent ≠ (W.group g).parent := fun he => hg (ho.parent_inj ho' he)
    refine ho'.frame (hw.otherGroups g' hg) (Nat.le_of_eq hw.outside.groups.symm)
      (Nat.le_of_eq hw.outside.coroId.symm) rfl (hstays _ hp'c hp'p) rfl
      (fun he => hp'c (Option.some.inj he).symm) id (hsame _ (fun he => ?_) fun he => ?_) fun t ht' =>
        hsame t (fun he => ?_) fun he => ?_
    · have hk' := ho'.block
      rw [he, hkc] at hk'
      cases hk'
    · have hk' := ho'.block
      rw [he, ho.block] at hk'
      exact hg (Kind.block.inj hk').symm
    · have hk' := (ho'.timer t ht').1
      rw [he, hkc] at hk'
      exact hg (Kind.timer.inj hk').symm
    · have hk' := (ho'.timer t ht').1
      rw [he, ho.block] at hk'
      cases hk'
  have hparent : ∀ g', (W'.group g').parent = (W.group g').parent := fun g' => by
    by_cases hg : g' = g
    · rw [hg, hw.group]
      rfl
    · rw [hw.otherGroups g' hg]
  have hall : ∀ g', Open (some c) W P g' → Open none W' P g' := fun g' ho' => by
    by_cases hg : g' = g
    · rwa [hg]
    · exact hother g' hg ho'
  refine h.change hw.outside.aborted hq (Nat.le_of_eq hw.outside.coroId.symm) (fun d hd => ?_)
    (fun i hi hk => ?_) (fun i hi => ?_) (fun i hi => ?_) (fun _ hd => hd) fun d hd => ?_
  · rw [hw.outside.coroId] at hd
    have hlt := h.lt_coroId hover
    have hlater := ho.later
    exact hw.others d (by omega) (by omega) (hnb d (by omega))
  · have hic : i ≠ c := fun he => by rw [he, hkc] at hk; cases hk
    have hib : i ≠ (P.span g).block := fun he => by rw [he, ho.block] at hk; cases hk
    have hs := hsame i hic hib
    refine ⟨hs.isOver, hs.owner, rfl, rfl, rfl, fun hov => ⟨(hstays i hic fun he => ?_).kept, rfl, id⟩⟩
    rw [he, ho.waits.notOver] at hov
    cases hov
  · rw [hw.outside.coroId]
    refine ⟨(h.acts i hi).1, ?_⟩
    by_cases hac : P.active i = c
    · rw [hac, hw.owner, ← hac]
      exact (h.acts i hi).2
    · rw [(hkept _ hac).owner]
      exact (h.acts i hi).2
  · rw [hw.outside.log, h.log i hi]
  · have hdc : d ≠ c := fun he => by
      rw [he, hw.isOver] at hd
      cases hd
    rw [World.isOver, (hkept d hdc).state] at hd
    exact (h.members d hd).frame (hkept d hdc) (hready d hdc) rfl id
      (fun he => hdc (Option.some.inj he).symm) (fun _ _ => rfl) fun g' ho' _ =>
        ⟨hall g' ho', hparent g'⟩

theorem Inv.timerSleeps {g c : Nat} (h : Inv (some c) W P n tasks) (ho : Open (some c) W P g)
    (ht : (P.span g).timer = some c) (hs : (W.coro c).state = .running)
    (hsh : (W.coro c).shielded = false) :
    Inv none (W.setState c (.sleeping (timerWakes g c))) P n tasks := by
  have hkc := (ho.timer c ht).1
  have hover : W.isOver c = false := by rw [World.isOver, hs]; rfl
  have hover' : (W.setState c (.sleeping (timerWakes g c))).isOver c = false := by
    rw [World.isOver, setState_coro, if_pos rfl]
    rfl
  refine h.act hover (fun g' ho' he => ho'.parent g (he ▸ hkc))
    ⟨fun d hd => by rw [setState_coro, if_neg hd], rfl, rfl, rfl, rfl⟩ (h.queue.setCoro c rfl)
    ⟨hover'.trans hover.symm, by simp, by simp, rfl, rfl, rfl⟩ (fun _ _ => rfl) rfl rfl
    (fun d hd he => hd (Option.some.inj he).symm) h.log fun hopen => ?_
  exact .timer hkc (hopen g ho) ht (.sleeping (by simp) (by simpa using hsh))

end Timer

/-! ## 5. The parent of a group -/

section Parent

variable {run run' : Option Nat} {W W' : World E R (Option V)} {P P' : Plan E R V} {n : Nat}
  {tasks : Nat → Routine E R V}

/-- In a group that is empty the block is over. -/
theorem Open.settled_of_empty {g : Nat} (ho : Open run W P g) (hn : (W.group g).children = []) :
    ∃ x, (W.group g).Settled x ∧
      (P.role (W.group g).parent).rest = (P.span g).cont x ∧
      P.active (W.coro (W.group g).parent).owner = (W.group g).parent := by
  cases ho.status with
  | unsettled w hd =>
    have hmem := (ho.mem _).mpr ⟨Or.inl rfl, hd⟩
    rw [hn] at hmem
    cases hmem
  | settled x _ hx _ hrest hact => exact ⟨x, hx, hrest, hact⟩

theorem TaskGroup.Settled.not_running {tg : TaskGroup (Option V)} {x : Except Raise (Option V)}
    (h : tg.Settled x) : tg.state ≠ .running := by
  rcases h with ⟨v, hs, -⟩ | ⟨err, hs, -⟩ <;> simp [hs]

theorem exec_leaveGroup {c g : Nat} {x : Except Raise (Option V)} (hn : (W.group g).children = [])
    (hx : (W.group g).Settled x) (k : Except Raise (Option V) → Code E R (Option V)) :
    W.exec c (leaveGroup g k) = W.exec c (k x) := by
  rcases hx with ⟨v, hs, hr, rfl⟩ | ⟨err, hs, rfl⟩
  · simp [leaveGroup, hn, hs, hr]
  · simp [leaveGroup, hn, hs]

/-- However the parent is resumed, it leaves a group that is empty. -/
theorem exec_groupResume_empty {c g : Nat} {x : Except Raise (Option V)}
    (hn : (W.group g).children = []) (hx : (W.group g).Settled x) (r : Except Raise Unit)
    (k : Except Raise (Option V) → Code E R (Option V)) :
    W.exec c (groupResume g r k) = W.exec c (k x) := by
  cases r with
  | ok u => exact exec_leaveGroup hn hx k
  | error err =>
    have hleave := exec_leaveGroup (c := c) hn hx k
    simpa [groupResume, groupCatch, groupEnd, hn, hx.not_running] using hleave

/-- The plan where `c` waits no longer. -/
def Plan.leave (P : Plan E R V) (c : Nat) : Plan E R V :=
  { P with role := Function.update P.role c { P.role c with scope := none } }

theorem Inv.leaves {c g : Nat} (h : Inv (some c) W P n tasks) (hu : User (some c) W P c)
    (hb : ∀ g, (P.role c).kind = .block g → Open (some c) W P g ∧ (P.span g).block = c)
    (ho : Open (some c) W P g) (hp : (W.group g).parent = c) (hs : (W.coro c).state = .running)
    (hsh : (W.coro c).shielded = false) (hready : (W.coro c).ready = false)
    (hn : (W.group g).children = []) (hact : P.active (W.coro c).owner = c) :
    Inv (some c) W (P.leave c) n tasks ∧ Runs W (P.leave c) c (P.role c).rest := by
  have hrole_c : (P.leave c).role c = { P.role c with scope := none } := Function.update_self ..
  have hrole : ∀ d, d ≠ c → (P.leave c).role d = P.role d := fun d hd => Function.update_of_ne hd ..
  have hsame : ∀ d, SameTask W W P (P.leave c) d := fun d => by
    by_cases hd : d = c
    · subst hd
      exact ⟨rfl, rfl, rfl, by rw [hrole_c], by rw [hrole_c], by rw [hrole_c]⟩
    · exact .of_eq rfl (hrole d hd)
  have hkind : ∀ g, (P.role c).kind ≠ .timer g := hp ▸ ho.parent
  have hother : ∀ g', g' ≠ g → Open (some c) W P g' → Open (some c) W (P.leave c) g' :=
    fun g' hg ho' => by
      have hpc : (W.group g').parent ≠ c := fun he => hg (ho.parent_inj ho' (he.trans hp.symm))
      exact ho'.frame rfl (Nat.le_refl _) (Nat.le_refl _) rfl (.of_eq rfl) (hrole _ hpc)
        (fun he => hpc (Option.some.inj he).symm) id (hsame _) fun t _ => hsame t
  have hover : W.isOver c = false := by rw [World.isOver, hs]; rfl
  refine ⟨?_, hs, by rw [hrole_c], by rw [hrole_c], by rw [hrole_c]; exact hkind⟩
  refine h.change rfl h.queue (Nat.le_refl _) (fun _ _ => rfl) (fun i hi hk => ?_) h.acts
    (fun i hi => ?_) (fun d hd => by rwa [(hsame d).kind] at hd) fun d hd => ?_
  · have hsi := hsame i
    refine ⟨rfl, rfl, hsi.kind, hsi.body, hsi.start, fun hov =>
      ⟨(Stays.of_eq rfl).kept, hrole i fun he => ?_, id⟩⟩
    rw [he, hover] at hov
    cases hov
  · rw [h.log i hi]
    show _ = ((P.leave c).role (P.active i)).start ++ ((P.leave c).role (P.active i)).past
    by_cases hac : P.active i = c
    · rw [hac, hrole_c]
    · rw [hrole _ hac]
  · by_cases hdc : d = c
    · subst hdc
      refine User.member ⟨?_, .running hs rfl hsh hready hact (by rw [hrole_c])⟩
        (by rw [hrole_c]; exact hkind) fun g' hg' => ?_
      · rw [hrole_c]
        exact hu.came
      · rw [hrole_c] at hg'
        obtain ⟨ho', hb'⟩ := hb g' hg'
        refine ⟨hother g' (fun he => ?_) ho', hb'⟩
        have hlater := ho.later.1
        rw [hp, ← he, hb'] at hlater
        exact Nat.lt_irrefl _ hlater
    · refine (h.members d hd).stays (Stays.of_eq rfl) (hrole d hdc) id
        (fun he => hdc (Option.some.inj he).symm) (fun _ _ => rfl) fun g' ho' hatt =>
          ⟨hother g' (fun he => ?_) ho', rfl⟩
      subst he
      have hnot : ¬ (d = (P.span g').block ∨ (P.span g').timer = some d) := fun hd' => by
        have hmem := (ho.mem d).mpr ⟨hd', hd⟩
        rw [hn] at hmem
        cases hmem
      rcases hatt with hb' | ht' | hp'
      · exact hnot (Or.inl hb'.symm)
      · exact hnot (Or.inr ht')
      · exact hdc (hp'.symm.trans hp)

/-- What happens where the parent `c` of the group `g` is cancelled. -/
structure Catches (W W' : World E R (Option V)) (c g : Nat) (s : CoroState E R (Option V)) : Prop where
  parent : W'.coro c = { W.coro c with state := s, shielded := true }
  others : ∀ d, d ≠ c →
    W'.coro d = if d ∈ (W.group g).children then (W.coro d).stop else W.coro d
  group : W'.group g = { W.group g with
    state := if (W.group g).state = .running then .fail .cancelled else (W.group g).state }
  otherGroups : ∀ g', g' ≠ g → W'.group g' = W.group g'
  outside : W.SameOutside W'

theorem groupCatches {c g : Nat} (hq : W.Queue) (hsh : (W.coro c).shielded = false)
    (hne : (W.group g).children ≠ []) (hc : c ∉ (W.group g).children)
    (k : Except Raise (Option V) → Code E R (Option V)) :
    Catches W (W.exec c (groupResume g (.error .cancelled) k)) c g
        (.suspended fun r => setShielded false fun _ => groupEnd g r k) ∧
      (W.exec c (groupResume g (.error .cancelled) k)).Queue := by
  rw [exec_groupCatch hsh hne hc]
  have hsame := cancelAll_sameElse W (W.group g).children
  refine ⟨{
    parent := by simp
    others := fun d hd => by simp [hd]
    group := by simp
    otherGroups := fun g' hg => by simp [hg]
    outside := ⟨hsame.coroId, hsame.groups, hsame.aborted, hsame.log⟩ }, ?_⟩
  refine World.Queue.setCoro ?_ c ?_
  · exact (hq.cancelAll _).same rfl fun _ => rfl
  · simp [hc]

section Catches

variable {c g : Nat} {k : Except Raise Unit → Code E R (Option V)}

theorem Catches.stays (hc : Catches W W' c g (.suspended k)) {d : Nat} (hd : d ≠ c) :
    Stays W W' d := by
  rw [Stays, hc.others d hd]
  split
  · exact Or.inr rfl
  · exact Or.inl rfl

theorem Catches.same_over (hc : Catches W W' c g (.suspended k))
    (hs : (W.coro c).state = .running) (d : Nat) : W'.isOver d = W.isOver d := by
  by_cases hd : d = c
  · rw [hd, World.isOver, World.isOver, hc.parent, hs]
    rfl
  · exact (hc.stays hd).isOver

theorem Catches.same_owner (hc : Catches W W' c g (.suspended k)) (d : Nat) :
    (W'.coro d).owner = (W.coro d).owner := by
  by_cases hd : d = c
  · rw [hd, hc.parent]
  · exact (hc.stays hd).owner

theorem Catches.same_parent (hc : Catches W W' c g (.suspended k)) (g' : Nat) :
    (W'.group g').parent = (W.group g').parent := by
  by_cases hg : g' = g
  · rw [hg, hc.group]
  · rw [hc.otherGroups g' hg]

end Catches

/-- The group that its parent gives up is still open, and what is left of it is told to stop. -/
theorem Catches.opens {c g : Nat}
    (hc : Catches W W' c g (.suspended fun r => setShielded false fun _ =>
      groupEnd g r fun x => (P.role c).kind.code c ((P.span g).cont x)))
    (ho : Open (some c) W P g) (hp : (W.group g).parent = c) (hs : (W.coro c).state = .running)
    (hready : (W.coro c).ready = false) (hcancel : (W.coro c).cancelled = true)
    (hne : (W.group g).children ≠ []) : Open none W' P g := by
  have hoverAll := hc.same_over hs
  have howner := hc.same_owner
  have hparent := hc.same_parent
  have hchildren : (W'.group g).children = (W.group g).children := by rw [hc.group]
  have hstop : ∀ d, d = (P.span g).block ∨ (P.span g).timer = some d → W.isOver d = false →
      (W'.coro d).cancelled = true := fun d hd hov => by
    have hmem := (ho.mem d).mpr ⟨hd, hov⟩
    have hdc : d ≠ c := fun he => ho.parent_not_mem (by rw [hp, ← he]; exact hmem)
    rw [hc.others d hdc, if_pos hmem]
    rfl
  refine {
    lt := by rw [hc.outside.groups]; exact ho.lt
    scope := by rw [hparent, ho.scope]
    waits := ?_
    nodup := hchildren ▸ ho.nodup
    mem := fun d => by rw [hchildren, hoverAll]; exact ho.mem d
    waiting := by rw [hc.group, hoverAll]; exact ho.waiting
    block := ho.block
    timer := fun t ht => by rw [hc.outside.coroId]; exact ho.timer t ht
    later := by rw [hparent, hc.outside.coroId]; exact ho.later
    owner := by rw [hparent, howner, howner]; exact ho.owner
    parent := by rw [hparent]; exact ho.parent
    status := ?_ }
  · rw [hparent, hp]
    refine .second (by rw [hc.parent]) (by rw [hc.parent]) ?_
    rw [hchildren, hc.parent]
    exact iff_of_false (by rw [hready]; simp) hne
  · rw [hparent, hp]
    cases ho.status with
    | unsettled w hd hst hr _ _ _ hrest hstart =>
      rw [hp] at hrest hstart
      have hblock := hstop _ (Or.inl rfl) hd
      have htimer : ∀ t, (P.span g).timer = some t → W'.isOver t = false →
          (W'.coro t).cancelled = true := fun t ht hto => hstop t (Or.inr ht) (hoverAll t ▸ hto)
      cases w with
      | inTime | cancelled =>
        exact .unsettled .cancelled ((hoverAll _).trans hd) (by rw [hc.group, hst]; rfl)
          (by rw [hc.group]; exact hr) hblock (fun _ => by rw [hc.parent]; exact hcancel) htimer hrest
          hstart
      | expired =>
        exact .unsettled .expired ((hoverAll _).trans hd) (by rw [hc.group, hst]; rfl)
          (by rw [hc.group]; exact hr) hblock (by simp) htimer hrest hstart
    | settled x hd hx _ hrest hact =>
      rw [hp] at hrest hact
      refine .settled x ((hoverAll _).trans hd) ?_
        (fun t ht hto => hstop t (Or.inr ht) (hoverAll t ▸ hto)) hrest (by rw [howner]; exact hact)
      rw [hc.group, if_neg hx.not_running]
      exact hx

theorem Inv.catches {c g : Nat} (h : Inv (some c) W P n tasks) (hu : User (some c) W P c)
    (hb : ∀ g, (P.role c).kind = .block g → Open (some c) W P g ∧ (P.span g).block = c)
    (ho : Open (some c) W P g) (hp : (W.group g).parent = c) (hs : (W.coro c).state = .running)
    (hready : (W.coro c).ready = false) (hcancel : (W.coro c).cancelled = true)
    (hne : (W.group g).children ≠ [])
    (hc : Catches W W' c g (.suspended fun r => setShielded false fun _ =>
      groupEnd g r fun x => (P.role c).kind.code c ((P.span g).cont x))) (hq : W'.Queue) :
    Inv none W' P n tasks := by
  have hover : W.isOver c = false := by rw [World.isOver, hs]; rfl
  have hstays : ∀ d, d ≠ c → Stays W W' d := fun d hd => hc.stays hd
  have hoverAll := hc.same_over hs
  have howner := hc.same_owner
  have hsame : ∀ d, d ∉ (W.group g).children → SameTask W W' P P d := fun d hd => by
    refine ⟨hoverAll d, ?_, howner d, rfl, rfl, rfl⟩
    by_cases hdc : d = c
    · rw [hdc, hc.parent]
    · rw [hc.others d hdc, if_neg hd]
  have hkind : ∀ g, (P.role c).kind ≠ .timer g := hp ▸ ho.parent
  have hparent := hc.same_parent
  have hopen := hc.opens ho hp hs hready hcancel hne
  have hother : ∀ g', g' ≠ g → Open (some c) W P g' → Open none W' P g' := fun g' hg ho' => by
    have hpc : (W.group g').parent ≠ c := fun he => hg (ho.parent_inj ho' (he.trans hp.symm))
    have hnot : ∀ d, (P.role d).kind = .block g' ∨ (P.role d).kind = .timer g' →
        d ∉ (W.group g).children := fun d hk hm => by
      rcases ((ho.mem d).mp hm).1 with he | he
      · rw [he, ho.block] at hk
        simp only [Kind.block.injEq, reduceCtorEq, or_false] at hk
        exact hg hk.symm
      · rw [(ho.timer d he).1] at hk
        simp only [Kind.timer.injEq, reduceCtorEq, false_or] at hk
        exact hg hk.symm
    exact ho'.frame (hc.otherGroups g' hg) (Nat.le_of_eq hc.outside.groups.symm)
      (Nat.le_of_eq hc.outside.coroId.symm) rfl (hstays _ hpc) rfl
      (fun he => hpc (Option.some.inj he).symm) id (hsame _ (hnot _ (Or.inl ho'.block))) fun t ht =>
        hsame t (hnot t (Or.inr (ho'.timer t ht).1))
  have hall : ∀ g', Open (some c) W P g' → Open none W' P g' := fun g' ho' => by
    by_cases hg : g' = g
    · rwa [hg]
    · exact hother g' hg ho'
  refine h.change hc.outside.aborted hq (Nat.le_of_eq hc.outside.coroId.symm) (fun d hd => ?_)
    (fun i hi hk => ?_) (fun i hi => ?_) (fun i hi => ?_) (fun _ hd => hd) fun d hd => ?_
  · rw [hc.outside.coroId] at hd
    have hdc : d ≠ c := Nat.ne_of_gt (Nat.lt_of_lt_of_le (h.lt_coroId hover) hd)
    rw [hc.others d hdc, if_neg]
    intro hm
    exact Nat.not_lt_of_le hd (h.lt_coroId ((ho.mem d).mp hm).2)
  · refine ⟨hoverAll i, howner i, rfl, rfl, rfl, fun hov => ⟨(hstays i fun he => ?_).kept, rfl, id⟩⟩
    rw [he, hover] at hov
    cases hov
  · rw [howner, hc.outside.coroId]
    exact h.acts i hi
  · rw [hc.outside.log, h.log i hi]
  · rw [hoverAll] at hd
    by_cases hdc : d = c
    · subst hdc
      have hscope := ho.scope
      rw [hp] at hscope
      refine User.member ⟨?_, .waiting hscope ((hparent g).trans hp) hopen⟩ hkind fun g' hg' =>
        ⟨hall g' (hb g' hg').1, (hb g' hg').2⟩
      rw [hc.parent]
      exact hu.came
    · exact (h.members d hd).stays (hstays d hdc) rfl id (fun he => hdc (Option.some.inj he).symm)
        (fun _ _ => rfl) fun g' ho' _ => ⟨hall g' ho', hparent g'⟩

end Parent

end MoonS7.Async
