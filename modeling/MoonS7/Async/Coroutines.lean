import Mathlib.Tactic.Common
import Mathlib.Logic.Function.Iterate

/-!
# Coroutines (`moonbitlang/async`: `internal/coroutine/coroutine.mbt`, `scheduler.mbt`)

A coroutine runs until it suspends or ends, and the scheduler runs those that are ready, in the order
in which they became so. `Code` is what a coroutine still has to do; `exec` runs it up to where it
suspends.

A call to the event loop may return at once or suspend; `instant` says which, and `Step.complete`
gives the reply of one that has suspended. Two parts of a `World` are not in the source: `log`, the
calls that were made, and `owner`, the task on whose behalf a coroutine runs.
-/

namespace MoonS7.Async

/-- What an async function raises: `Cancelled`, or another error. -/
inductive Raise where
  | cancelled
  | error (m : String)
  deriving DecidableEq

/-! ## 1. Task groups and code -/

inductive GroupState where
  | running
  | done
  | fail (err : Raise)
  deriving DecidableEq

/-- `TaskGroup[X]` (`task_group.mbt`). -/
structure TaskGroup (X : Type) where
  children : List Nat
  parent : Nat
  waiting : Int
  state : GroupState
  result : Option X

inductive Code (E : Type) (R : E → Type) (X : Type) where
  | ended (r : Except Raise Unit)
  | call (e : E) (k : Except Raise (R e) → Code E R X)
  | sleep (duration : Int32) (k : Except Raise Unit → Code E R X)
  | suspend (k : Except Raise Unit → Code E R X)
  | spawn (f : Code E R X) (k : Nat → Code E R X)
  | currentCoroutine (k : Nat → Code E R X)
  | wake (c : Nat) (k : Code E R X)
  | cancel (c : Nat) (k : Code E R X)
  | isBeingCancelled (k : Bool → Code E R X)
  | isShielded (k : Bool → Code E R X)
  | setShielded (b : Bool) (k : Code E R X)
  | newGroup (tg : TaskGroup X) (k : Nat → Code E R X)
  | getGroup (g : Nat) (k : TaskGroup X → Code E R X)
  | setGroup (g : Nat) (tg : TaskGroup X) (k : Code E R X)
  | abort

/-! ## 2. The state -/

/-- The state of a coroutine. The source has one `Suspend`, whose continuations say what is waited
    for. -/
inductive CoroState (E : Type) (R : E → Type) (X : Type) where
  | done
  | fail (err : Raise)
  | running
  | spawned (f : Code E R X)
  | calling (e : E) (reply : Option (Except String (R e))) (k : Except Raise (R e) → Code E R X)
  | sleeping (k : Except Raise Unit → Code E R X)
  | suspended (k : Except Raise Unit → Code E R X)

structure Coroutine (E : Type) (R : E → Type) (X : Type) where
  state : CoroState E R X
  shielded : Bool
  cancelled : Bool
  ready : Bool
  owner : Nat

/-- A call that was made, and how it ended. -/
abbrev Event (E : Type) (R : E → Type) : Type := Σ e : E, Except Raise (R e)

structure World (E : Type) (R : E → Type) (X : Type) where
  coro : Nat → Coroutine E R X
  coroId : Nat
  runLater : List Nat
  group : Nat → TaskGroup X
  groups : Nat
  aborted : Bool
  instant : Nat → (e : E) → Option (Except String (R e))
  calls : Nat
  log : Nat → List (Event E R)

variable {E : Type} {R : E → Type} {X : Type}

/-- How a call ends for the one that made it. -/
def answer {α : Type} (x : Except String α) : Except Raise α := x.mapError .error

def World.setCoro (W : World E R X) (c : Nat) (x : Coroutine E R X) : World E R X :=
  { W with coro := Function.update W.coro c x }

def World.setState (W : World E R X) (c : Nat) (s : CoroState E R X) : World E R X :=
  W.setCoro c { W.coro c with state := s }

def World.setGroup (W : World E R X) (g : Nat) (tg : TaskGroup X) : World E R X :=
  { W with group := Function.update W.group g tg }

/-- The call is noted for the owner of the coroutine. -/
def World.note (W : World E R X) (c : Nat) (ev : Event E R) : World E R X :=
  { W with log := Function.update W.log (W.coro c).owner (W.log (W.coro c).owner ++ [ev]) }

def World.wake (W : World E R X) (c : Nat) : World E R X :=
  if (W.coro c).ready then W
  else { W.setCoro c { W.coro c with ready := true } with runLater := W.runLater ++ [c] }

def World.cancel (W : World E R X) (c : Nat) : World E R X :=
  let W' := W.setCoro c { W.coro c with cancelled := true }
  if (W.coro c).shielded then W' else W'.wake c

/-- `coro.cancelled && !coro.shielded`. -/
def Coroutine.beingCancelled (x : Coroutine E R X) : Bool := x.cancelled && !x.shielded

/-- A coroutine is shielded until it starts. -/
def World.spawn (W : World E R X) (f : Code E R X) (owner : Nat) : World E R X :=
  { W.setCoro W.coroId ⟨.spawned f, true, false, true, owner⟩ with
    coroId := W.coroId + 1
    runLater := W.runLater ++ [W.coroId] }

def World.newGroup (W : World E R X) (tg : TaskGroup X) : World E R X :=
  { W.setGroup W.groups tg with groups := W.groups + 1 }

def ending (r : Except Raise Unit) : CoroState E R X :=
  match r with
  | .ok _ => .done
  | .error err => .fail err

/-! ## 3. Running -/

/-- The coroutine `c` runs up to where it suspends or ends. A coroutine that is being cancelled does
    not suspend: `Cancelled` is raised there. -/
def World.exec (c : Nat) : Code E R X → World E R X → World E R X
  | .ended r, W => W.setState c (ending r)
  | .call e k, W =>
    match W.instant W.calls e with
    | some x => exec c (k (answer x)) ({ W with calls := W.calls + 1 }.note c ⟨e, answer x⟩)
    | none =>
      if (W.coro c).beingCancelled then
        exec c (k (.error .cancelled)) ({ W with calls := W.calls + 1 }.note c ⟨e, .error .cancelled⟩)
      else { W with calls := W.calls + 1 }.setState c (.calling e none k)
  | .sleep _ k, W =>
    if (W.coro c).beingCancelled then exec c (k (.error .cancelled)) W
    else W.setState c (.sleeping k)
  | .suspend k, W =>
    if (W.coro c).beingCancelled then exec c (k (.error .cancelled)) W
    else W.setState c (.suspended k)
  | .spawn f k, W => exec c (k W.coroId) (W.spawn f (W.coro c).owner)
  | .currentCoroutine k, W => exec c (k c) W
  | .wake d k, W => exec c k (W.wake d)
  | .cancel d k, W => exec c k (W.cancel d)
  | .isBeingCancelled k, W => exec c (k (W.coro c).beingCancelled) W
  | .isShielded k, W => exec c (k (W.coro c).shielded) W
  | .setShielded b k, W => exec c k (W.setCoro c { W.coro c with shielded := b })
  | .newGroup tg k, W => exec c (k W.groups) (W.newGroup tg)
  | .getGroup g k, W => exec c (k (W.group g)) W
  | .setGroup g tg k, W => exec c k (W.setGroup g tg)
  | .abort, W => { W with aborted := true }

/-- A suspended coroutine goes on: `ok_cont`, or `err_cont` with `Cancelled`. -/
def World.resume (W : World E R X) (c : Nat) : World E R X :=
  let W' := W.setState c .running
  let stop := (W.coro c).beingCancelled
  match (W.coro c).state with
  | .spawned f =>
    if stop then W' else W'.setCoro c { W'.coro c with shielded := false } |>.exec c f
  | .calling e reply k =>
    if stop then (W'.note c ⟨e, .error .cancelled⟩).exec c (k (.error .cancelled))
    else match reply with
      | some x => (W'.note c ⟨e, answer x⟩).exec c (k (answer x))
      -- nothing has come yet, and the call suspends again
      | none => W
  | .sleeping k => W'.exec c (k (if stop then .error .cancelled else .ok ()))
  | .suspended k => W'.exec c (k (if stop then .error .cancelled else .ok ()))
  | _ => W

/-- One round of the loop of `reschedule`. -/
def World.turn (W : World E R X) : World E R X :=
  match W.runLater with
  | [] => W
  | c :: rest =>
    let W' := { W.setCoro c { W.coro c with ready := false } with runLater := rest }
    W'.resume c

/-- `reschedule`: the coroutines that are ready now, and none that become so meanwhile. -/
def World.reschedule (W : World E R X) : World E R X := World.turn^[W.runLater.length] W

/-- What the scheduler and the event loop do, in any order. Of the first `n` coroutines nothing is
    known but that whoever started them may cancel them. -/
inductive Step (n : Nat) : World E R X → World E R X → Prop where
  | turn (W : World E R X) (h : W.aborted = false) : Step n W W.turn
  | complete (W : World E R X) (c : Nat) {e : E} {k : Except Raise (R e) → Code E R X}
      (x : Except String (R e)) (h : (W.coro c).state = .calling e none k) :
      Step n W ((W.setState c (.calling e (some x) k)).wake c)
  | expire (W : World E R X) (c : Nat) {k : Except Raise Unit → Code E R X}
      (h : (W.coro c).state = .sleeping k) : Step n W (W.wake c)
  | interrupt (W : World E R X) {c : Nat} (h : c < n) : Step n W (W.cancel c)

/-! ## 4. What the operations change -/

def CoroState.isOver : CoroState E R X → Bool
  | .done | .fail _ => true
  | _ => false

theorem over_ending (r : Except Raise Unit) : (ending r : CoroState E R X).isOver = true := by
  cases r <;> rfl

/-- A coroutine that is cancelled. -/
def Coroutine.stop (x : Coroutine E R X) : Coroutine E R X :=
  { x with cancelled := true, ready := x.ready || !x.shielded }

section Fields

variable (W : World E R X) (c d g g' : Nat) (x : Coroutine E R X) (s : CoroState E R X)
  (tg : TaskGroup X) (ev : Event E R) (f : Code E R X) (o : Nat)

@[simp] theorem setCoro_coro :
    (W.setCoro c x).coro d = if d = c then x else W.coro d := Function.update_apply ..

@[simp] theorem setState_coro :
    (W.setState c s).coro d = if d = c then { W.coro c with state := s } else W.coro d :=
  Function.update_apply ..

@[simp] theorem wake_coro :
    (W.wake c).coro d = if d = c then { W.coro c with ready := true } else W.coro d := by
  unfold World.wake
  split
  · rename_i h
    split
    · rename_i hd
      rw [hd, ← h]
    · rfl
  · exact setCoro_coro ..

@[simp] theorem cancel_coro :
    (W.cancel c).coro d = if d = c then (W.coro c).stop else W.coro d := by
  unfold World.cancel
  simp only
  split
  · rename_i h
    rw [setCoro_coro, Coroutine.stop, h, Bool.not_true, Bool.or_false]
  · rename_i h
    simp only [wake_coro, setCoro_coro, if_true, Coroutine.stop, h, Bool.not_false, Bool.or_true]
    split <;> simp [*]

@[simp] theorem setGroup_coro : (W.setGroup g tg).coro d = W.coro d := rfl

@[simp] theorem note_coro : (W.note c ev).coro d = W.coro d := rfl

@[simp] theorem newGroup_coro : (W.newGroup tg).coro d = W.coro d := rfl

@[simp] theorem spawn_coro : (W.spawn f o).coro d =
    if d = W.coroId then ⟨.spawned f, true, false, true, o⟩ else W.coro d := Function.update_apply ..

@[simp] theorem setCoro_group : (W.setCoro c x).group = W.group := rfl

@[simp] theorem setState_group : (W.setState c s).group = W.group := rfl

@[simp] theorem setGroup_group :
    (W.setGroup g tg).group g' = if g' = g then tg else W.group g' := Function.update_apply ..

@[simp] theorem note_group : (W.note c ev).group = W.group := rfl

@[simp] theorem spawn_group : (W.spawn f o).group = W.group := rfl

@[simp] theorem newGroup_group :
    (W.newGroup tg).group g' = if g' = W.groups then tg else W.group g' := Function.update_apply ..

@[simp] theorem setGroup_setGroup (tg' : TaskGroup X) :
    (W.setGroup g tg).setGroup g tg' = W.setGroup g tg' := by simp [World.setGroup]

@[simp] theorem setGroup_coroId : (W.setGroup g tg).coroId = W.coroId := rfl

@[simp] theorem newGroup_coroId : (W.newGroup tg).coroId = W.coroId := rfl

end Fields

/-- What `wake` and `cancel` leave as it is. -/
structure World.SameElse (W W' : World E R X) : Prop where
  coroId : W'.coroId = W.coroId
  group : W'.group = W.group
  groups : W'.groups = W.groups
  aborted : W'.aborted = W.aborted
  log : W'.log = W.log

theorem World.SameElse.refl (W : World E R X) : W.SameElse W := ⟨rfl, rfl, rfl, rfl, rfl⟩

theorem World.SameElse.trans {W₁ W₂ W₃ : World E R X} (h : W₁.SameElse W₂) (h' : W₂.SameElse W₃) :
    W₁.SameElse W₃ :=
  ⟨h'.coroId.trans h.coroId, h'.group.trans h.group, h'.groups.trans h.groups,
    h'.aborted.trans h.aborted, h'.log.trans h.log⟩

theorem wake_sameElse (W : World E R X) (c : Nat) : W.SameElse (W.wake c) := by
  unfold World.wake
  split <;> exact ⟨rfl, rfl, rfl, rfl, rfl⟩

theorem cancel_sameElse (W : World E R X) (c : Nat) : W.SameElse (W.cancel c) := by
  have hset : W.SameElse (W.setCoro c { W.coro c with cancelled := true }) :=
    ⟨rfl, rfl, rfl, rfl, rfl⟩
  unfold World.cancel
  simp only
  split
  · exact hset
  · exact hset.trans (wake_sameElse _ c)

/-! ## 5. The queue -/

/-- Exactly the coroutines that are ready are in the queue, each once. -/
structure World.Queue (W : World E R X) : Prop where
  mem : ∀ c, c ∈ W.runLater ↔ (W.coro c).ready = true
  nodup : W.runLater.Nodup

section Queue

variable {W : World E R X} (h : W.Queue)

include h

theorem World.Queue.same {W' : World E R X} (hq : W'.runLater = W.runLater)
    (hr : ∀ c, (W'.coro c).ready = (W.coro c).ready) : W'.Queue := by
  refine ⟨fun c => ?_, hq ▸ h.nodup⟩
  rw [hq, hr c]
  exact h.mem c

theorem World.Queue.push {W' : World E R X} {c : Nat} (hc : (W.coro c).ready = false)
    (hq : W'.runLater = W.runLater ++ [c])
    (hr : ∀ d, (W'.coro d).ready = if d = c then true else (W.coro d).ready) : W'.Queue := by
  have hnot : c ∉ W.runLater := fun hm => by simp [(h.mem c).mp hm] at hc
  refine ⟨fun d => ?_, ?_⟩
  · rw [hq, hr d, List.mem_append, List.mem_singleton, h.mem d]
    split <;> simp [*]
  · rw [hq]
    exact List.nodup_append.mpr ⟨h.nodup, List.pairwise_singleton _ c, fun a ha b hb => by
      rw [List.mem_singleton.mp hb]
      exact fun hac => hnot (hac ▸ ha)⟩

theorem World.Queue.wake (c : Nat) : (W.wake c).Queue := by
  unfold World.wake
  split
  · exact h
  · rename_i hc
    refine h.push (Bool.not_eq_true _ ▸ hc) rfl fun d => ?_
    simp only [setCoro_coro]
    split <;> rfl

theorem World.Queue.cancel (c : Nat) : (W.cancel c).Queue := by
  have hset : (W.setCoro c { W.coro c with cancelled := true }).Queue := h.same rfl fun d => by
    rw [setCoro_coro]
    split <;> simp [*]
  unfold World.cancel
  simp only
  split
  · exact hset
  · exact hset.wake c

theorem World.Queue.spawn (f : Code E R X) (o : Nat) (hc : (W.coro W.coroId).ready = false) :
    (W.spawn f o).Queue := by
  refine h.push hc rfl fun d => ?_
  rw [spawn_coro]
  split <;> rfl

theorem World.Queue.setCoro (c : Nat) {x : Coroutine E R X} (hx : x.ready = (W.coro c).ready) :
    (W.setCoro c x).Queue := h.same rfl fun d => by
  rw [setCoro_coro]
  split <;> simp [*]

/-- The first of the queue is taken out of it. -/
theorem World.Queue.pop {c : Nat} {rest : List Nat} (hq : W.runLater = c :: rest) :
    ({ W.setCoro c { W.coro c with ready := false } with runLater := rest } : World E R X).Queue := by
  have hn := h.nodup
  rw [hq, List.nodup_cons] at hn
  refine ⟨fun d => ?_, hn.2⟩
  have hm := h.mem d
  rw [hq, List.mem_cons] at hm
  show d ∈ rest ↔ ((W.setCoro c { W.coro c with ready := false }).coro d).ready = true
  rw [setCoro_coro]
  split
  · rename_i hd
    simpa [hd] using hn.1
  · rename_i hd
    rw [← hm]
    exact ⟨Or.inr, fun hm => hm.resolve_left hd⟩

end Queue

end MoonS7.Async
