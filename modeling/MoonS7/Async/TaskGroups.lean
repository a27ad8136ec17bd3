import MoonS7.Async.Coroutines

/-!
# Task groups and timeouts (`moonbitlang/async`: `task_group.mbt`, `async.mbt`)

The functions of the library as code with a continuation (`Lib`), in the order of the source. What
they raise is in the `Except` of their value.

`Routine` is an async function of a program that uses the library: it makes calls, it may catch what
they raise, and it runs other routines under `with_timeout_opt`.
-/

namespace MoonS7.Async

/-! ## 1. Library functions -/

/-- A function of the library, by what it does with its continuation. -/
def Lib (E : Type) (R : E → Type) (X α : Type) : Type := (α → Code E R X) → Code E R X

variable {E : Type} {R : E → Type} {X : Type}

instance : Monad (Lib E R X) where
  pure a := fun k => k a
  bind m f := fun k => m fun a => f a k

def suspend : Lib E R X (Except Raise Unit) := .suspend

def sleep (duration : Int32) : Lib E R X (Except Raise Unit) := .sleep duration

def spawn (f : Code E R X) : Lib E R X Nat := .spawn f

def currentCoroutine : Lib E R X Nat := .currentCoroutine

def wake (c : Nat) : Lib E R X Unit := fun k => .wake c (k ())

def cancel (c : Nat) : Lib E R X Unit := fun k => .cancel c (k ())

def isBeingCancelled : Lib E R X Bool := .isBeingCancelled

def abort {α : Type} : Lib E R X α := fun _ => .abort

def newGroup (tg : TaskGroup X) : Lib E R X Nat := .newGroup tg

def getGroup (self : Nat) : Lib E R X (TaskGroup X) := .getGroup self

def modifyGroup (self : Nat) (f : TaskGroup X → TaskGroup X) : Lib E R X Unit :=
  fun k => .getGroup self fun tg => .setGroup self (f tg) (k ())

def cancelAll : List Nat → Lib E R X Unit
  | [] => pure ()
  | child :: rest => do
    cancel child
    cancelAll rest

def isShielded : Lib E R X Bool := .isShielded

def setShielded (b : Bool) : Lib E R X Unit := fun k => .setShielded b (k ())

/-- `protect_from_cancel(f, resume_on_cancel=true)`. -/
def protectFromCancel {α : Type} (f : Lib E R X (Except Raise α)) : Lib E R X (Except Raise α) := do
  if ← isShielded then f
  else
    setShielded true
    let result ← f
    setShielded false
    return result

/-! ## 2. Task groups -/

/-- The `catch` of a worker: a task that fails ends its group, unless it fails because it is being
    cancelled. -/
def workerCatch (self : Nat) (allowFailure : Bool) (r : Except Raise Unit) :
    Lib E R X (Except Raise Unit) := do
  match r with
  | .ok () => return .ok ()
  | .error err =>
    if allowFailure then return .error err
    else if err = .cancelled && (← isBeingCancelled) then return .error err
    else
      let tg ← getGroup self
      if tg.state = .running then cancelAll tg.children
      modifyGroup self fun tg => { tg with state := .fail err }
      return .error err

/-- The `defer` of a worker. -/
def workerDefer (self coro : Nat) (noWait : Bool) : Lib E R X Unit := do
  modifyGroup self fun tg => { tg with children := tg.children.erase coro }
  if !noWait then
    modifyGroup self fun tg => { tg with waiting := tg.waiting - 1 }
    let tg ← getGroup self
    if tg.waiting = 0 && tg.state = .running then
      cancelAll tg.children
      modifyGroup self fun tg => { tg with state := .done }
  let tg ← getGroup self
  if tg.children = [] then wake tg.parent

/-- What a worker does when its function is over. -/
def workerEnd (self coro : Nat) (noWait allowFailure : Bool) (r : Except Raise Unit) :
    Lib E R X (Except Raise Unit) := do
  let r ← workerCatch self allowFailure r
  workerDefer self coro noWait
  return r

def worker (self : Nat) (f : Lib E R X (Except Raise Unit)) (noWait allowFailure : Bool) :
    Code E R X :=
  let run : Lib E R X (Except Raise Unit) := do
    let coro ← currentCoroutine
    workerEnd self coro noWait allowFailure (← f)
  run .ended

/-- `TaskGroup::spawn_coroutine`. -/
def spawnCoroutine (self : Nat) (f : Lib E R X (Except Raise Unit)) (noWait allowFailure : Bool) :
    Lib E R X Nat := do
  let tg ← getGroup self
  if tg.state = .running || tg.children ≠ [] then
    if !noWait then modifyGroup self fun tg => { tg with waiting := tg.waiting + 1 }
    let coro ← spawn (worker self f noWait allowFailure)
    modifyGroup self fun tg => { tg with children := tg.children ++ [coro] }
    if (← getGroup self).state ≠ .running then cancel coro
    return coro
  else abort

/-- `TaskGroup::spawn_bg`. -/
def spawnBg (self : Nat) (f : Lib E R X (Except Raise Unit)) (noWait allowFailure : Bool) :
    Lib E R X Unit := do
  let _ ← spawnCoroutine self f noWait allowFailure

/-- `TaskGroup::return_immediately`. -/
def returnImmediately (self : Nat) (value : X) : Lib E R X (Except Raise Unit) := do
  if (← getGroup self).result.isNone then
    modifyGroup self fun tg => { tg with result := some value }
  if (← getGroup self).state = .running then
    modifyGroup self fun tg => { tg with state := .done }
    cancelAll (← getGroup self).children
  if ← isBeingCancelled then return .error .cancelled
  return .ok ()

/-- What `with_task_group` does when nobody is left in the group. -/
def leaveGroup (tg : Nat) : Lib E R X (Except Raise X) := do
  let g ← getGroup tg
  if g.children = [] then
    match g.state with
    | .done =>
      match g.result with
      | some value => return .ok value
      | none => abort
    | .fail err => return .error err
    | .running => abort
  else abort

/-- The `catch` around the first `suspend` of `with_task_group`. -/
def groupCatch (tg : Nat) (err : Raise) : Lib E R X (Except Raise Unit) := do
  if (← getGroup tg).state = .running then
    modifyGroup tg fun g => { g with state := .fail err }
  let g ← getGroup tg
  if g.children ≠ [] then
    cancelAll g.children
    protectFromCancel suspend
  else return .ok ()

/-- What the task that runs the block of a group does with its value. -/
def storeResult (tg : Nat) (r : Except Raise X) : Lib E R X (Except Raise Unit) := do
  match r with
  | .error err => return .error err
  | .ok value =>
    if (← getGroup tg).result.isNone then
      modifyGroup tg fun g => { g with result := some value }
    return .ok ()

/-- The task that runs the block `f` of a group. -/
def groupBody (f : Nat → Lib E R X (Except Raise X)) (tg : Nat) : Lib E R X (Except Raise Unit) := do
  storeResult tg (← f tg)

/-- The end of `with_task_group`, with what its `catch` has raised. -/
def groupEnd (tg : Nat) (r : Except Raise Unit) : Lib E R X (Except Raise X) :=
  match r with
  | .ok () => leaveGroup tg
  | .error err => return .error err

/-- What `with_task_group` does when its first `suspend` is over. -/
def groupResume (tg : Nat) (r : Except Raise Unit) : Lib E R X (Except Raise X) := do
  match r with
  | .ok () => leaveGroup tg
  | .error err => groupEnd tg (← groupCatch tg err)

def withTaskGroup (f : Nat → Lib E R X (Except Raise X)) : Lib E R X (Except Raise X) := do
  let parent ← currentCoroutine
  let tg ← newGroup ⟨[], parent, 0, .running, none⟩
  spawnBg tg (groupBody f tg) false false
  groupResume tg (← suspend)

/-! ## 3. Timeouts -/

variable {V : Type}

def timeOver (group : Nat) (r : Except Raise Unit) : Lib E R (Option V) (Except Raise Unit) :=
  match r with
  | .error err => return .error err
  | .ok () => returnImmediately group none

/-- The task of a `with_timeout_opt` that ends it when the time is over. -/
def timeoutTask (time : Int32) (group : Nat) : Lib E R (Option V) (Except Raise Unit) := do
  timeOver group (← sleep time)

/-- The block of a `with_timeout_opt`. -/
def timeoutBody (time : Int32) (f : Lib E R (Option V) (Except Raise V)) (group : Nat) :
    Lib E R (Option V) (Except Raise (Option V)) := do
  spawnBg group (timeoutTask time group) true false
  return (← f).map some

/-- `with_timeout_opt`. -/
def withTimeoutOpt (time : Int32) (f : Lib E R (Option V) (Except Raise V)) :
    Lib E R (Option V) (Except Raise (Option V)) :=
  withTaskGroup (timeoutBody time f)

/-! ## 4. Programs -/

/-- An async function whose value is a `V`. -/
inductive Routine (E : Type) (R : E → Type) (V : Type) where
  | ret (r : Except Raise V)
  | call (e : E) (k : Except Raise (R e) → Routine E R V)
  | withTimeoutOpt (time : Int32) (f : Routine E R V) (k : Except Raise (Option V) → Routine E R V)

/-- A routine over the library's functions. -/
def Routine.code : Routine E R V → Lib E R (Option V) (Except Raise V)
  | .ret r => fun k => k r
  | .call e q => fun k => .call e fun x => (q x).code k
  | .withTimeoutOpt time f q => fun k => Async.withTimeoutOpt time f.code fun x => (q x).code k

/-- A task: a routine whose value nobody takes. -/
def Routine.task (p : Routine E R V) : Code E R (Option V) :=
  p.code fun r => .ended (r.map fun _ => ())

/-- `n` tasks that are about to start. -/
def World.start (n : Nat) (tasks : Nat → Routine E R V)
    (instant : Nat → (e : E) → Option (Except String (R e))) : World E R (Option V) where
  coro c := ⟨if c < n then .spawned (tasks c).task else .done, true, false, c < n, c⟩
  coroId := n
  runLater := List.range n
  group _ := ⟨[], 0, 0, .done, none⟩
  groups := 0
  aborted := false
  instant := instant
  calls := 0
  log _ := []

/-! ## 5. What the functions come to -/

section Apply

variable {α β : Type}

@[simp] theorem Lib.pure_apply (a : α) (k : α → Code E R X) : (pure a : Lib E R X α) k = k a := rfl

@[simp] theorem Lib.bind_apply (m : Lib E R X α) (f : α → Lib E R X β) (k : β → Code E R X) :
    (m >>= f) k = m fun a => f a k := rfl

@[simp] theorem Lib.ite_apply (p : Prop) [Decidable p] (m m' : Lib E R X α) (k : α → Code E R X) :
    (if p then m else m') k = if p then m k else m' k := by split <;> rfl

end Apply

def World.cancelAll (W : World E R X) (cs : List Nat) : World E R X := cs.foldl World.cancel W

section Exec

variable (c d g : Nat) (W : World E R X)

@[simp] theorem exec_ite (p : Prop) [Decidable p] (a b : Code E R X) :
    W.exec c (if p then a else b) = if p then W.exec c a else W.exec c b := by split <;> rfl

@[simp] theorem exec_ended (r : Except Raise Unit) :
    W.exec c (.ended r) = W.setState c (ending r) := rfl

@[simp] theorem exec_currentCoroutine (k : Nat → Code E R X) :
    W.exec c (currentCoroutine k) = W.exec c (k c) := rfl

@[simp] theorem exec_spawn (f : Code E R X) (k : Nat → Code E R X) :
    W.exec c (spawn f k) = (W.spawn f (W.coro c).owner).exec c (k W.coroId) := rfl

@[simp] theorem exec_wake (k : Unit → Code E R X) :
    W.exec c (wake d k) = (W.wake d).exec c (k ()) := rfl

@[simp] theorem exec_cancel (k : Unit → Code E R X) :
    W.exec c (cancel d k) = (W.cancel d).exec c (k ()) := rfl

@[simp] theorem exec_isBeingCancelled (k : Bool → Code E R X) :
    W.exec c (isBeingCancelled k) = W.exec c (k (W.coro c).beingCancelled) := rfl

@[simp] theorem exec_isShielded (k : Bool → Code E R X) :
    W.exec c (isShielded k) = W.exec c (k (W.coro c).shielded) := rfl

@[simp] theorem exec_setShielded (b : Bool) (k : Unit → Code E R X) :
    W.exec c (setShielded b k) =
      (W.setCoro c { W.coro c with shielded := b }).exec c (k ()) := rfl

@[simp] theorem exec_newGroup (tg : TaskGroup X) (k : Nat → Code E R X) :
    W.exec c (newGroup tg k) = (W.newGroup tg).exec c (k W.groups) := rfl

@[simp] theorem exec_getGroup (k : TaskGroup X → Code E R X) :
    W.exec c (getGroup g k) = W.exec c (k (W.group g)) := rfl

@[simp] theorem exec_modifyGroup (f : TaskGroup X → TaskGroup X) (k : Unit → Code E R X) :
    W.exec c (modifyGroup g f k) = (W.setGroup g (f (W.group g))).exec c (k ()) := rfl

@[simp] theorem exec_cancelAll (cs : List Nat) (k : Unit → Code E R X) :
    W.exec c (cancelAll cs k) = (W.cancelAll cs).exec c (k ()) := by
  induction cs generalizing W with
  | nil => rfl
  | cons d cs ih => exact ih (W.cancel d)

@[simp] theorem exec_suspend (k : Except Raise Unit → Code E R X) :
    W.exec c (suspend k) = if (W.coro c).beingCancelled then W.exec c (k (.error .cancelled))
      else W.setState c (.suspended k) := rfl

@[simp] theorem exec_sleep (duration : Int32) (k : Except Raise Unit → Code E R X) :
    W.exec c (sleep duration k) = if (W.coro c).beingCancelled then W.exec c (k (.error .cancelled))
      else W.setState c (.sleeping k) := rfl

end Exec

theorem stop_stop (x : Coroutine E R X) : x.stop.stop = x.stop := by
  simp [Coroutine.stop]

@[simp] theorem cancelAll_coro (W : World E R X) (cs : List Nat) (d : Nat) :
    (W.cancelAll cs).coro d = if d ∈ cs then (W.coro d).stop else W.coro d := by
  induction cs generalizing W with
  | nil => rfl
  | cons c cs ih =>
    show ((W.cancel c).cancelAll cs).coro d = _
    rw [ih, cancel_coro]
    by_cases hd : d = c
    · simp [hd, stop_stop]
    · simp [hd]

theorem cancelAll_sameElse (W : World E R X) (cs : List Nat) : W.SameElse (W.cancelAll cs) := by
  induction cs generalizing W with
  | nil => exact .refl W
  | cons c cs ih => exact (cancel_sameElse W c).trans (ih _)

theorem World.Queue.cancelAll {W : World E R X} (h : W.Queue) (cs : List Nat) :
    (W.cancelAll cs).Queue := by
  induction cs generalizing W with
  | nil => exact h
  | cons c cs ih => exact ih (h.cancel c)

end MoonS7.Async
