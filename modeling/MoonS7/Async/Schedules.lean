import Mathlib.Logic.Relation
import MoonS7.Async.Scopes

/-!
# Tasks under any schedule (`scheduler.mbt`)

Main results, for every run of any number of tasks, whatever the scheduler and the event loop do and
whoever is cancelled when:

* `tasks_end` -- no check of the runtime fails, and every task that has ended is one that `Ends`;
* `never_deadlocked` -- as long as a coroutine has not ended, one is in the queue or waits for an
  event;
* `tasks_scoped` -- a coroutine that has not ended is a task, or in a group whose parent waits.
-/

namespace MoonS7.Async

variable {E : Type} {R : E → Type} {V : Type}

section Schedule

variable {run : Option Nat} {W W' : World E R (Option V)} {P : Plan E R V} {n : Nat}
  {tasks : Nat → Routine E R V}

/-! ## 1. A routine runs up to where it suspends -/

theorem answer_ne_cancelled {α : Type} (x : Except String α) : answer x ≠ .error .cancelled := by
  cases x <;> simp [answer, Except.mapError]

/-- A call is noted, and the coroutine runs on. -/
theorem Inv.noted {c : Nat} (h : Inv (some c) W P n tasks) {e : E}
    {q : Except Raise (R e) → Routine E R V} (hr : Runs W P c (.call e q)) {a : Except Raise (R e)}
    (ha : a = .error .cancelled → (W.coro c).cancelled = true) (k : Nat) :
    Inv (some c) ({ W with calls := k }.note c ⟨e, a⟩) (P.advance c ⟨e, a⟩ (q a)) n tasks ∧
      Runs ({ W with calls := k }.note c ⟨e, a⟩) (P.advance c ⟨e, a⟩ (q a)) c (q a) := by
  obtain ⟨hu, hb, -, hact, hsh, hready⟩ := h.runs hr
  exact h.answered hu hr.kind hb hr.isOver hr.rest hr.scope hact
    (fun d hd he => hd (Option.some.inj he).symm) ha ⟨fun _ _ => rfl, rfl, rfl, rfl, rfl⟩ hr.state hsh
    hready rfl rfl (h.queue.same rfl fun _ => rfl) rfl

/-- A call is made that does not return at once. -/
theorem Inv.calls {c : Nat} (h : Inv (some c) W P n tasks) {e : E}
    {q : Except Raise (R e) → Routine E R V} (hr : Runs W P c (.call e q)) (k : Nat) :
    Inv none ({ W with calls := k }.setState c
      (.calling e none fun x => (P.role c).kind.code c (q x))) P n tasks := by
  obtain ⟨hu, hb, -, hact, hsh, -⟩ := h.runs hr
  have hover := hr.isOver
  have hq : ({ W with calls := k } : World E R (Option V)).Queue := h.queue.same rfl fun _ => rfl
  refine h.act hover (fun g ho => ho.parent_ne hr.scope)
    ⟨fun d hd => by rw [setState_coro, if_neg hd], rfl, rfl, rfl, rfl⟩
    (hq.setCoro c rfl) ⟨?_, by simp, by simp, rfl, rfl, rfl⟩ (fun _ _ => rfl)
    rfl rfl (fun d hd he => hd (Option.some.inj he).symm) h.log fun hopen => ?_
  · rw [hover, World.isOver, setState_coro, if_pos rfl]
    rfl
  · refine User.member ⟨by simpa using hu.came, ?_⟩ hr.kind fun g hg =>
      ⟨hopen g (hb g hg).1, (hb g hg).2⟩
    exact .calling (by rw [setState_coro, if_pos rfl]) (by simpa using hsh) (by simp) hr.rest
      (by simpa using hact) hr.scope

/-- **A routine that runs** leaves the invariant when it suspends or ends. -/
theorem Inv.runsOn {c : Nat} {kind : Kind} {q : Routine E R V} (h : Inv (some c) W P n tasks)
    (hr : Runs W P c q) (hk : (P.role c).kind = kind) :
    ∃ P', Inv none (W.exec c (kind.code c q)) P' n tasks := by
  induction q generalizing W P with
  | ret r =>
    cases kind with
    | task => exact ⟨P, h.taskEnds hr hk⟩
    | block g => exact h.blockReturns hr hk
    | timer g => exact absurd hk (hr.kind g)
  | call e q ih =>
    show ∃ P', Inv none (W.exec c (.call e fun x => kind.code c (q x))) P' n tasks
    unfold World.exec
    split
    · rename_i x _
      obtain ⟨h', hr'⟩ := h.noted hr (a := answer x) (fun ha => absurd ha (answer_ne_cancelled x))
        (W.calls + 1)
      exact ih _ h' hr' (by simpa using hk)
    · split
      · rename_i hbc
        obtain ⟨h', hr'⟩ := h.noted hr (a := .error .cancelled)
          (fun _ => (Bool.and_eq_true_iff.mp hbc).1) (W.calls + 1)
        exact ih _ h' hr' (by simpa using hk)
      · rw [← hk]
        exact ⟨P, h.calls hr _⟩
  | withTimeoutOpt time f q =>
    obtain ⟨-, -, -, -, hsh, -⟩ := h.runs hr
    have hlt := h.lt_coroId hr.isOver
    obtain ⟨hb, hq⟩ :=
      exec_withTimeoutOpt (P := P) h.queue (h.fresh _ (Nat.le_refl _)).2 hlt hsh time f q
    rw [← hk]
    refine h.begins hr (fun hw => ?_) (fun hw => ?_) hb hq
    · split at hw <;> cases hw
    · split at hw
      · assumption
      · cases hw

/-! ## 2. A coroutine is resumed -/

/-- A coroutine that is nobody's parent comes into the queue, or leaves it. -/
theorem Inv.requeued {c : Nat} (h : Inv none W P n tasks) (hlt : c < W.coroId)
    (hne : ∀ g, Open none W P g → (W.group g).parent ≠ c) (hl : Local W W' c) {b : Bool}
    (hc : W'.coro c = { W.coro c with ready := b }) (hlog : W'.log = W.log) (hq : W'.Queue)
    (hm : (∀ g, Open none W P g → Open none W' P g) → W.isOver c = false → Member none W' P c) :
    Inv none W' P n tasks := by
  have hkept : ∀ d, Kept W W' d := fun d => by
    by_cases hd : d = c
    · subst hd
      constructor <;> rw [hc]
      exact id
    · exact (Stays.of_eq (hl.others d hd)).kept
  have hsame : ∀ d, SameTask W W' P P d := fun d => by
    by_cases hd : d = c
    · subst hd
      exact ⟨by rw [World.isOver, hc]; rfl, by rw [hc], by rw [hc], rfl, rfl, rfl⟩
    · exact .of_eq (hl.others d hd) rfl
  have hopen : ∀ g, Open none W P g → Open none W' P g := fun g ho =>
    ho.aside (hne g ho) hl (hsame c) (fun _ _ => rfl) rfl rfl (by simp)
  refine h.change hl.aborted hq (Nat.le_of_eq hl.coroId.symm) (fun d hd => ?_) (fun i _ _ => ?_)
    (fun i hi => ?_) (fun i hi => ?_) (fun _ hd => hd) fun d hd => ?_
  · rw [hl.coroId] at hd
    exact hl.others d (by omega)
  · have hs := hsame i
    exact ⟨hs.isOver, hs.owner, rfl, rfl, rfl, fun _ => ⟨hkept i, rfl, id⟩⟩
  · rw [(hsame _).owner, hl.coroId]
    exact h.acts i hi
  · rw [hlog, h.log i hi]
  · rw [(hsame d).isOver] at hd
    by_cases hdc : d = c
    · subst hdc
      exact hm hopen hd
    · have hstays : Stays W W' d := .of_eq (hl.others d hdc)
      exact (h.members d hd).stays hstays rfl id (by simp) (fun _ _ => rfl)
        fun g ho _ => ⟨hopen g ho, by rw [hl.group]⟩

/-- The coroutine `c` is the next to run. -/
def World.pick {X : Type} (W : World E R X) (c : Nat) (rest : List Nat) : World E R X :=
  { W.setCoro c (W.coro c).runs with runLater := rest }

/-- The coroutine `c` is taken out of the queue. -/
def World.drop {X : Type} (W : World E R X) (c : Nat) (rest : List Nat) : World E R X :=
  { W.setCoro c { W.coro c with ready := false } with runLater := rest }

section Pick

variable (W) (c : Nat) (rest : List Nat)

@[simp] theorem pick_coro (d : Nat) :
    (W.pick c rest).coro d = if d = c then (W.coro c).runs else W.coro d := Function.update_apply ..

@[simp] theorem drop_coro (d : Nat) :
    (W.drop c rest).coro d = if d = c then { W.coro c with ready := false } else W.coro d :=
  Function.update_apply ..

@[simp] theorem pick_group : (W.pick c rest).group = W.group := rfl

theorem pick_local : Local W (W.pick c rest) c :=
  ⟨fun d hd => by rw [pick_coro, if_neg hd], rfl, rfl, rfl, rfl⟩

theorem drop_local : Local W (W.drop c rest) c :=
  ⟨fun d hd => by rw [drop_coro, if_neg hd], rfl, rfl, rfl, rfl⟩

theorem drop_runs :
    ((W.drop c rest).setState c .running).setCoro c
      { ((W.drop c rest).setState c .running).coro c with shielded := false } = W.pick c rest := by
  simp [World.drop, World.pick, World.setState, World.setCoro, Coroutine.runs]

/-- A coroutine that is not shielded runs. -/
theorem drop_setState (h : (W.coro c).shielded = false) :
    (W.drop c rest).setState c .running = W.pick c rest := by
  simp [World.drop, World.pick, World.setState, World.setCoro, Coroutine.runs, h]

end Pick

section Resume

variable {c : Nat} {rest : List Nat} {e : E} {reply : Option (Except String (R e))}
  {k : Except Raise (R e) → Code E R (Option V)} {k' : Except Raise Unit → Code E R (Option V)}

/-- A coroutine that has not started is shielded, and starts even if it has been cancelled. -/
theorem resume_spawned {f : Code E R (Option V)} (hs : (W.coro c).state = .spawned f)
    (hsh : (W.coro c).shielded = true) :
    (W.drop c rest).resume c = (W.pick c rest).exec c f := by
  rw [← drop_runs]
  simp [World.resume, hs, hsh, Coroutine.beingCancelled]

theorem resume_calling (hs : (W.coro c).state = .calling e reply k)
    (hsh : (W.coro c).shielded = false) :
    (W.drop c rest).resume c = if (W.coro c).cancelled then
        ((W.pick c rest).note c ⟨e, .error .cancelled⟩).exec c (k (.error .cancelled))
      else reply.elim (W.drop c rest) fun x =>
        ((W.pick c rest).note c ⟨e, answer x⟩).exec c (k (answer x)) := by
  rw [← drop_setState W c rest hsh]
  cases reply <;> simp [World.resume, hs, hsh, Coroutine.beingCancelled]

theorem resume_sleeping (hs : (W.coro c).state = .sleeping k') (hsh : (W.coro c).shielded = false) :
    (W.drop c rest).resume c =
      (W.pick c rest).exec c (k' (if (W.coro c).cancelled then .error .cancelled else .ok ())) := by
  rw [← drop_setState W c rest hsh]
  simp [World.resume, hs, hsh, Coroutine.beingCancelled]

theorem resume_suspended (hs : (W.coro c).state = .suspended k') (hsh : (W.coro c).shielded = false) :
    (W.drop c rest).resume c =
      (W.pick c rest).exec c (k' (if (W.coro c).cancelled then .error .cancelled else .ok ())) := by
  rw [← drop_setState W c rest hsh]
  simp [World.resume, hs, hsh, Coroutine.beingCancelled]

theorem resume_shielded {f : Except Raise Unit → Code E R (Option V)}
    (hs : (W.coro c).state = .suspended fun r => setShielded false fun _ => f r)
    (hsh : (W.coro c).shielded = true) :
    (W.drop c rest).resume c = (W.pick c rest).exec c (f (.ok ())) := by
  rw [← drop_runs]
  simp [World.resume, hs, hsh, Coroutine.beingCancelled]

theorem resume_over (h : W.isOver c = true) : W.resume c = W := by
  unfold World.isOver at h
  unfold World.resume
  cases hs : (W.coro c).state <;> simp [hs, CoroState.isOver] at h ⊢

end Resume

/-- The first of the queue runs. -/
theorem Inv.pick {c : Nat} {rest : List Nat} (h : Inv none W P n tasks)
    (hrest : W.runLater = c :: rest) (hover : W.isOver c = false) :
    Inv (some c) (W.pick c rest) P n tasks := by
  have hdrop : (W.drop c rest).Queue := h.queue.pop hrest
  refine h.picked hover (pick_local W c rest) (by simp) rfl (hdrop.same rfl fun d => ?_)
  rw [pick_coro, drop_coro]
  split <;> rfl

/-- A coroutine that has not started begins its routine. -/
theorem Inv.starts {c : Nat} (h : Inv (some c) W P n tasks) (hr : Runs W P c (P.role c).body)
    (ht : ∀ g, (P.role c).kind = .block g → (P.span g).timer = none) :
    ∃ P', Inv none (W.exec c (P.code c)) P' n tasks := by
  cases hk : (P.role c).kind with
  | task =>
    have hcode : P.code c = Kind.task.code c (P.role c).body := by
      rw [Plan.code, hk]
      rfl
    rw [hcode]
    exact h.runsOn hr hk
  | block g =>
    obtain ⟨-, hblock, -⟩ := h.runs hr
    obtain ⟨ho, hb⟩ := hblock g hk
    have hne : (W.group g).children ≠ [] :=
      List.ne_nil_of_mem ((ho.mem c).mpr ⟨Or.inl hb.symm, hr.isOver⟩)
    have hcode : P.code c =
        worker g (groupBody (timeoutBody (P.span g).time (P.role c).body.code) g) false false := by
      rw [Plan.code, hk]
    obtain ⟨hm, hq⟩ := newTimer_made h.queue (h.fresh _ (Nat.le_refl _)).2 c g (P.span g).time
    obtain ⟨h', hr'⟩ := h.timerMade hr hk (ht g hk) hm hq
    rw [hcode, exec_blockStart hne]
    refine h'.runsOn hr' ?_
    rw [← hk]
    exact congrArg Role.kind (Function.update_of_ne (Nat.ne_of_lt (h.lt_coroId hr.isOver)) ..)
  | timer g => exact absurd hk (hr.kind g)

/-- The parent of a group is resumed. -/
theorem Inv.parentResumes {c g : Nat} {rest : List Nat} (h : Inv none W P n tasks)
    (hrest : W.runLater = c :: rest) (ho : Open none W P g) (hp : (W.group g).parent = c) :
    ∃ P', Inv none ((W.drop c rest).resume c) P' n tasks := by
  have hwaits := hp ▸ ho.waits
  have h' := h.pick hrest hwaits.notOver
  have hready : (W.coro c).ready = true := (h.queue.mem c).mp (hrest ▸ List.mem_cons_self)
  have hcoro : (W.pick c rest).coro c = (W.coro c).runs := by simp
  have hover : (W.pick c rest).isOver c = false := by rw [World.isOver, hcoro]; rfl
  obtain ⟨hu, hb⟩ := (h'.members c hover).user (hp ▸ ho.parent)
  have hscope := ho.scope
  rw [hp] at hscope
  have ho' : Open (some c) (W.pick c rest) P g := by
    cases hu.place with
    | starting hs => simp [hcoro, Coroutine.runs] at hs
    | calling hs => simp [hcoro, Coroutine.runs] at hs
    | running _ _ _ _ _ hscope' => simp [hscope] at hscope'
    | waiting hscope' _ ho'' =>
      rw [hscope] at hscope'
      cases hscope'
      exact ho''
  have hleaves : (W.group g).children = [] → ∃ x, (W.group g).Settled x ∧ ∃ P',
      Inv none ((W.pick c rest).exec c ((P.role c).kind.code c ((P.span g).cont x))) P' n tasks := by
    intro hn
    obtain ⟨x, hx, hr, hact⟩ := ho'.settled_of_empty hn
    rw [pick_group, hp] at hr hact
    obtain ⟨h₁, hr₁⟩ := h'.leaves hu hb ho' hp (by rw [hcoro]; rfl) (by rw [hcoro]; rfl)
      (by rw [hcoro]; rfl) hn hact
    rw [hr] at hr₁
    have hrole : (P.leave c).role c = { P.role c with scope := none } := Function.update_self ..
    exact ⟨x, hx, h₁.runsOn hr₁ (by rw [hrole])⟩
  cases hwaits with
  | first hs hsh hr he =>
    rw [resume_suspended hs hsh]
    by_cases hn : (W.group g).children = []
    · obtain ⟨x, hx, hinv⟩ := hleaves hn
      rw [exec_groupResume_empty (by exact hn) (by exact hx)]
      exact hinv
    · have hc : (W.coro c).cancelled = true := (hr hready).resolve_right hn
      rw [if_pos hc]
      obtain ⟨hcatch, hq⟩ := groupCatches (W := W.pick c rest) (g := g) h'.queue (by rw [hcoro]; rfl) hn
        (by have hnm := ho'.parent_not_mem; rw [pick_group, hp] at hnm; exact hnm)
        fun x => (P.role c).kind.code c ((P.span g).cont x)
      exact ⟨P, h'.catches hu hb ho' hp (by rw [hcoro]; rfl) (by rw [hcoro]; rfl)
        (by rw [hcoro]; exact hc) hn hcatch hq⟩
  | second hs hsh hr =>
    obtain ⟨x, hx, hinv⟩ := hleaves (hr.mp hready)
    rw [resume_shielded hs hsh]
    refine Eq.mpr ?_ hinv
    rw [groupEnd, exec_leaveGroup (by exact hr.mp hready) (by exact hx)]
  | awake _ hrun => cases hrun

/-- A task or a block is resumed. -/
theorem Inv.userResumes {c : Nat} {rest : List Nat} (h : Inv none W P n tasks)
    (hrest : W.runLater = c :: rest) (hu : User none W P c) (hover : W.isOver c = false)
    (hk : ∀ g, (P.role c).kind ≠ .timer g) :
    ∃ P', Inv none ((W.drop c rest).resume c) P' n tasks := by
  have h' := h.pick hrest hover
  have hrun : ((W.pick c rest).coro c).state = .running := by
    rw [pick_coro, if_pos rfl]
    rfl
  cases hu.place with
  | starting hs hsh _ hr _ _ hscope ht =>
    rw [resume_spawned hs hsh]
    exact h'.starts ⟨hrun, hr, hscope, hk⟩ ht
  | @calling e reply q hs hsh _ hr hact hscope =>
    rw [resume_calling hs hsh]
    have hnoted : ∀ a, (a = .error .cancelled → (W.coro c).cancelled = true) →
        ∃ P', Inv none (((W.pick c rest).note c ⟨e, a⟩).exec c ((P.role c).kind.code c (q a))) P' n
          tasks := fun a ha => by
      obtain ⟨h₁, hr₁⟩ := h'.noted ⟨hrun, hr, hscope, hk⟩ (a := a)
        (by rw [pick_coro, if_pos rfl]; exact ha) W.calls
      exact h₁.runsOn hr₁ (by simp)
    split
    · rename_i hc
      exact hnoted _ fun _ => hc
    · cases reply with
      | some x => exact hnoted _ fun ha => absurd ha (answer_ne_cancelled x)
      | none =>
        show ∃ P', Inv none (W.drop c rest) P' n tasks
        refine ⟨P, h.requeued (h.lt_coroId hover) (fun g ho => ho.parent_ne hscope)
          (drop_local W c rest) (by rw [drop_coro, if_pos rfl]) rfl (h.queue.pop hrest)
          fun hopen _ => ?_⟩
        obtain ⟨-, hb⟩ := (h.members c hover).user hk
        have hcoro : (W.drop c rest).coro c = { W.coro c with ready := false } := by
          rw [drop_coro, if_pos rfl]
        refine User.member ⟨by rw [hcoro]; exact hu.came, ?_⟩ hk fun g hg =>
          ⟨hopen g (hb g hg).1, (hb g hg).2⟩
        exact .calling (by rw [hcoro]; exact hs) (by rw [hcoro]; exact hsh) (by simp) hr
          (by rw [hcoro]; exact hact) hscope
  | running _ hr => cases hr
  | waiting _ hp ho => exact h.parentResumes hrest ho hp

/-- A timer is resumed. -/
theorem Inv.timerResumes {c g : Nat} {rest : List Nat} (h : Inv none W P n tasks)
    (hrest : W.runLater = c :: rest) (ho : Open none W P g) (ht : (P.span g).timer = some c)
    (hover : W.isOver c = false) (hp : TimerPlace none W g c) :
    ∃ P', Inv none ((W.drop c rest).resume c) P' n tasks := by
  have h' := h.pick hrest hover
  have hcoro : (W.pick c rest).coro c = (W.coro c).runs := by simp
  have hover' : (W.pick c rest).isOver c = false := by rw [World.isOver, hcoro]; rfl
  have hk := (ho.timer c ht).1
  have ho' : Open (some c) (W.pick c rest) P g := (h'.members c hover').openGroup (Or.inr hk)
  have hwakes : ∀ r, r = (if (W.coro c).cancelled then .error .cancelled else .ok ()) →
      Inv none ((W.pick c rest).exec c (timerWakes g c r)) P n tasks := by
    rintro r rfl
    cases hc : (W.coro c).cancelled with
    | true =>
      obtain ⟨hw, hq⟩ := timerCancelled ho' ht h'.queue
        (by rw [hcoro]; simp [Coroutine.beingCancelled, Coroutine.runs, hc])
      exact h'.timerEnds ho' ht hover' hw (by simp) hq
    | false =>
      have hst : (W.group g).state = .running ∧ (W.group g).result = none := by
        cases ho.status with
        | unsettled w _ hs hr _ _ htc =>
          have hcw := htc c ht hover
          rw [hc] at hcw
          have hw : w = .inTime := by simpa using hcw.symm
          subst hw
          exact ⟨hs, hr⟩
        | settled x _ _ htc =>
          have hcw := htc c ht hover
          rw [hc] at hcw
          cases hcw
      obtain ⟨hw, hq⟩ := timerFires ho' ht h'.queue hover' (by rw [hcoro]; rfl) hst.1 hst.2
      exact h'.timerEnds ho' ht hover' hw (fun _ => hst.1) hq
  cases hp with
  | @starting time hs hsh =>
    rw [resume_spawned hs hsh]
    have hcode : ∀ W' : World E R (Option V), W'.exec c (worker g (timeoutTask time g) true false) =
        if (W'.coro c).beingCancelled then W'.exec c (timerWakes g c (.error .cancelled))
        else W'.setState c (.sleeping (timerWakes g c)) := fun _ => rfl
    rw [hcode]
    split
    · rename_i hc
      rw [hcoro] at hc
      have hcancel : (W.coro c).cancelled = true := (Bool.and_eq_true_iff.mp hc).1
      exact ⟨P, hwakes _ (by rw [if_pos hcancel])⟩
    · exact ⟨P, h'.timerSleeps ho' ht (by rw [hcoro]; rfl) (by rw [hcoro]; rfl)⟩
  | sleeping hs hsh =>
    rw [resume_sleeping hs hsh]
    exact ⟨P, hwakes _ rfl⟩
  | running _ hr => cases hr

/-! ## 3. Every step -/

theorem Inv.turn (h : Inv none W P n tasks) : ∃ P', Inv none W.turn P' n tasks := by
  cases hrest : W.runLater with
  | nil =>
    rw [World.turn, hrest]
    exact ⟨P, h⟩
  | cons c rest =>
    have hturn : W.turn = (W.drop c rest).resume c := by
      rw [World.turn, hrest]
      rfl
    rw [hturn]
    have hready : (W.coro c).ready = true := (h.queue.mem c).mp (hrest ▸ List.mem_cons_self)
    cases hover : W.isOver c with
    | false =>
      cases h.members c hover with
      | task hk hu => exact h.userResumes hrest hu hover fun g hg => by rw [hk] at hg; cases hg
      | block hk _ _ hu => exact h.userResumes hrest hu hover fun g hg => by rw [hk] at hg; cases hg
      | timer _ ho ht hp => exact h.timerResumes hrest ho ht hover hp
    | true =>
      have hlt : c < W.coroId := Nat.lt_of_not_le fun hle => by
        rw [(h.fresh c hle).2] at hready
        cases hready
      have hover' : (W.drop c rest).isOver c = true := by
        rw [World.isOver, drop_coro, if_pos rfl]
        exact hover
      rw [resume_over hover']
      refine ⟨P, h.requeued hlt (fun g ho he => ?_) (drop_local W c rest)
          (by rw [drop_coro, if_pos rfl]) rfl (h.queue.pop hrest) fun _ ho => ?_⟩
      swap
      · rw [hover] at ho
        cases ho
      have hnot := ho.waits.notOver
      rw [he, hover] at hnot
      cases hnot

/-- The reply to a call has come. -/
theorem Inv.completed {c : Nat} (h : Inv none W P n tasks) {e : E}
    {k : Except Raise (R e) → Code E R (Option V)} (hs : (W.coro c).state = .calling e none k)
    (x : Except String (R e)) : Inv none ((W.setState c (.calling e (some x) k)).wake c) P n tasks := by
  have hover : W.isOver c = false := by rw [World.isOver, hs]; rfl
  have hcoro : ∀ d, ((W.setState c (.calling e (some x) k)).wake c).coro d =
      if d = c then { W.coro c with state := .calling e (some x) k, ready := true } else W.coro d :=
    fun d => by
      by_cases hd : d = c <;> simp [hd]
  have hself := hcoro c
  rw [if_pos rfl] at hself
  have hq : (W.setState c (.calling e (some x) k)).Queue := h.queue.setCoro c rfl
  have hsame := wake_sameElse (W.setState c (.calling e (some x) k)) c
  have hnot : ∀ g, (P.role c).kind ≠ .timer g := fun g hk => by
    cases h.members c hover with
    | task hk' => rw [hk] at hk'; cases hk'
    | block hk' => rw [hk] at hk'; cases hk'
    | timer _ _ _ hp =>
      cases hp with
      | starting hs' | sleeping hs' | running hs' => rw [hs] at hs'; cases hs'
  obtain ⟨hu, hb⟩ := (h.members c hover).user hnot
  obtain ⟨q, hk, hsh, hr, hact, hscope⟩ : ∃ q, (k = fun x => (P.role c).kind.code c (q x)) ∧
      (W.coro c).shielded = false ∧ (P.role c).rest = .call e q ∧ P.active (W.coro c).owner = c ∧
      (P.role c).scope = none := by
    cases hu.place with
    | starting hs' | running hs' => rw [hs] at hs'; cases hs'
    | calling hs' hsh _ hr hact hscope =>
      rw [hs] at hs'
      cases hs'
      exact ⟨_, rfl, hsh, hr, hact, hscope⟩
    | waiting _ hp ho =>
      cases hp ▸ ho.waits with
      | first hs' | second hs' | awake hs' => rw [hs] at hs'; cases hs'
  refine h.act hover (fun g ho => ho.parent_ne hscope)
    ⟨fun d hd => by rw [hcoro, if_neg hd], hsame.group, hsame.groups, hsame.coroId, hsame.aborted⟩
    (hq.wake c) ⟨?_, by rw [hself], by rw [hself], rfl, rfl, rfl⟩ (fun _ _ => rfl) rfl
    rfl (by simp) (fun i hi => by rw [hsame.log]; exact h.log i hi) fun hopen => ?_
  · rw [hover, World.isOver, hself]
    rfl
  · refine User.member ⟨by rw [hself]; exact hu.came, ?_⟩ hnot fun g hg =>
      ⟨hopen g (hb g hg).1, (hb g hg).2⟩
    exact .calling (by rw [hself, hk]) (by rw [hself]; exact hsh) (fun _ => by rw [hself]) hr
      (by rw [hself]; exact hact) hscope

/-- The time of a timer is over. -/
theorem Inv.expired {c : Nat} (h : Inv none W P n tasks) {k : Except Raise Unit → Code E R (Option V)}
    (hs : (W.coro c).state = .sleeping k) : Inv none (W.wake c) P n tasks := by
  have hover : W.isOver c = false := by rw [World.isOver, hs]; rfl
  have hsame := wake_sameElse W c
  have hcoro : (W.wake c).coro c = { W.coro c with ready := true } := by rw [wake_coro, if_pos rfl]
  refine h.requeued (h.lt_coroId hover) (fun g ho he => ?_)
    ⟨fun d hd => by rw [wake_coro, if_neg hd], hsame.group, hsame.groups, hsame.coroId, hsame.aborted⟩
    hcoro hsame.log (h.queue.wake c) fun hopen _ => ?_
  swap
  · refine (h.members c hover).frame ?_ (fun _ => by rw [hcoro]) rfl id (by simp) (fun _ _ => rfl)
      fun g ho _ => ⟨hopen g ho, by rw [hsame.group]⟩
    constructor <;> rw [hcoro]
    exact id
  cases he ▸ ho.waits with
  | first hs' | second hs' | awake hs' => rw [hs] at hs'; cases hs'

/-- A task is cancelled by whoever started it. -/
theorem Inv.interrupted {c : Nat} (h : Inv none W P n tasks) (hc : c < n) :
    Inv none (W.cancel c) P n tasks := by
  have hsame := cancel_sameElse W c
  have hk := (h.task c hc).1
  have hstays : ∀ d, Stays W (W.cancel c) d := fun d => by
    rw [Stays, cancel_coro]
    split
    · rename_i hd
      exact Or.inr (by rw [hd])
    · exact Or.inl rfl
  have hrest : ∀ d, (P.role d).kind ≠ .task → SameTask W (W.cancel c) P P d := fun d hd =>
    .of_eq (by rw [cancel_coro, if_neg (by rintro rfl; exact hd hk)]) rfl
  have hopen : ∀ g, Open none W P g → Open none (W.cancel c) P g := fun g ho =>
    ho.frame (by rw [hsame.group]) (Nat.le_of_eq hsame.groups.symm) (Nat.le_of_eq hsame.coroId.symm) rfl
      (hstays _) rfl (by simp) id (hrest _ (by rw [ho.block]; simp)) fun t ht =>
        hrest t (by rw [(ho.timer t ht).1]; simp)
  refine h.change hsame.aborted (h.queue.cancel c) (Nat.le_of_eq hsame.coroId.symm) (fun d hd => ?_)
    (fun i _ _ => ?_) (fun i hi => ?_) (fun i hi => ?_) (fun _ hd => hd) fun d hd => ?_
  · rw [hsame.coroId] at hd
    have hlt := h.count
    rw [cancel_coro, if_neg (by omega)]
  · exact ⟨(hstays i).isOver, (hstays i).owner, rfl, rfl, rfl, fun _ => ⟨(hstays i).kept, rfl, id⟩⟩
  · rw [(hstays _).owner, hsame.coroId]
    exact h.acts i hi
  · rw [hsame.log, h.log i hi]
  · rw [(hstays d).isOver] at hd
    exact (h.members d hd).stays (hstays d) rfl id (by simp) (fun _ _ => rfl) fun g ho _ =>
      ⟨hopen g ho, by rw [hsame.group]⟩

/-- **Every step keeps the invariant.** -/
theorem Inv.step (h : Inv none W P n tasks) (hs : Step n W W') : ∃ P', Inv none W' P' n tasks := by
  cases hs with
  | turn => exact h.turn
  | complete c x hs => exact ⟨P, h.completed hs x⟩
  | expire c hs => exact ⟨P, h.expired hs⟩
  | interrupt hc => exact ⟨P, h.interrupted hc⟩

end Schedule

/-! ## 4. Every run -/

section Runs

variable {n : Nat} {tasks : Nat → Routine E R V}
  {instant : Nat → (e : E) → Option (Except String (R e))} {W : World E R (Option V)}

/-- The plan of tasks that are about to start. -/
def Plan.start (n : Nat) (tasks : Nat → Routine E R V) : Plan E R V where
  role c := ⟨if c < n then .task else .timer 0, tasks c, [], [], tasks c, none⟩
  span _ := ⟨0, 0, none, fun _ => .ret (.error .cancelled)⟩
  active := id

theorem start_inv : Inv none (World.start n tasks instant) (Plan.start n tasks) n tasks where
  goes := rfl
  queue := by
    refine ⟨fun c => ?_, List.nodup_range⟩
    simp [World.start]
  fresh c hc := by
    have hc' : ¬ c < n := Nat.not_lt_of_le hc
    simp [World.start, World.isOver, hc', CoroState.isOver]
  count := Nat.le_refl n
  task i hi := ⟨if_pos hi, rfl, rfl, rfl⟩
  ended i hi hov := by
    simp [World.start, World.isOver, hi, CoroState.isOver] at hov
  acts i hi := ⟨hi, rfl⟩
  log i _ := rfl
  kinds c hk := by
    by_contra hn
    simp [Plan.start, hn] at hk
  members c hc := by
    have hlt : c < n := by
      by_contra hn
      simp [World.start, World.isOver, hn, CoroState.isOver] at hc
    have hk : ((Plan.start n tasks).role c).kind = .task := if_pos hlt
    refine .task hk ⟨.refl _ _, .starting ?_ rfl (by simp [World.start, hlt]) rfl rfl rfl rfl
      fun g hg => ?_⟩
    · simp only [World.start, hlt, if_true, Plan.code, hk]
      rfl
    · rw [hk] at hg
      cases hg

/-- `W` is reached in a run of the tasks. -/
def Reached (n : Nat) (tasks : Nat → Routine E R V)
    (instant : Nat → (e : E) → Option (Except String (R e))) (W : World E R (Option V)) : Prop :=
  Relation.ReflTransGen (Step n) (World.start n tasks instant) W

theorem Reached.inv (h : Reached n tasks instant W) : ∃ P, Inv none W P n tasks := by
  induction h with
  | refl => exact ⟨_, start_inv⟩
  | tail _ hs ih =>
    obtain ⟨P, hP⟩ := ih
    exact hP.step hs

theorem Reached.turns (h : Reached n tasks instant W) (k : Nat) :
    Reached n tasks instant (World.turn^[k] W) := by
  induction k generalizing W with
  | zero => exact h
  | succ k ih =>
    obtain ⟨P, hP⟩ := h.inv
    rw [Function.iterate_succ_apply]
    exact ih (h.tail (.turn W hP.goes))

/-- `reschedule` is steps of a run. -/
theorem Reached.reschedule (h : Reached n tasks instant W) : Reached n tasks instant W.reschedule :=
  h.turns _

/-- A task with a block that makes a call; its value is the value of the call, or -1. -/
def timedCall : Nat → Routine Nat (fun _ => Int) Int := fun _ =>
  .withTimeoutOpt 5 (.call 3 .ret) fun
    | .ok (some v) => .ret (.ok v)
    | .ok none => .ret (.ok (-1))
    | .error err => .ret (.error err)

/-- The task waits for its block, the block for a reply and the timer for its time. -/
def timedWorld : World Nat (fun _ => Int) (Option Int) :=
  World.turn^[3] (World.start 1 timedCall fun _ _ => none)

theorem reached_timed : Reached 1 timedCall (fun _ _ => none) timedWorld :=
  Reached.turns .refl 3

/-- The time is over before the reply comes. -/
def expiredWorld : World Nat (fun _ => Int) (Option Int) := World.turn^[4] (timedWorld.wake 2)

theorem reached_expired : Reached 1 timedCall (fun _ _ => none) expiredWorld :=
  Reached.turns (reached_timed.tail (.expire timedWorld 2 rfl)) 4

/-- **Tasks under any schedule**: no check of the runtime fails, and a task that has ended has made
    the calls of a run from its beginning to its end; calls of it were cancelled from outside only if
    the task was. -/
theorem tasks_end (h : Reached n tasks instant W) :
    W.aborted = false ∧ ∀ i < n, W.isOver i = true → ∃ r : Except Raise V,
      (W.coro i).state = ending (r.map fun _ => ()) ∧
        Ends (W.coro i).cancelled (tasks i) (W.log i) r := by
  obtain ⟨P, hP⟩ := h.inv
  refine ⟨hP.goes, fun i hi hov => ?_⟩
  obtain ⟨hact, r, hr, hends⟩ := hP.ended i hi hov
  refine ⟨r, hr, ?_⟩
  rw [hP.log i hi, hact, (hP.task i hi).2.2.1]
  exact hends _ id

/-- The call of the block was cancelled by the timer; the task was not. -/
theorem tasks_end_expired : expiredWorld.aborted = false ∧ ∃ r : Except Raise Int,
    (expiredWorld.coro 0).state = ending (r.map fun _ => ()) ∧
      Ends (expiredWorld.coro 0).cancelled (timedCall 0) (expiredWorld.log 0) r :=
  ⟨(tasks_end reached_expired).1, (tasks_end reached_expired).2 0 (by decide) (by decide)⟩

example : (expiredWorld.coro 0).cancelled = false ∧
    expiredWorld.log 0 = [⟨3, .error .cancelled⟩] := by decide

/-- The coroutine `c` is in the queue, or waits for an event. -/
def World.Pending {X : Type} (W : World E R X) (c : Nat) : Prop :=
  (W.coro c).ready = true ∨ (∃ e k, (W.coro c).state = .calling e none k) ∨
    ∃ k, (W.coro c).state = .sleeping k

theorem TimerPlace.pending {g c : Nat} (h : TimerPlace none W g c) : W.Pending c := by
  cases h with
  | starting _ _ hready => exact Or.inl hready
  | sleeping hs => exact Or.inr (Or.inr ⟨_, hs⟩)
  | running _ hrun => cases hrun

section Pending

variable {P : Plan E R V} (h : Inv none W P n tasks)

include h

/-- A parent that is not in the queue waits for a timer, or for a coroutine that was made later. -/
theorem Inv.parentWaits {c g : Nat} (ho : Open none W P g) (hp : (W.group g).parent = c) :
    (∃ d, W.Pending d) ∨ ∃ d, c < d ∧ W.isOver d = false := by
  by_cases hn : (W.group g).children = []
  · refine Or.inl ⟨c, Or.inl ?_⟩
    cases hp ▸ ho.waits with
    | first _ _ _ he => exact he hn
    | second _ _ hr => exact hr.mpr hn
    | awake _ hrun => cases hrun
  · obtain ⟨d, hd⟩ := List.exists_mem_of_ne_nil _ hn
    obtain ⟨rfl | ht, hover⟩ := (ho.mem d).mp hd
    · exact Or.inr ⟨_, hp ▸ ho.later.1, hover⟩
    · refine Or.inl ⟨d, ?_⟩
      have hk := (ho.timer d ht).1
      cases h.members d hover with
      | task hk' => rw [hk] at hk'; cases hk'
      | block hk' => rw [hk] at hk'; cases hk'
      | timer _ _ _ hpl => exact hpl.pending

theorem Inv.userWaits {c : Nat} (hu : User none W P c) :
    (∃ d, W.Pending d) ∨ ∃ d, c < d ∧ W.isOver d = false := by
  cases hu.place with
  | starting _ _ hready => exact Or.inl ⟨c, Or.inl hready⟩
  | @calling e reply q hs _ hready =>
    cases reply with
    | none => exact Or.inl ⟨c, Or.inr (Or.inl ⟨e, _, hs⟩)⟩
    | some x => exact Or.inl ⟨c, Or.inl (hready rfl)⟩
  | running _ hrun => cases hrun
  | waiting _ hp ho => exact h.parentWaits ho hp

end Pending

/-- Who waits for somebody that was made later waits at last for somebody that is pending. -/
theorem Inv.pending {P : Plan E R V} (h : Inv none W P n tasks) {c : Nat} (hover : W.isOver c = false) :
    ∃ d, W.Pending d := by
  have hwaits : (∃ d, W.Pending d) ∨ ∃ d, c < d ∧ W.isOver d = false := by
    cases h.members c hover with
    | task _ hu => exact h.userWaits hu
    | block _ _ _ hu => exact h.userWaits hu
    | timer _ _ _ hp => exact Or.inl ⟨c, hp.pending⟩
  rcases hwaits with hd | ⟨d, hcd, hd⟩
  · exact hd
  · have hlt := h.lt_coroId hd
    exact h.pending hd
termination_by W.coroId - c

/-- A task or a block that has not ended runs for a task that has not ended. -/
theorem Inv.rooted {P : Plan E R V} (h : Inv none W P n tasks) {c : Nat} (hover : W.isOver c = false)
    (hk : ∀ g, (P.role c).kind ≠ .timer g) : ∃ i < n, W.isOver i = false := by
  cases h.members c hover with
  | task hk' => exact ⟨c, h.kinds c hk', hover⟩
  | @block g _ ho hb =>
    have hlt : (W.group g).parent < c := hb ▸ ho.later.1
    exact h.rooted ho.waits.notOver ho.parent
  | timer hk' => exact absurd hk' (hk _)
termination_by c

/-- **No deadlock**: as long as a coroutine has not ended, one is in the queue or waits for an
    event. -/
theorem never_deadlocked (h : Reached n tasks instant W) (hover : ∃ c, W.isOver c = false) :
    ∃ c, W.Pending c := by
  obtain ⟨P, hP⟩ := h.inv
  obtain ⟨c, hc⟩ := hover
  exact hP.pending hc

theorem never_deadlocked_timed : ∃ c, timedWorld.Pending c :=
  never_deadlocked reached_timed ⟨0, by decide⟩

/-- **Nothing is left over**: a coroutine that has not ended is a task, or in a group whose parent
    has not ended; where all tasks have ended there is none. -/
theorem tasks_scoped (h : Reached n tasks instant W) {c : Nat} (hover : W.isOver c = false) :
    (c < n ∨ ∃ g, c ∈ (W.group g).children ∧ W.isOver (W.group g).parent = false) ∧
      ∃ i < n, W.isOver i = false := by
  obtain ⟨P, hP⟩ := h.inv
  cases hP.members c hover with
  | task hk => exact ⟨Or.inl (hP.kinds c hk), c, hP.kinds c hk, hover⟩
  | @block g _ ho hb =>
    exact ⟨Or.inr ⟨g, (ho.mem c).mpr ⟨Or.inl hb.symm, hover⟩, ho.waits.notOver⟩,
      hP.rooted ho.waits.notOver ho.parent⟩
  | @timer g _ ho ht =>
    exact ⟨Or.inr ⟨g, (ho.mem c).mpr ⟨Or.inr ht, hover⟩, ho.waits.notOver⟩,
      hP.rooted ho.waits.notOver ho.parent⟩

/-- The timer is in a group whose parent waits. -/
theorem tasks_scoped_timed :
    (2 < 1 ∨ ∃ g, 2 ∈ (timedWorld.group g).children ∧
      timedWorld.isOver (timedWorld.group g).parent = false) ∧ ∃ i < 1, timedWorld.isOver i = false :=
  tasks_scoped reached_timed (by decide)

end Runs

end MoonS7.Async
