import Mathlib.Tactic.Common
import Mathlib.Data.List.Basic

/-!
# Programs that talk to an environment

A program is a finite tree: it returns, or it makes one call and goes on with the reply. What
the calls do is left to whoever runs it:

* `run` -- a deterministic environment, a function from a call and a state to a reply and a state;
* `Exec` -- an environment that may choose, a step relation on states;
* `Follows` -- no environment at all, the calls and whatever replies they get;
* `interp` -- every call replaced by a program over other calls (which may be interrupted);
* `watch` -- calls with replies that tell more than the program hears.

`exec_run_iff` and `exec_iff_path` relate the first three; `exec_interp_iff` and `run_interp` say
that a program does the same when its calls are spelt out.
-/

namespace Interaction

/-- A program with calls from `E`, where the call `e` is answered by an `R e`. -/
inductive Prog (E : Type) (R : E → Type) (α : Type) : Type where
  | ret (a : α) : Prog E R α
  | ask (e : E) (k : R e → Prog E R α) : Prog E R α

variable {E E' : Type} {R : E → Type} {R' : E' → Type} {α β σ τ ε ι : Type}

/-! ## 1. Sequencing -/

def Prog.bind : Prog E R α → (α → Prog E R β) → Prog E R β
  | .ret a, f => f a
  | .ask e k, f => .ask e fun r => (k r).bind f

instance : Monad (Prog E R) where
  pure := .ret
  bind := Prog.bind

@[simp] theorem ret_bind (a : α) (f : α → Prog E R β) : (Prog.ret a >>= f) = f a := rfl

@[simp] theorem ask_bind (e : E) (k : R e → Prog E R α) (f : α → Prog E R β) :
    (Prog.ask e k >>= f) = .ask e fun r => k r >>= f := rfl

theorem bind_ret (p : Prog E R α) : (p >>= Prog.ret) = p := by
  induction p with
  | ret a => rfl
  | ask e k ih =>
    rw [ask_bind]
    congr 1
    funext r
    exact ih r

theorem bind_assoc' {γ : Type} (p : Prog E R α) (f : α → Prog E R β) (g : β → Prog E R γ) :
    (p >>= f >>= g) = p >>= fun a => f a >>= g := by
  induction p with
  | ret a => rfl
  | ask e k ih =>
    simp only [ask_bind]
    congr 1
    funext r
    exact ih r

instance : LawfulMonad (Prog E R) :=
  LawfulMonad.mk' (Prog E R) bind_ret (fun _ _ => rfl) bind_assoc'

/-- A program that may stop early with an error. -/
abbrev Op (E : Type) (R : E → Type) (ε α : Type) : Type := ExceptT ε (Prog E R) α

/-- A value or an error computed without any call. -/
def ofResult (x : Except ε α) : Op E R ε α := ExceptT.mk (.ret x)

@[simp] theorem ofResult_run (x : Except ε α) : (ofResult x : Op E R ε α).run = .ret x := rfl

theorem ofResult_ok_bind (a : α) (f : α → Op E R ε β) : (ofResult (.ok a) >>= f) = f a := rfl

theorem ofResult_error_bind (e : ε) (f : α → Op E R ε β) :
    ((ofResult (.error e) : Op E R ε α) >>= f) = ofResult (.error e) := rfl

theorem op_bind_run (x : Op E R ε α) (f : α → Op E R ε β) :
    (x >>= f).run = x.run >>= fun
      | .ok a => (f a).run
      | .error e => .ret (.error e) := by
  rw [ExceptT.run_bind]
  congr 1
  funext r
  cases r <;> rfl

/-! ## 2. Deterministic environments -/

/-- The run of a program against the environment `h`. -/
def run (h : (e : E) → σ → R e × σ) : Prog E R α → σ → α × σ
  | .ret a, s => (a, s)
  | .ask e k, s => run h (k (h e s).1) (h e s).2

section Run

variable (h : (e : E) → σ → R e × σ)

@[simp] theorem run_ret (a : α) (s : σ) : run h (.ret a) s = (a, s) := rfl

@[simp] theorem run_ask (e : E) (k : R e → Prog E R α) (s : σ) :
    run h (.ask e k) s = run h (k (h e s).1) (h e s).2 := rfl

theorem run_bind (p : Prog E R α) (f : α → Prog E R β) (s : σ) :
    run h (p >>= f) s = run h (f (run h p s).1) (run h p s).2 := by
  induction p generalizing s with
  | ret a => rfl
  | ask e k ih => exact ih _ _

/-- Once the first part has returned `a`, the rest runs from where it left the environment. -/
theorem run_op_ok {x : Op E R ε α} {a : α} {s s' : σ} (hx : run h x.run s = (.ok a, s'))
    (f : α → Op E R ε β) : run h (x >>= f).run s = run h (f a).run s' := by
  rw [op_bind_run, run_bind, hx]

/-- Once the first part has stopped with `e`, so has the whole. -/
theorem run_op_error {x : Op E R ε α} {e : ε} {s s' : σ} (hx : run h x.run s = (.error e, s'))
    (f : α → Op E R ε β) : run h (x >>= f).run s = (.error e, s') := by
  rw [op_bind_run, run_bind, hx]
  rfl

end Run

/-! ## 3. Environments that choose -/

/-- `Exec step p s a s'`: against an environment that steps by `step`, the program `p` started in
    `s` may return `a` and leave the environment in `s'`. -/
inductive Exec (step : (e : E) → σ → R e → σ → Prop) : Prog E R α → σ → α → σ → Prop where
  | ret (a : α) (s : σ) : Exec step (.ret a) s a s
  | ask {e : E} {k : R e → Prog E R α} {s s' s'' : σ} {r : R e} {a : α}
      (hs : step e s r s') (hk : Exec step (k r) s' a s'') : Exec step (.ask e k) s a s''

section Exec

variable {step : (e : E) → σ → R e → σ → Prop}

theorem exec_ret_iff {a b : α} {s s' : σ} :
    Exec step (.ret a) s b s' ↔ b = a ∧ s' = s := by
  constructor
  · intro h
    cases h
    exact ⟨rfl, rfl⟩
  · rintro ⟨rfl, rfl⟩
    exact .ret _ _

theorem exec_ask_iff {e : E} {k : R e → Prog E R α} {a : α} {s s'' : σ} :
    Exec step (.ask e k) s a s'' ↔ ∃ r s', step e s r s' ∧ Exec step (k r) s' a s'' := by
  constructor
  · intro h
    cases h with
    | ask hs hk => exact ⟨_, _, hs, hk⟩
  · rintro ⟨r, s', hs, hk⟩
    exact .ask hs hk

theorem exec_bind_iff {p : Prog E R α} {f : α → Prog E R β} {b : β} {s s'' : σ} :
    Exec step (p >>= f) s b s'' ↔ ∃ a s', Exec step p s a s' ∧ Exec step (f a) s' b s'' := by
  induction p generalizing s with
  | ret a =>
    simp only [ret_bind, exec_ret_iff]
    constructor
    · exact fun h => ⟨a, s, ⟨rfl, rfl⟩, h⟩
    · rintro ⟨_, _, ⟨rfl, rfl⟩, h⟩
      exact h
  | ask e k ih =>
    simp only [ask_bind, exec_ask_iff, ih]
    constructor
    · rintro ⟨r, s₁, hs, a, s₂, h₁, h₂⟩
      exact ⟨a, s₂, ⟨r, s₁, hs, h₁⟩, h₂⟩
    · rintro ⟨a, s₂, ⟨r, s₁, hs, h₁⟩, h₂⟩
      exact ⟨r, s₁, hs, a, s₂, h₁, h₂⟩

/-- A sequence either stops with the error of its first part, or goes on after it. -/
theorem exec_op_bind_iff {x : Op E R ε α} {f : α → Op E R ε β} {b : Except ε β} {s s'' : σ} :
    Exec step (x >>= f).run s b s'' ↔
      (∃ e, Exec step x.run s (.error e) s'' ∧ b = .error e) ∨
      ∃ a s', Exec step x.run s (.ok a) s' ∧ Exec step (f a).run s' b s'' := by
  rw [op_bind_run, exec_bind_iff]
  constructor
  · rintro ⟨r, s', h₁, h₂⟩
    cases r with
    | ok a => exact Or.inr ⟨a, s', h₁, h₂⟩
    | error e =>
      obtain ⟨rfl, rfl⟩ := exec_ret_iff.mp h₂
      exact Or.inl ⟨e, h₁, rfl⟩
  · rintro (⟨e, h₁, rfl⟩ | ⟨a, s', h₁, h₂⟩)
    · exact ⟨.error e, s'', h₁, .ret _ _⟩
    · exact ⟨.ok a, s', h₁, h₂⟩

/-- **The invariant rule**: what every call preserves, every run preserves. -/
theorem Exec.invariant {I : σ → Prop} (hI : ∀ e s r s', I s → step e s r s' → I s')
    {p : Prog E R α} {s s' : σ} {a : α} (h : Exec step p s a s') (h0 : I s) : I s' := by
  induction h with
  | ret => exact h0
  | ask hs _ ih => exact ih (hI _ _ _ _ h0 hs)

theorem Exec.mono {step' : (e : E) → σ → R e → σ → Prop}
    (hm : ∀ e s r s', step e s r s' → step' e s r s')
    {p : Prog E R α} {s s' : σ} {a : α} (h : Exec step p s a s') : Exec step' p s a s' := by
  induction h with
  | ret => exact .ret _ _
  | ask hs _ ih => exact .ask (hm _ _ _ _ hs) ih

/-- **A deterministic environment is one that never has a choice.** -/
theorem exec_run_iff {h : (e : E) → σ → R e × σ} {p : Prog E R α} {s s' : σ} {a : α} :
    Exec (fun e s r s' => h e s = (r, s')) p s a s' ↔ run h p s = (a, s') := by
  induction p generalizing s with
  | ret b =>
    rw [exec_ret_iff, run_ret, Prod.mk.injEq]
    exact ⟨fun ⟨h₁, h₂⟩ => ⟨h₁.symm, h₂.symm⟩, fun ⟨h₁, h₂⟩ => ⟨h₁.symm, h₂.symm⟩⟩
  | ask e k ih =>
    rw [exec_ask_iff, run_ask]
    constructor
    · rintro ⟨r, s₁, hs, hk⟩
      rw [hs]
      exact (ih r).mp hk
    · exact fun hr => ⟨_, _, rfl, (ih _).mpr hr⟩

end Exec

/-! ## 4. Traces -/

/-- `Follows p tr a`: the calls of `p` and the replies to them may be `tr`, and `p` returns `a`
    on these replies. No environment is fixed: every reply is possible. -/
inductive Follows : Prog E R α → List (Σ e, R e) → α → Prop where
  | ret (a : α) : Follows (.ret a) [] a
  | ask {e : E} {k : R e → Prog E R α} {r : R e} {tr : List (Σ e, R e)} {a : α}
      (hk : Follows (k r) tr a) : Follows (.ask e k) (⟨e, r⟩ :: tr) a

/-- The environment steps through the calls and replies of a trace. -/
inductive Path (step : (e : E) → σ → R e → σ → Prop) : σ → List (Σ e, R e) → σ → Prop where
  | nil (s : σ) : Path step s [] s
  | cons {e : E} {s s' s'' : σ} {r : R e} {tr : List (Σ e, R e)}
      (hs : step e s r s') (hp : Path step s' tr s'') : Path step s (⟨e, r⟩ :: tr) s''

section Trace

theorem follows_ret_iff {a b : α} {tr : List (Σ e, R e)} :
    Follows (.ret a) tr b ↔ b = a ∧ tr = [] := by
  constructor
  · intro h
    cases h
    exact ⟨rfl, rfl⟩
  · rintro ⟨rfl, rfl⟩
    exact .ret _

theorem follows_ask_iff {e : E} {k : R e → Prog E R α} {a : α} {tr : List (Σ e, R e)} :
    Follows (.ask e k) tr a ↔ ∃ r tr', tr = ⟨e, r⟩ :: tr' ∧ Follows (k r) tr' a := by
  constructor
  · intro h
    cases h with
    | ask hk => exact ⟨_, _, rfl, hk⟩
  · rintro ⟨r, tr', rfl, hk⟩
    exact .ask hk

/-- A single call. -/
theorem follows_call_iff {e : E} {f : R e → α} {a : α} {tr : List (Σ e, R e)} :
    Follows (.ask e fun r => .ret (f r)) tr a ↔ ∃ r, tr = [⟨e, r⟩] ∧ a = f r := by
  rw [follows_ask_iff]
  constructor
  · rintro ⟨r, _, rfl, h⟩
    obtain ⟨rfl, rfl⟩ := follows_ret_iff.mp h
    exact ⟨r, rfl, rfl⟩
  · rintro ⟨r, rfl, rfl⟩
    exact ⟨r, [], rfl, .ret _⟩

theorem follows_bind_iff {p : Prog E R α} {f : α → Prog E R β} {b : β} {tr : List (Σ e, R e)} :
    Follows (p >>= f) tr b ↔
      ∃ a tr₁ tr₂, tr = tr₁ ++ tr₂ ∧ Follows p tr₁ a ∧ Follows (f a) tr₂ b := by
  induction p generalizing tr with
  | ret a =>
    simp only [ret_bind, follows_ret_iff]
    constructor
    · exact fun h => ⟨a, [], tr, rfl, ⟨rfl, rfl⟩, h⟩
    · rintro ⟨_, _, tr₂, rfl, ⟨rfl, rfl⟩, h⟩
      exact h
  | ask e k ih =>
    simp only [ask_bind, follows_ask_iff, ih]
    constructor
    · rintro ⟨r, _, rfl, a, tr₁, tr₂, rfl, h₁, h₂⟩
      exact ⟨a, ⟨e, r⟩ :: tr₁, tr₂, rfl, ⟨r, tr₁, rfl, h₁⟩, h₂⟩
    · rintro ⟨a, _, tr₂, rfl, ⟨r, tr₁, rfl, h₁⟩, h₂⟩
      exact ⟨r, tr₁ ++ tr₂, rfl, a, tr₁, tr₂, rfl, h₁, h₂⟩

/-- A sequence either stops with the error of its first part, or goes on after it. -/
theorem follows_op_bind_iff {x : Op E R ε α} {f : α → Op E R ε β} {b : Except ε β}
    {tr : List (Σ e, R e)} :
    Follows (x >>= f).run tr b ↔
      (∃ e, Follows x.run tr (.error e) ∧ b = .error e) ∨
      ∃ a tr₁ tr₂, tr = tr₁ ++ tr₂ ∧ Follows x.run tr₁ (.ok a) ∧ Follows (f a).run tr₂ b := by
  rw [op_bind_run, follows_bind_iff]
  constructor
  · rintro ⟨r, tr₁, tr₂, rfl, h₁, h₂⟩
    cases r with
    | ok a => exact Or.inr ⟨a, tr₁, tr₂, rfl, h₁, h₂⟩
    | error e =>
      obtain ⟨rfl, rfl⟩ := follows_ret_iff.mp h₂
      exact Or.inl ⟨e, by rwa [List.append_nil], rfl⟩
  · rintro (⟨e, h₁, rfl⟩ | ⟨a, tr₁, tr₂, rfl, h₁, h₂⟩)
    · exact ⟨.error e, tr, [], by rw [List.append_nil], h₁, .ret _⟩
    · exact ⟨.ok a, tr₁, tr₂, rfl, h₁, h₂⟩

/-- What a program returns is decided by its trace. -/
theorem Follows.unique {p : Prog E R α} {tr : List (Σ e, R e)} {a b : α} (h : Follows p tr a)
    (h' : Follows p tr b) : a = b := by
  induction h with
  | ret a =>
    cases h'
    rfl
  | ask _ ih =>
    cases h' with
    | ask h' => exact ih h'

theorem path_cons_iff {step : (e : E) → σ → R e → σ → Prop} {e : E} {r : R e}
    {tr : List (Σ e, R e)} {s s'' : σ} :
    Path step s (⟨e, r⟩ :: tr) s'' ↔ ∃ s', step e s r s' ∧ Path step s' tr s'' := by
  constructor
  · intro h
    cases h with
    | cons hs hp => exact ⟨_, hs, hp⟩
  · rintro ⟨s', hs, hp⟩
    exact .cons hs hp

theorem path_append_iff {step : (e : E) → σ → R e → σ → Prop} {tr tr' : List (Σ e, R e)}
    {s s'' : σ} :
    Path step s (tr ++ tr') s'' ↔ ∃ s', Path step s tr s' ∧ Path step s' tr' s'' := by
  induction tr generalizing s with
  | nil =>
    refine ⟨fun h => ⟨s, .nil s, h⟩, ?_⟩
    rintro ⟨s', h, h'⟩
    cases h
    exact h'
  | cons ev tr ih =>
    obtain ⟨e, r⟩ := ev
    rw [List.cons_append, path_cons_iff]
    constructor
    · rintro ⟨s₁, hs, hp⟩
      obtain ⟨s', h, h'⟩ := ih.mp hp
      exact ⟨s', .cons hs h, h'⟩
    · rintro ⟨s', h, h'⟩
      obtain ⟨s₁, hs, hp⟩ := path_cons_iff.mp h
      exact ⟨s₁, hs, ih.mpr ⟨s', hp, h'⟩⟩

/-- A program with a last step that makes no call has the traces of the program. -/
theorem follows_map_iff {p : Prog E R α} {f : α → β} {b : β} {tr : List (Σ e, R e)} :
    Follows (p >>= fun a => .ret (f a)) tr b ↔ ∃ a, Follows p tr a ∧ b = f a := by
  rw [follows_bind_iff]
  constructor
  · rintro ⟨a, tr₁, tr₂, rfl, h₁, h₂⟩
    obtain ⟨rfl, rfl⟩ := follows_ret_iff.mp h₂
    exact ⟨a, by rwa [List.append_nil], rfl⟩
  · rintro ⟨a, h, rfl⟩
    exact ⟨a, tr, [], (List.append_nil _).symm, h, .ret _⟩

theorem follows_ofResult_iff {x : Op E R ε α} {f : α → Except ε β} {b : Except ε β}
    {tr : List (Σ e, R e)} :
    Follows (x >>= fun a => ofResult (f a)).run tr b ↔
      ∃ y, Follows x.run tr y ∧ b = y.bind f := by
  rw [follows_op_bind_iff]
  constructor
  · rintro (⟨e, h, rfl⟩ | ⟨a, tr₁, tr₂, rfl, h₁, h₂⟩)
    · exact ⟨_, h, rfl⟩
    · obtain ⟨rfl, rfl⟩ := follows_ret_iff.mp h₂
      exact ⟨_, by rwa [List.append_nil], rfl⟩
  · rintro ⟨y, h, rfl⟩
    cases y with
    | ok a => exact Or.inr ⟨a, tr, [], (List.append_nil _).symm, h, .ret _⟩
    | error e => exact Or.inl ⟨e, h, rfl⟩

theorem follows_return_iff {x : Op E R ε α} {f : α → β} {b : Except ε β} {tr : List (Σ e, R e)} :
    Follows (x >>= fun a => return f a).run tr b ↔ ∃ y, Follows x.run tr y ∧ b = y.map f := by
  show Follows (x >>= fun a => ofResult (.ok (f a))).run tr b ↔ _
  rw [follows_ofResult_iff]
  refine exists_congr fun y => and_congr_right fun _ => ?_
  cases y <;> rfl

/-- **A run is a trace of the program along which the environment steps.** -/
theorem exec_iff_path {step : (e : E) → σ → R e → σ → Prop} {p : Prog E R α} {s s' : σ} {a : α} :
    Exec step p s a s' ↔ ∃ tr, Follows p tr a ∧ Path step s tr s' := by
  constructor
  · intro h
    induction h with
    | ret a s => exact ⟨[], .ret a, .nil s⟩
    | ask hs _ ih =>
      obtain ⟨tr, hf, hp⟩ := ih
      exact ⟨_, .ask hf, .cons hs hp⟩
  · rintro ⟨tr, hf, hp⟩
    induction hf generalizing s with
    | ret a =>
      cases hp
      exact .ret _ _
    | ask hk ih =>
      cases hp with
      | cons hs hp => exact .ask hs (ih hp)

end Trace

/-! ## 5. Calls spelt out as programs -/

/-- The program `p` with every call `e` replaced by the program `h e` over other calls, which may
    be interrupted by an `ι`: then the whole program is. -/
def interp (h : (e : E) → Op E' R' ι (R e)) : Prog E R α → Op E' R' ι α
  | .ret a => pure a
  | .ask e k => h e >>= fun r => interp h (k r)

/-- **An uninterrupted run of the spelt-out program is a run of the program**, each call taking
    the steps of its own program. -/
theorem exec_interp_iff {step : (e : E') → σ → R' e → σ → Prop} {h : (e : E) → Op E' R' ι (R e)}
    {p : Prog E R α} {s s' : σ} {a : α} :
    Exec step (interp h p).run s (.ok a) s' ↔
      Exec (fun e s r s' => Exec step (h e).run s (.ok r) s') p s a s' := by
  induction p generalizing s with
  | ret b =>
    show Exec step (.ret (Except.ok b)) s (Except.ok a) s' ↔ _
    rw [exec_ret_iff, exec_ret_iff, Except.ok.injEq]
  | ask e k ih =>
    rw [exec_ask_iff]
    show Exec step (h e >>= fun r => interp h (k r)).run s (.ok a) s' ↔ _
    rw [exec_op_bind_iff]
    constructor
    · rintro (⟨_, _, hb⟩ | ⟨r, s₁, h₁, h₂⟩)
      · cases hb
      · exact ⟨r, s₁, h₁, (ih r).mp h₂⟩
    · rintro ⟨r, s₁, h₁, h₂⟩
      exact Or.inr ⟨r, s₁, h₁, (ih r).mpr h₂⟩

/-- Every call that a program may make, whatever the replies, is one of `P`. -/
inductive Asks (P : E → Prop) : Prog E R α → Prop where
  | ret (a : α) : Asks P (.ret a)
  | ask {e : E} {k : R e → Prog E R α} (he : P e) (hk : ∀ r, Asks P (k r)) : Asks P (.ask e k)

theorem Asks.mono {P P' : E → Prop} {p : Prog E R α} (h : ∀ e, P e → P' e) (hp : Asks P p) :
    Asks P' p := by
  induction hp with
  | ret a => exact .ret a
  | ask he _ ih => exact .ask (h _ he) ih

theorem Asks.bind {P : E → Prop} {p : Prog E R α} {f : α → Prog E R β} (hp : Asks P p)
    (hf : ∀ a, Asks P (f a)) : Asks P (p >>= f) := by
  induction hp with
  | ret a => exact hf a
  | ask he _ ih => exact .ask he ih

theorem Asks.op_bind {P : E → Prop} {x : Op E R ε α} {f : α → Op E R ε β} (hx : Asks P x.run)
    (hf : ∀ a, Asks P (f a).run) : Asks P (x >>= f).run := by
  rw [op_bind_run]
  refine hx.bind fun r => ?_
  cases r with
  | ok a => exact hf a
  | error e => exact .ret _

/-- Every call of a run is one that the program may make. -/
theorem Asks.follows {P : E → Prop} {p : Prog E R α} (hp : Asks P p) {tr : List (Σ e, R e)} {a : α}
    (h : Follows p tr a) : ∀ ev ∈ tr, P ev.1 := by
  induction h with
  | ret a => nofun
  | @ask e k r tr a _ ih =>
    cases hp with
    | ask he hk =>
      intro ev hev
      rcases List.mem_cons.mp hev with rfl | hev
      · exact he
      · exact ih (hk r) ev hev

/-- **The simulation rule**: where each call of the program, spelt out, answers as the environment
    `f` does and keeps the two states related, the spelt-out program returns what the program
    returns. -/
theorem run_interp {P : E → Prop} {Rel : σ → τ → Prop} {g : (e : E') → σ → R' e × σ}
    {f : (e : E) → τ → R e × τ} {h : (e : E) → Op E' R' ι (R e)}
    (hstep : ∀ e s t, P e → Rel s t →
      ∃ s', run g (h e).run s = (Except.ok (f e t).1, s') ∧ Rel s' (f e t).2)
    {p : Prog E R α} (hp : Asks P p) {s : σ} {t : τ} (hst : Rel s t) :
    ∃ s', run g (interp h p).run s = (Except.ok (run f p t).1, s') ∧ Rel s' (run f p t).2 := by
  induction hp generalizing s t with
  | ret a => exact ⟨s, rfl, hst⟩
  | ask he _ ih =>
    obtain ⟨s₁, hr, hst₁⟩ := hstep _ s t he hst
    obtain ⟨s₂, hk, hst₂⟩ := ih _ hst₁
    exact ⟨s₂, (run_op_ok g hr _).trans hk, hst₂⟩

/-- The simulation rule for an environment that chooses: where it may answer each call of the program
    as `h` does and keep the two states related, a run against `h` is one against it. -/
theorem exec_of_run_asks {P : E → Prop} {Rel : σ → τ → Prop} {h : (e : E) → σ → R e × σ}
    {step : (e : E) → τ → R e → τ → Prop}
    (hstep : ∀ e s t, P e → Rel s t → ∃ t', step e t (h e s).1 t' ∧ Rel (h e s).2 t')
    {p : Prog E R α} (hp : Asks P p) {s : σ} {t : τ} (hst : Rel s t) :
    ∃ t', Exec step p t (run h p s).1 t' ∧ Rel (run h p s).2 t' := by
  induction hp generalizing s t with
  | ret a => exact ⟨t, .ret a t, hst⟩
  | ask he _ ih =>
    obtain ⟨t₁, hs, hst₁⟩ := hstep _ s t he hst
    obtain ⟨t₂, hk, hst₂⟩ := ih _ hst₁
    exact ⟨t₂, .ask hs hk, hst₂⟩

/-- Two environments that answer the calls `P` alike. -/
theorem run_alike {P : E → Prop} {Rel : σ → τ → Prop} {g : (e : E) → σ → R e × σ}
    {f : (e : E) → τ → R e × τ}
    (hstep : ∀ e s t, P e → Rel s t → (g e s).1 = (f e t).1 ∧ Rel (g e s).2 (f e t).2)
    {p : Prog E R α} (hp : Asks P p) {s : σ} {t : τ} (hst : Rel s t) :
    (run g p s).1 = (run f p t).1 ∧ Rel (run g p s).2 (run f p t).2 := by
  induction hp generalizing s t with
  | ret a => exact ⟨rfl, hst⟩
  | ask he _ ih =>
    obtain ⟨hr, hst₁⟩ := hstep _ s t he hst
    rw [run_ask, run_ask, hr]
    exact ih _ hst₁

/-! ## 6. What a program can return -/

/-- Whatever the replies, `p` returns an `a` with `Q a`. -/
def Yields (Q : α → Prop) (p : Prog E R α) : Prop := ∀ tr a, Follows p tr a → Q a

section Yields

theorem yields_ret {Q : α → Prop} {a : α} (h : Q a) : Yields Q (.ret a : Prog E R α) := by
  intro tr b hf
  obtain ⟨rfl, -⟩ := follows_ret_iff.mp hf
  exact h

theorem Yields.mono {Q Q' : α → Prop} {p : Prog E R α} (h : Yields Q p) (hq : ∀ a, Q a → Q' a) :
    Yields Q' p := fun tr a hf => hq a (h tr a hf)

theorem Yields.bind {Q : α → Prop} {Q' : β → Prop} {p : Prog E R α} {f : α → Prog E R β}
    (hp : Yields Q p) (hf : ∀ a, Q a → Yields Q' (f a)) : Yields Q' (p >>= f) := by
  intro tr b hb
  obtain ⟨a, tr₁, tr₂, -, h₁, h₂⟩ := follows_bind_iff.mp hb
  exact hf a (hp tr₁ a h₁) tr₂ b h₂

/-- **The rule for sequences**: what the first part returns is handed on, the error it stops with
    is returned. -/
theorem Yields.op_bind {Q : Except ε α → Prop} {Q' : Except ε β → Prop} {x : Op E R ε α}
    {f : α → Op E R ε β} (hx : Yields Q x.run) (he : ∀ e, Q (.error e) → Q' (.error e))
    (hf : ∀ a, Q (.ok a) → Yields Q' (f a).run) : Yields Q' (x >>= f).run := by
  rw [op_bind_run]
  refine hx.bind fun r hr => ?_
  cases r with
  | ok a => exact hf a hr
  | error e => exact yields_ret (he e hr)

end Yields

/-! ## 7. Calls that tell more than the program hears -/

section Watch

variable {S : E → Type} {ν : Type}

/-- The program `p` where the call `e` is answered by an `S e`: the program hears `f` of the reply,
    and what `note` says of the replies is returned beside its result. -/
def watch (f : (e : E) → S e → R e) (note : (e : E) → S e → List ν) :
    Prog E R α → Prog E S (α × List ν)
  | .ret a => .ret (a, [])
  | .ask e k => .ask e fun r => watch f note (k (f e r)) >>= fun p => .ret (p.1, note e r ++ p.2)

variable {f : (e : E) → S e → R e} {note : (e : E) → S e → List ν}

/-- A trace as the program hears it. -/
def heard (f : (e : E) → S e → R e) (tr : List (Σ e, S e)) : List (Σ e, R e) :=
  tr.map fun ev => ⟨ev.1, f ev.1 ev.2⟩

/-- **A watched program** does what the program does on what it hears, and notes the rest. -/
theorem follows_watch_iff {p : Prog E R α} {tr : List (Σ e, S e)} {x : α × List ν} :
    Follows (watch f note p) tr x ↔
      Follows p (heard f tr) x.1 ∧ x.2 = tr.flatMap fun ev => note ev.1 ev.2 := by
  induction p generalizing tr x with
  | ret a =>
    obtain ⟨b, ns⟩ := x
    rw [watch, follows_ret_iff, follows_ret_iff, heard, List.map_eq_nil_iff, Prod.mk.injEq]
    constructor
    · rintro ⟨⟨rfl, rfl⟩, rfl⟩
      exact ⟨⟨rfl, rfl⟩, rfl⟩
    · rintro ⟨⟨rfl, rfl⟩, hns⟩
      exact ⟨⟨rfl, hns⟩, rfl⟩
  | ask e k ih =>
    rw [watch, follows_ask_iff]
    constructor
    · rintro ⟨r, _, rfl, h⟩
      obtain ⟨y, tr₁, tr₂, rfl, h₁, h₂⟩ := follows_bind_iff.mp h
      obtain ⟨rfl, rfl⟩ := follows_ret_iff.mp h₂
      obtain ⟨hp, hy⟩ := (ih (f e r)).mp h₁
      rw [List.append_nil, List.flatMap_cons]
      exact ⟨.ask hp, by rw [hy]⟩
    · rintro ⟨h, hx⟩
      obtain ⟨r', tr', htr, hk⟩ := follows_ask_iff.mp h
      obtain ⟨⟨e', r⟩, tr, rfl, hev, rfl⟩ := List.map_eq_cons_iff.mp htr
      cases hev
      rw [List.flatMap_cons] at hx
      refine ⟨r, tr, rfl, follows_bind_iff.mpr ⟨(x.1, tr.flatMap fun ev => note ev.1 ev.2),
        tr, [], (List.append_nil _).symm, (ih (f _ r)).mpr ⟨hk, rfl⟩, ?_⟩⟩
      rw [← hx]
      exact .ret _

end Watch

end Interaction
