import MoonS7.Lib.Interaction

/-!
# Operations one after the other

A caller makes operations of which each may fail, looks at what each comes to and goes on
(`series`). An abstract machine has the same operations as steps of its own (`Plays`), which may
leave open what they come to.

Main results: `exec_series`, a series is a run of the abstract machine if each operation is a step
of it; and `run_series`, where the environment and the machine are deterministic.
-/

namespace Interaction

variable {E : Type} {R : E → Type} {O : Type} {Res : O → Type} {α ε δ σ τ : Type}

/-! ## 1. Series -/

/-- The result of a program as a value: whatever it is, the caller goes on. -/
def attempt (p : Op E R ε α) : Op E R δ (Except ε α) := ExceptT.mk (p.run >>= fun x => .ret (.ok x))

/-- The operations with what each came to. -/
abbrev Results (O : Type) (Res : O → Type) (ε : Type) : Type := List (Σ o : O, Except ε (Res o))

def series (prog : (o : O) → Op E R ε (Res o)) : List O → Op E R δ (Results O Res ε)
  | [] => return []
  | o :: os => do
    let x ← attempt (prog o)
    let xs ← series prog os
    return ⟨o, x⟩ :: xs

/-- The runs of an abstract machine with the operations as its steps. -/
inductive Plays (att : (o : O) → τ → Except ε (Res o) → τ → Prop) :
    List O → τ → Results O Res ε → τ → Prop where
  | nil (t : τ) : Plays att [] t [] t
  | cons {o : O} {os : List O} {t t' t'' : τ} {x : Except ε (Res o)} {xs : Results O Res ε}
      (h : att o t x t') (hs : Plays att os t' xs t'') : Plays att (o :: os) t (⟨o, x⟩ :: xs) t''

/-- The run of a deterministic one. -/
def effects (eff : (o : O) → τ → Except ε (Res o) × τ) : List O → τ → Results O Res ε × τ
  | [], t => ([], t)
  | o :: os, t => (⟨o, (eff o t).1⟩ :: (effects eff os (eff o t).2).1, (effects eff os (eff o t).2).2)

theorem plays_effects_iff {eff : (o : O) → τ → Except ε (Res o) × τ} {os : List O} {t t' : τ}
    {xs : Results O Res ε} :
    Plays (fun o t x t' => eff o t = (x, t')) os t xs t' ↔ effects eff os t = (xs, t') := by
  induction os generalizing t xs with
  | nil =>
    constructor
    · intro h
      cases h
      rfl
    · intro h
      cases h
      exact .nil _
  | cons o os ih =>
    constructor
    · intro h
      cases h with
      | cons h hs => simp only [effects, h, ih.mp hs]
    · intro h
      cases h
      exact .cons rfl (ih.mpr rfl)

/-- A run has an entry for each operation. -/
theorem Plays.ops {att : (o : O) → τ → Except ε (Res o) → τ → Prop} {os : List O} {t t' : τ}
    {xs : Results O Res ε} (h : Plays att os t xs t') : xs.map Sigma.fst = os := by
  induction h with
  | nil => rfl
  | cons _ _ ih => rw [List.map_cons, ih]

section Effects

variable {eff : (o : O) → τ → Except ε (Res o) × τ}

theorem effects_append (os os' : List O) (t : τ) :
    effects eff (os ++ os') t = ((effects eff os t).1 ++ (effects eff os' (effects eff os t).2).1,
      (effects eff os' (effects eff os t).2).2) := by
  induction os generalizing t with
  | nil => rfl
  | cons o os ih => simp only [List.cons_append, effects, ih]

theorem length_effects (os : List O) (t : τ) : (effects eff os t).1.length = os.length := by
  induction os generalizing t with
  | nil => rfl
  | cons o os ih => exact congrArg Nat.succ (ih _)

/-- What one operation of many comes to. -/
theorem effects_getElem? (os os' : List O) (o : O) (t : τ) :
    (effects eff (os ++ o :: os') t).1[os.length]? = some ⟨o, (eff o (effects eff os t).2).1⟩ := by
  rw [effects_append]
  show (_ ++ _)[os.length]? = _
  rw [List.getElem?_append_right (Nat.le_of_eq (length_effects os t)), length_effects, Nat.sub_self]
  rfl

end Effects

/-! ## 2. In an environment -/

section Exec

variable {step : (e : E) → σ → R e → σ → Prop} {prog : (o : O) → Op E R ε (Res o)}

theorem exec_attempt_iff {p : Op E R ε α} {s s' : σ} {x : Except δ (Except ε α)} :
    Exec step (attempt p : Op E R δ (Except ε α)).run s x s' ↔
      ∃ y, Exec step p.run s y s' ∧ x = .ok y := by
  show Exec step (p.run >>= fun y => .ret (Except.ok y)) s x s' ↔ _
  rw [exec_bind_iff]
  constructor
  · rintro ⟨y, s₁, h, hr⟩
    obtain ⟨rfl, rfl⟩ := exec_ret_iff.mp hr
    exact ⟨y, h, rfl⟩
  · rintro ⟨y, h, rfl⟩
    exact ⟨y, s', h, .ret _ _⟩

/-- The first operation of a series, and the rest. -/
theorem exec_series_cons_iff {o : O} {os : List O} {s s'' : σ}
    {x : Except δ (Results O Res ε)} :
    Exec step (series prog (o :: os) : Op E R δ (Results O Res ε)).run s x s'' ↔
      ∃ y s' z, Exec step (prog o).run s y s' ∧
        Exec step (series prog os : Op E R δ (Results O Res ε)).run s' z s'' ∧
        x = z.map fun xs => ⟨o, y⟩ :: xs := by
  rw [series, exec_op_bind_iff]
  constructor
  · rintro (⟨e, h, -⟩ | ⟨y, s', h, hrest⟩)
    · obtain ⟨_, -, he⟩ := exec_attempt_iff.mp h
      cases he
    · obtain ⟨_, h, hy⟩ := exec_attempt_iff.mp h
      cases hy
      rcases exec_op_bind_iff.mp hrest with ⟨e, hs, rfl⟩ | ⟨xs, s₁, hs, hret⟩
      · exact ⟨y, s', .error e, h, hs, rfl⟩
      · obtain ⟨rfl, rfl⟩ := exec_ret_iff.mp hret
        exact ⟨y, s', .ok xs, h, hs, rfl⟩
  · rintro ⟨y, s', z, h, hs, rfl⟩
    refine Or.inr ⟨y, s', exec_attempt_iff.mpr ⟨y, h, rfl⟩, exec_op_bind_iff.mpr ?_⟩
    cases z with
    | error e => exact Or.inl ⟨e, hs, rfl⟩
    | ok xs => exact Or.inr ⟨xs, s'', hs, .ret _ _⟩

/-- **A series is a run of the abstract machine**, if every operation in it is a step of it and keeps
    the two states related. -/
theorem exec_series {att : (o : O) → τ → Except ε (Res o) → τ → Prop} {Rel : σ → τ → Prop}
    {os : List O}
    (hstep : ∀ o ∈ os, ∀ s t x s', Rel s t → Exec step (prog o).run s x s' →
      ∃ t', att o t x t' ∧ Rel s' t')
    {s s' : σ} {t : τ} {x : Except δ (Results O Res ε)} (hst : Rel s t)
    (h : Exec step (series prog os : Op E R δ (Results O Res ε)).run s x s') :
    ∃ xs t', x = .ok xs ∧ Plays att os t xs t' ∧ Rel s' t' := by
  induction os generalizing s t x with
  | nil =>
    obtain ⟨rfl, rfl⟩ := exec_ret_iff.mp h
    exact ⟨[], t, rfl, .nil t, hst⟩
  | cons o os ih =>
    obtain ⟨y, s₁, z, h₁, h₂, rfl⟩ := exec_series_cons_iff.mp h
    obtain ⟨t₁, ha, hst₁⟩ := hstep o List.mem_cons_self s t y s₁ hst h₁
    obtain ⟨xs, t', rfl, hs, hst'⟩ :=
      ih (fun o' ho' => hstep o' (List.mem_cons_of_mem _ ho')) hst₁ h₂
    exact ⟨_, t', rfl, .cons ha hs, hst'⟩

end Exec

/-- **Where nothing is left open**, a series comes to what the abstract machine does. -/
theorem run_series {h : (e : E) → σ → R e × σ} {prog : (o : O) → Op E R ε (Res o)}
    {eff : (o : O) → τ → Except ε (Res o) × τ} {Rel : σ → τ → Prop} {os : List O}
    (hstep : ∀ o ∈ os, ∀ s t, Rel s t →
      ∃ s', run h (prog o).run s = ((eff o t).1, s') ∧ Rel s' (eff o t).2)
    {s : σ} {t : τ} (hst : Rel s t) :
    ∃ s', run h (series prog os : Op E R δ (Results O Res ε)).run s =
      (.ok (effects eff os t).1, s') ∧ Rel s' (effects eff os t).2 := by
  have hall : ∀ o ∈ os, ∀ s t x s', Rel s t → Exec (fun e s r s' => h e s = (r, s')) (prog o).run s x s' →
      ∃ t', eff o t = (x, t') ∧ Rel s' t' := by
    intro o ho s t x s' hst hx
    obtain ⟨s₁, hr, hst₁⟩ := hstep o ho s t hst
    rw [exec_run_iff.mp hx] at hr
    cases hr
    exact ⟨_, rfl, hst₁⟩
  obtain ⟨xs, t', hx, hc, hst'⟩ := exec_series hall hst (exec_run_iff.mpr rfl)
  rw [plays_effects_iff.mp hc]
  exact ⟨_, Prod.ext hx rfl, hst'⟩

/-- The calls of a series are those of its operations. -/
theorem asks_series {P : E → Prop} {prog : (o : O) → Op E R ε (Res o)} {os : List O}
    (h : ∀ o ∈ os, Asks P (prog o).run) :
    Asks P (series prog os : Op E R δ (Results O Res ε)).run := by
  induction os with
  | nil => exact .ret _
  | cons o os ih =>
    have hfirst : Asks P (attempt (prog o) : Op E R δ (Except ε (Res o))).run :=
      (h o List.mem_cons_self).bind fun _ => .ret _
    exact hfirst.op_bind fun _ =>
      (ih fun o' ho' => h o' (List.mem_cons_of_mem _ ho')).op_bind fun _ => .ret _

end Interaction
