/-!
# Machines driven by events

A machine is a step function from a state and an event that may fail. `Good` says of a run that no
step fails and that every step does what it should; `Along` says of a run what holds before its
steps. `good_iff_along` takes a statement about one step, under an invariant, to every run.
-/

namespace Machine

variable {σ ε φ : Type} {step : σ → ε → Except φ σ}

def run (step : σ → ε → Except φ σ) : List ε → σ → Except φ σ
  | [], s => .ok s
  | e :: es, s => step s e >>= run step es

/-- `P` holds of every event of a run and the state it comes to. -/
def Along (step : σ → ε → Except φ σ) (P : σ → ε → Prop) : List ε → σ → Prop
  | [], _ => True
  | e :: es, s => P s e ∧ ∀ s', step s e = .ok s' → Along step P es s'

/-- No step of a run fails, and each takes its state to one that `G` allows. -/
def Good (step : σ → ε → Except φ σ) (G : σ → ε → σ → Prop) : List ε → σ → Prop
  | [], _ => True
  | e :: es, s => ∃ s', step s e = .ok s' ∧ G s e s' ∧ Good step G es s'

theorem run_cons_ok {e : ε} {es : List ε} {s s' : σ} (h : step s e = .ok s') :
    run step (e :: es) s = run step es s' := by
  rw [run, h]
  rfl

theorem good_run {G : σ → ε → σ → Prop} (es : List ε) :
    ∀ s, Good step G es s → ∃ s', run step es s = .ok s' := by
  induction es with
  | nil => exact fun s _ => ⟨s, rfl⟩
  | cons e es ih =>
    rintro s ⟨s', stepped, -, rest⟩
    rw [run_cons_ok stepped]
    exact ih s' rest

theorem good_iff_along {I : σ → Prop} {P : σ → ε → Prop} {G : σ → ε → σ → Prop}
    (round : ∀ s e, I s → (P s e ↔ ∃ s', step s e = .ok s' ∧ G s e s'))
    (keeps : ∀ s e s', I s → P s e → step s e = .ok s' → I s') (es : List ε) :
    ∀ s, I s → (Good step G es s ↔ Along step P es s) := by
  induction es with
  | nil => exact fun s _ => Iff.rfl
  | cons e es ih =>
    intro s inv
    constructor
    · rintro ⟨s', stepped, good, rest⟩
      have fine := (round s e inv).mpr ⟨s', stepped, good⟩
      refine ⟨fine, fun t ht => ?_⟩
      obtain rfl := Except.ok.inj (stepped.symm.trans ht)
      exact (ih s' (keeps s e s' inv fine stepped)).mp rest
    · rintro ⟨fine, rest⟩
      obtain ⟨s', stepped, good⟩ := (round s e inv).mp fine
      exact ⟨s', stepped, good, (ih s' (keeps s e s' inv fine stepped)).mpr (rest s' stepped)⟩

theorem good_of_round {I : σ → Prop} {G : σ → ε → σ → Prop}
    (round : ∀ s e, I s → ∃ s', step s e = .ok s' ∧ G s e s' ∧ I s') (es : List ε) : ∀ s, I s → Good step G es s := by
  induction es with
  | nil => exact fun s _ => trivial
  | cons e es ih =>
    intro s inv
    obtain ⟨s', stepped, good, inv'⟩ := round s e inv
    exact ⟨s', stepped, good, ih s' inv'⟩

/-- Under an invariant of the steps, two properties that agree at each state agree along a run. -/
theorem along_congr {I : σ → Prop} {P Q : σ → ε → Prop} (same : ∀ s e, I s → (P s e ↔ Q s e))
    (keeps : ∀ s e s', I s → step s e = .ok s' → I s') (es : List ε) :
    ∀ s, I s → (Along step P es s ↔ Along step Q es s) := by
  induction es with
  | nil => exact fun s _ => Iff.rfl
  | cons e es ih =>
    intro s inv
    refine and_congr (same s e inv) (forall_congr' fun s' => ?_)
    exact imp_congr_right fun stepped => ih s' (keeps s e s' inv stepped)

/-- Under an invariant that every step returns and keeps, every run returns and keeps it. -/
theorem run_total {I : σ → Prop} (round : ∀ s e, I s → ∃ s', step s e = .ok s' ∧ I s') (es : List ε) :
    ∀ s, I s → ∃ s', run step es s = .ok s' ∧ I s' := by
  induction es with
  | nil => exact fun s inv => ⟨s, rfl, inv⟩
  | cons e es ih =>
    intro s inv
    obtain ⟨t, stepped, inv'⟩ := round s e inv
    obtain ⟨s', ran, last⟩ := ih t inv'
    exact ⟨s', (run_cons_ok stepped).trans ran, last⟩

theorem run_append (es more : List ε) : ∀ s, run step (es ++ more) s = run step es s >>= run step more := by
  induction es with
  | nil => exact fun s => rfl
  | cons e es ih =>
    intro s
    rw [List.cons_append, run, run]
    cases step s e with
    | error e => rfl
    | ok t => exact ih t

theorem run_concat {es : List ε} {e : ε} {s s' : σ} (ran : run step es s = .ok s') :
    run step (es ++ [e]) s = step s' e := by
  rw [run_append, ran]
  change step s' e >>= Except.ok = _
  cases step s' e <;> rfl

/-- What holds before the last event of a run. -/
theorem along_last {P : σ → ε → Prop} {e : ε} (es : List ε) :
    ∀ s, Along step P (es ++ [e]) s → (run step es s).isOk = true → ∃ s', run step es s = .ok s' ∧ P s' e := by
  induction es with
  | nil => exact fun s along _ => ⟨s, rfl, along.1⟩
  | cons first es ih =>
    intro s along ran
    cases stepped : step s first with
    | error e =>
      rw [run, stepped] at ran
      cases ran
    | ok t =>
      rw [run_cons_ok stepped] at ran
      rw [run_cons_ok stepped]
      exact ih t (along.2 t stepped) ran

/-- If a step of one machine is a step of the other or leaves it where it is, then so it is with runs. -/
theorem run_simulates {τ ε' : Type} {step' : τ → ε' → Except φ τ} {R : σ → τ → Prop} {P : σ → ε → Prop}
    (simulates : ∀ s e s' t, R s t → P s e → step s e = .ok s' →
      ∃ t', (t' = t ∨ ∃ e', step' t e' = .ok t') ∧ R s' t') (es : List ε) :
    ∀ s s' t, R s t → Along step P es s → run step es s = .ok s' → ∃ es' t', run step' es' t = .ok t' ∧ R s' t' := by
  induction es with
  | nil =>
    intro s s' t related _ ran
    rw [← Except.ok.inj ran]
    exact ⟨[], t, rfl, related⟩
  | cons e es ih =>
    intro s s' t related along ran
    cases stepped : step s e with
    | error e =>
      rw [run, stepped] at ran
      cases ran
    | ok u =>
      rw [run_cons_ok stepped] at ran
      obtain ⟨t', moves, related'⟩ := simulates s e u t related along.1 stepped
      obtain ⟨es', v, rest, last⟩ := ih u s' t' related' (along.2 u stepped) ran
      rcases moves with rfl | ⟨e', first⟩
      · exact ⟨es', v, rest, last⟩
      · exact ⟨e' :: es', v, (run_cons_ok first).trans rest, last⟩

theorem along_true (es : List ε) : ∀ s, Along step (fun _ _ => True) es s := by
  induction es with
  | nil => exact fun _ => trivial
  | cons e es ih => exact fun s => ⟨trivial, fun s' _ => ih s'⟩

theorem along_forall {P : σ → ε → Prop} {es : List ε} (holds : ∀ s, ∀ e ∈ es, P s e) : ∀ s, Along step P es s := by
  induction es with
  | nil => exact fun _ => trivial
  | cons e es ih =>
    refine fun s => ⟨holds s e List.mem_cons_self, fun s' _ => ih (fun t e among => ?_) s'⟩
    exact holds t e (List.mem_cons_of_mem _ among)

theorem along_append {P : σ → ε → Prop} {more : List ε} (es : List ε) : ∀ s, Along step P es s →
    (∀ s', run step es s = .ok s' → Along step P more s') → Along step P (es ++ more) s := by
  induction es with
  | nil => exact fun s _ rest => rest s rfl
  | cons first es ih =>
    intro s along rest
    refine ⟨along.1, fun t stepped => ih t (along.2 t stepped) fun s' ran => ?_⟩
    exact rest s' ((run_cons_ok stepped).trans ran)

theorem along_concat {P : σ → ε → Prop} {e : ε} (es : List ε) (s : σ) (along : Along step P es s)
    (last : ∀ s', run step es s = .ok s' → P s' e) : Along step P (es ++ [e]) s :=
  along_append es s along fun s' ran => ⟨last s' ran, fun _ _ => trivial⟩

/-- An invariant that the steps keep as long as `P` holds of them. -/
theorem run_along {I : σ → Prop} {P : σ → ε → Prop} (keeps : ∀ s e s', I s → P s e → step s e = .ok s' → I s')
    (es : List ε) : ∀ s s', I s → Along step P es s → run step es s = .ok s' → I s' := by
  induction es with
  | nil =>
    intro s s' inv _ ran
    rwa [← Except.ok.inj ran]
  | cons e es ih =>
    intro s s' inv along ran
    cases stepped : step s e with
    | error failure =>
      rw [run, stepped] at ran
      cases ran
    | ok t =>
      rw [run_cons_ok stepped] at ran
      exact ih t s' (keeps s e t inv along.1 stepped) (along.2 t stepped) ran

/-- An invariant of the events so far and the state they lead to. -/
theorem run_history {I : List ε → σ → Prop} {start : σ} (init : I [] start)
    (keeps : ∀ past s e s', I past s → step s e = .ok s' → I (past ++ [e]) s') {es : List ε} {s' : σ}
    (ran : run step es start = .ok s') : I es s' := by
  have from_ (es : List ε) : ∀ past s, I past s → run step es s = .ok s' → I (past ++ es) s' := by
    induction es with
    | nil =>
      intro past s inv ran
      rw [List.append_nil, ← Except.ok.inj ran]
      exact inv
    | cons e es ih =>
      intro past s inv ran
      cases stepped : step s e with
      | error failure =>
        rw [run, stepped] at ran
        cases ran
      | ok t =>
        rw [run_cons_ok stepped] at ran
        rw [List.append_cons]
        exact ih _ t (keeps past s e t inv stepped) ran
  exact from_ es [] start init ran

end Machine
