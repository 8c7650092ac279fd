import CanTracer.Machine

/-!
# Interleavings of two sides

Events whose steps commute may trade places in a run. Where a stretch of a run has events of two sides, and the
steps of one side commute with those of the other, only the order on each side counts.
-/

namespace Machine

variable {σ ε φ : Type} {step : σ → ε → Except φ σ}

theorem bind_ok_iff {x : Except φ σ} {next : σ → Except φ σ} {t : σ} :
    x >>= next = .ok t ↔ ∃ u, x = .ok u ∧ next u = .ok t := by
  cases x with
  | error failure =>
    constructor
    · intro ran
      cases ran
    · rintro ⟨u, reached, -⟩
      cases reached
  | ok u =>
    constructor
    · intro ran
      exact ⟨u, rfl, ran⟩
    · rintro ⟨v, reached, ran⟩
      cases reached
      exact ran

theorem run_append_iff {es more : List ε} {s t : σ} :
    run step (es ++ more) s = .ok t ↔ ∃ u, run step es s = .ok u ∧ run step more u = .ok t := by
  rw [run_append, bind_ok_iff]

theorem run_cons_iff {e : ε} {es : List ε} {s t : σ} :
    run step (e :: es) s = .ok t ↔ ∃ u, step s e = .ok u ∧ run step es u = .ok t := by
  rw [run, bind_ok_iff]

/-- In both orders the two steps succeed alike and lead to the same state. -/
def Commute (step : σ → ε → Except φ σ) (e f : ε) : Prop :=
  ∀ s t, run step [e, f] s = .ok t ↔ run step [f, e] s = .ok t

theorem run_pair_iff {e f : ε} {s t : σ} : run step [e, f] s = .ok t ↔ ∃ u, step s e = .ok u ∧ step u f = .ok t := by
  rw [run_cons_iff]
  refine exists_congr fun u => and_congr_right fun _ => ?_
  rw [run_cons_iff]
  constructor
  · rintro ⟨v, stepped, last⟩
    cases last
    exact stepped
  · intro stepped
    exact ⟨t, stepped, rfl⟩

/-- `f` works on a view of the state that `e` leaves alone, and `e` carries along what `f` has written. -/
theorem commute_of_frame {α γ : Type} {e f : ε} (view : σ → α) (act : α → Except φ γ) (put : γ → σ → σ)
    (acts : ∀ s, step s f = (act (view s)).map (put · s)) (keeps : ∀ s t, step s e = .ok t → view t = view s)
    (frame : ∀ c s, step (put c s) e = (step s e).map (put c)) : Commute step e f := by
  intro s t
  rw [run_pair_iff, run_pair_iff]
  constructor
  · rintro ⟨u, first, second⟩
    rw [acts, keeps s u first] at second
    rw [acts]
    cases acted : act (view s) with
    | error failure =>
      rw [acted] at second
      cases second
    | ok c =>
      rw [acted] at second
      refine ⟨put c s, rfl, ?_⟩
      rw [frame, first]
      exact second
  · rintro ⟨u, first, second⟩
    rw [acts] at first
    cases acted : act (view s) with
    | error failure =>
      rw [acted] at first
      cases first
    | ok c =>
      rw [acted] at first
      rw [← Except.ok.inj first, frame] at second
      cases stepped : step s e with
      | error failure =>
        rw [stepped] at second
        cases second
      | ok v =>
        rw [stepped] at second
        refine ⟨v, rfl, ?_⟩
        rw [acts, keeps s v stepped, acted]
        exact second

/-- An event may be taken before others with which it commutes. -/
theorem run_past {f : ε} {es : List ε} (more : List ε) : (∀ e ∈ es, Commute step e f) →
    ∀ s t, run step (es ++ f :: more) s = .ok t ↔ run step (f :: (es ++ more)) s = .ok t := by
  induction es with
  | nil => exact fun _ s t => Iff.rfl
  | cons e es ih =>
    intro apart s t
    have rest := ih fun other among => apart other (List.mem_cons_of_mem _ among)
    have swapped := apart e List.mem_cons_self s
    calc run step (e :: (es ++ f :: more)) s = .ok t
        ↔ ∃ u, step s e = .ok u ∧ run step (f :: (es ++ more)) u = .ok t := by
          rw [run_cons_iff]
          exact exists_congr fun u => and_congr_right fun _ => rest u t
      _ ↔ ∃ v, run step [e, f] s = .ok v ∧ run step (es ++ more) v = .ok t := by
          rw [← run_cons_iff, ← run_append_iff]
          rfl
      _ ↔ ∃ v, run step [f, e] s = .ok v ∧ run step (es ++ more) v = .ok t := by simp only [swapped]
      _ ↔ run step (f :: e :: (es ++ more)) s = .ok t := by
          rw [← run_append_iff]
          rfl

/-- The events that `p` picks may be taken before the others. -/
theorem run_sorted (p : ε → Bool) (es : List ε) :
    (∀ e ∈ es, ∀ f ∈ es, p e = true → p f = false → Commute step e f) →
    ∀ s t, run step es s = .ok t ↔ run step (es.filter p ++ es.filter fun e => !p e) s = .ok t := by
  induction es with
  | nil => exact fun _ s t => Iff.rfl
  | cons f es ih =>
    intro apart s t
    have rest := ih fun a ha b hb => apart a (List.mem_cons_of_mem _ ha) b (List.mem_cons_of_mem _ hb)
    have behind : run step (f :: es) s = .ok t ↔ run step (f :: (es.filter p ++ es.filter fun e => !p e)) s = .ok t := by
      rw [run_cons_iff, run_cons_iff]
      exact exists_congr fun u => and_congr_right fun _ => rest u t
    rw [behind]
    cases picked : p f with
    | true => rw [List.filter_cons_of_pos picked, List.filter_cons_of_neg (by simp [picked]), List.cons_append]
    | false =>
      rw [List.filter_cons_of_neg (by simp [picked]), List.filter_cons_of_pos (by simp [picked])]
      refine (run_past _ (fun e among => ?_) s t).symm
      obtain ⟨inside, other⟩ := List.mem_filter.mp among
      exact apart e (List.mem_cons_of_mem _ inside) f List.mem_cons_self other picked

/-- Two stretches with the same events on each side, in the same order there, come to the same. -/
theorem run_interleaving (p : ε → Bool) {es es' : List ε}
    (apart : ∀ e ∈ es, ∀ f ∈ es, p e = true → p f = false → Commute step e f) (picked : es.filter p = es'.filter p)
    (others : (es.filter fun e => !p e) = es'.filter fun e => !p e) (before after : List ε) (s t : σ) :
    run step (before ++ es ++ after) s = .ok t ↔ run step (before ++ es' ++ after) s = .ok t := by
  have first {e : ε} (among : e ∈ es') (own : p e = true) : e ∈ es :=
    (List.mem_filter.mp (picked ▸ List.mem_filter.mpr ⟨among, own⟩ : e ∈ es.filter p)).1
  have second {e : ε} (among : e ∈ es') (other : p e = false) : e ∈ es :=
    (List.mem_filter.mp (others ▸ List.mem_filter.mpr ⟨among, by simp [other]⟩ : e ∈ es.filter fun e => !p e)).1
  have apart' : ∀ e ∈ es', ∀ f ∈ es', p e = true → p f = false → Commute step e f :=
    fun e he f hf own other => apart e (first he own) f (second hf other) own other
  have same (u v : σ) : run step es u = .ok v ↔ run step es' u = .ok v := by
    rw [run_sorted p es apart, run_sorted p es' apart', picked, others]
  simp only [run_append_iff, same]

end Machine
