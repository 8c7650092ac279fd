/-!
# Loops

A `while` loop as its body: from a state the body either leaves the loop or goes round again. `run`
gives up when the fuel is spent, so a loop that ends is one that some fuel brings to its result;
`run_total` asks for an invariant and a measure that falls.
-/

namespace Loop

inductive Next (σ : Type) where
  | stop (s : σ)
  | next (s : σ)

variable {σ : Type} {body : σ → Option (Next σ)}

def run (body : σ → Option (Next σ)) : Nat → σ → Option σ
  | 0, _ => none
  | n + 1, s =>
    match body s with
    | none => none
    | some (.stop s') => some s'
    | some (.next s') => run body n s'

/-- The states in which the body is executed. -/
def visited (body : σ → Option (Next σ)) : Nat → σ → List σ
  | 0, _ => []
  | n + 1, s =>
    match body s with
    | some (.next s') => s :: visited body n s'
    | _ => [s]

theorem run_stop {n : Nat} {s s' : σ} (h : body s = some (.stop s')) : run body (n + 1) s = some s' := by
  rw [run, h]

theorem run_next {n : Nat} {s s' : σ} (h : body s = some (.next s')) :
    run body (n + 1) s = run body n s' := by
  rw [run, h]

theorem mem_visited_next {n : Nat} {s s' x : σ} (h : body s = some (.next s'))
    (hx : x ∈ visited body n s') :
    x ∈ visited body (n + 1) s := by
  rw [visited, h]
  exact List.mem_cons_of_mem _ hx

theorem mem_visited_self (n : Nat) (s : σ) : s ∈ visited body (n + 1) s := by
  rw [visited]
  split <;> exact List.mem_cons_self

/-- An invariant that every visited state lets the body keep, and a measure that falls with every
round, bring the loop to an end. -/
theorem run_total {I : σ → Prop} {Q : σ → Prop} (μ : σ → Nat) {C : σ → Prop}
    (round : ∀ s, I s → C s →
      (∃ s', body s = some (.stop s') ∧ Q s') ∨ ∃ s', body s = some (.next s') ∧ I s' ∧ μ s' < μ s) :
    ∀ n s, I s → μ s < n → (∀ x ∈ visited body n s, C x) → ∃ r, run body n s = some r ∧ Q r := by
  intro n
  induction n with
  | zero => intro s _ fuel; exact absurd fuel (Nat.not_lt_zero _)
  | succ n ih =>
    intro s inv fuel ok
    rcases round s inv (ok s (mem_visited_self n s)) with ⟨s', h, post⟩ | ⟨s', h, inv', less⟩
    · exact ⟨s', run_stop h, post⟩
    · rw [run_next h]
      exact ih s' inv' (by omega) fun x hx => ok x (mem_visited_next h hx)

theorem visited_keeps {I : σ → Prop} (round : ∀ s s', I s → body s = some (.next s') → I s') :
    ∀ n s, I s → ∀ x ∈ visited body n s, I x := by
  intro n
  induction n with
  | zero => intro s _ x hx; cases hx
  | succ n ih =>
    intro s inv x hx
    rw [visited] at hx
    split at hx
    · rename_i s' hb
      rcases List.mem_cons.mp hx with rfl | hx
      · exact inv
      · exact ih s' (round s s' inv hb) x hx
    · rw [List.mem_singleton.mp hx]
      exact inv

theorem mem_visited_of_run {r : σ} :
    ∀ n s, run body n s = some r → ∃ x ∈ visited body n s, body x = some (.stop r) := by
  intro n
  induction n with
  | zero => intro s h; cases h
  | succ n ih =>
    intro s h
    rw [run] at h
    split at h
    · cases h
    · rename_i s' hb
      rw [← Option.some.inj h]
      exact ⟨s, mem_visited_self n s, hb⟩
    · rename_i s' hb
      obtain ⟨x, hx, stop⟩ := ih s' h
      exact ⟨x, mem_visited_next hb hx, stop⟩

theorem run_of_mem_visited {x s' : σ} (stop : body x = some (.stop s')) :
    ∀ n s, x ∈ visited body n s → run body n s = some s' := by
  intro n
  induction n with
  | zero => intro s hx; cases hx
  | succ n ih =>
    intro s hx
    rw [visited] at hx
    rw [run]
    split at hx
    · rename_i t hb
      rcases List.mem_cons.mp hx with rfl | hx
      · rw [stop] at hb
        cases hb
      · rw [hb]
        exact ih t hx
    · rw [List.mem_singleton] at hx
      rw [← hx, stop]

theorem run_keeps {I : σ → Prop} {Q : σ → Prop}
    (round : ∀ s, I s → (∀ s', body s = some (.stop s') → Q s') ∧ ∀ s', body s = some (.next s') → I s') :
    ∀ n s r, I s → run body n s = some r → Q r := by
  intro n
  induction n with
  | zero => intro s r _ h; cases h
  | succ n ih =>
    intro s r inv h
    rw [run] at h
    split at h
    · cases h
    · rename_i s' hb
      rw [← Option.some.inj h]
      exact (round s inv).1 s' hb
    · rename_i s' hb
      exact ih s' r ((round s inv).2 s' hb) h

theorem run_collect {β : Type} (f g : σ → List β)
    (round : ∀ s s', body s = some (.stop s') ∨ body s = some (.next s') → f s' = f s ++ g s) :
    ∀ n s r, run body n s = some r → f r = f s ++ (visited body n s).flatMap g := by
  intro n
  induction n with
  | zero => intro s r h; cases h
  | succ n ih =>
    intro s r h
    rw [run] at h
    rw [visited]
    split at h
    · cases h
    · rename_i s' hb
      rw [← Option.some.inj h, hb, List.flatMap_singleton]
      exact round s s' (.inl hb)
    · rename_i s' hb
      rw [hb, ih s' r h, round s s' (.inr hb), List.flatMap_cons, List.append_assoc]

end Loop
