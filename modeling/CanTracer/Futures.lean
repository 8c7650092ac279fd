/-!
# Futures

Jobs that run in the background, one of them that of the future its owner holds. A job ends with a
value or an exception and then notifies the owner once; `result` is what the owner reads.
-/

structure Futures.Job (ι φ α : Type) where
  input : ι
  cancelled : Bool := false
  finished : Bool := false
  outcome : Option (Except φ α) := none
  notified : Bool := false

structure Futures (ι φ α : Type) where
  jobs : List (Futures.Job ι φ α) := []
  current : Nat := 0

namespace Futures

variable {ι φ α : Type}

/-- The end of a job. `work` is what an input comes to, `none` if it does not come to an end; a
cancelled job takes no outcome. -/
def Job.complete (job : Job ι φ α) (work : ι → Option (Except φ α)) : Job ι φ α :=
  if job.finished then job
  else
    match work job.input with
    | none => job
    | some outcome => { job with finished := true, outcome := if job.cancelled then none else some outcome }

def start (f : Futures ι φ α) (input : ι) : Futures ι φ α where
  jobs := f.jobs ++ [{ input := input }]
  current := f.jobs.length

/-- A job that is running goes on. -/
def cancel (f : Futures ι φ α) : Futures ι φ α :=
  { f with jobs := f.jobs.modify f.current fun job => if job.finished then job else { job with cancelled := true } }

def finish (f : Futures ι φ α) (k : Nat) (work : ι → Option (Except φ α)) : Futures ι φ α :=
  { f with jobs := f.jobs.modify k fun job => job.complete work }

/-- A cancelled job that no thread has taken up ends without an outcome. -/
def drop (f : Futures ι φ α) (k : Nat) : Futures ι φ α :=
  { f with jobs := f.jobs.modify k fun job => if job.cancelled then { job with finished := true } else job }

/-- Whether a notification of the job can be answered: the owner then reads the future, which waits
for the end of its job. -/
def pending (f : Futures ι φ α) (k : Nat) : Bool :=
  f.jobs[k]?.any (fun job => job.finished && !job.notified) && f.jobs[f.current]?.any (·.finished)

def notify (f : Futures ι φ α) (k : Nat) : Futures ι φ α :=
  { f with jobs := f.jobs.modify k fun job => { job with notified := true } }

def result (f : Futures ι φ α) : Option (Except φ α) := f.jobs[f.current]?.bind (·.outcome)

/-! ### The job of the future -/

/-- It is not cancelled, and it does not end without an outcome. -/
structure Job.Kept (job : Job ι φ α) : Prop where
  running : job.cancelled = false
  ended : job.finished = true → job.outcome.isSome

def Ready (f : Futures ι φ α) : Prop := ∀ job, f.jobs[f.current]? = some job → job.Kept

theorem Job.Kept.complete {job : Job ι φ α} (kept : job.Kept) (work : ι → Option (Except φ α)) :
    (job.complete work).Kept := by
  unfold Job.complete
  split
  · exact kept
  · split
    · exact kept
    · refine ⟨kept.running, fun _ => ?_⟩
      change (if job.cancelled then none else _).isSome
      rw [kept.running]
      rfl

theorem Ready.modify {f : Futures ι φ α} (ready : f.Ready) (k : Nat) {g : Job ι φ α → Job ι φ α}
    (keeps : ∀ job, job.Kept → (g job).Kept) : Ready { f with jobs := f.jobs.modify k g } := by
  intro job here
  rw [List.getElem?_modify] at here
  cases before : f.jobs[f.current]? with
  | none =>
    rw [before] at here
    cases here
  | some old =>
    rw [before] at here
    rw [← Option.some.inj here]
    split
    · exact keeps old (ready old before)
    · exact ready old before

theorem Ready.start (f : Futures ι φ α) (input : ι) : (f.start input).Ready := by
  intro job here
  rw [Futures.start, List.getElem?_concat_length] at here
  rw [← Option.some.inj here]
  exact ⟨rfl, nofun⟩

theorem Ready.finish {f : Futures ι φ α} (ready : f.Ready) (k : Nat) (work : ι → Option (Except φ α)) :
    (f.finish k work).Ready :=
  ready.modify k fun _ kept => kept.complete work

theorem Ready.drop {f : Futures ι φ α} (ready : f.Ready) (k : Nat) : (f.drop k).Ready := by
  refine ready.modify k fun job kept => ?_
  rw [if_neg (by rw [kept.running]; exact Bool.false_ne_true)]
  exact kept

theorem Ready.notify {f : Futures ι φ α} (ready : f.Ready) (k : Nat) : (f.notify k).Ready :=
  ready.modify k fun _ kept => ⟨kept.running, kept.ended⟩

theorem result_notify (f : Futures ι φ α) (k : Nat) : (f.notify k).result = f.result := by
  rw [result, result, notify]
  change ((f.jobs.modify k _)[f.current]?).bind _ = _
  rw [List.getElem?_modify]
  cases f.jobs[f.current]? with
  | none => rfl
  | some job =>
    simp only [Option.map_eq_map, Option.map_some, Option.bind_some]
    split <;> rfl

theorem ended_notify {f : Futures ι φ α} (ended : f.jobs[f.current]?.any (·.finished) = true) (k : Nat) :
    (f.notify k).jobs[f.current]?.any (·.finished) = true := by
  obtain ⟨job, here, finished⟩ := (Option.any_eq_true _ _).mp ended
  rw [notify, List.getElem?_modify, here]
  simp only [Option.map_eq_map, Option.map_some, Option.any_some]
  split <;> exact finished

theorem Ready.result {f : Futures ι φ α} (ready : f.Ready) {k : Nat} (pending : f.pending k = true) :
    ∃ outcome, f.result = some outcome := by
  obtain ⟨-, ended⟩ := Bool.and_eq_true_iff.mp pending
  obtain ⟨job, here, finished⟩ := (Option.any_eq_true _ _).mp ended
  have some := (ready job here).ended finished
  rw [Futures.result, here]
  exact Option.isSome_iff_exists.mp some

/-- A job that is started and comes to its end hands over what its input comes to. -/
theorem start_finish (f : Futures ι φ α) {input : ι} {work : ι → Option (Except φ α)} {outcome : Except φ α}
    (ends : work input = some outcome) :
    ((f.start input).finish f.jobs.length work).pending f.jobs.length = true ∧
      ((f.start input).finish f.jobs.length work).result = some outcome := by
  have here : ((f.start input).finish f.jobs.length work).jobs[f.jobs.length]? =
      some { input := input, finished := true, outcome := some outcome } := by
    rw [finish, start, List.getElem?_modify_eq, List.getElem?_concat_length]
    simp [Job.complete, ends]
  refine ⟨?_, ?_⟩
  · rw [pending, here]
    change (true && ((f.start input).finish f.jobs.length work).jobs[f.jobs.length]?.any _) = true
    rw [here]
    rfl
  · rw [result]
    change ((f.start input).finish f.jobs.length work).jobs[f.jobs.length]?.bind _ = _
    rw [here]
    rfl

/-! ### Changes of a job -/

theorem modified {jobs : List (Job ι φ α)} {j k : Nat} {g : Job ι φ α → Job ι φ α} {job : Job ι φ α}
    (here : (jobs.modify j g)[k]? = some job) : ∃ old, jobs[k]? = some old ∧ (job = old ∨ j = k ∧ job = g old) := by
  rw [List.getElem?_modify] at here
  obtain ⟨old, was, now⟩ := Option.map_eq_some_iff.mp here
  refine ⟨old, was, ?_⟩
  split at now
  · rename_i own
    exact .inr ⟨own, now.symm⟩
  · exact .inl now.symm

theorem complete_input (job : Job ι φ α) (work : ι → Option (Except φ α)) : (job.complete work).input = job.input := by
  unfold Job.complete
  split
  · rfl
  · split <;> rfl

theorem complete_notified (job : Job ι φ α) (work : ι → Option (Except φ α)) :
    (job.complete work).notified = job.notified := by
  unfold Job.complete
  split
  · rfl
  · split <;> rfl

theorem complete_outcome {job : Job ι φ α} {work : ι → Option (Except φ α)} {outcome : Except φ α}
    (is : (job.complete work).outcome = some outcome) : job.outcome = some outcome ∨ work job.input = some outcome := by
  unfold Job.complete at is
  split at is
  · exact .inl is
  · split at is
    · exact .inl is
    · rename_i ended came
      rw [came]
      split at is
      · cases is
      · exact .inr is

/-- What the jobs are for. -/
def inputs (f : Futures ι φ α) : List ι := f.jobs.map (·.input)

theorem length_inputs (f : Futures ι φ α) : f.inputs.length = f.jobs.length := List.length_map _

theorem map_modify {β : Type} (jobs : List (Job ι φ α)) (k : Nat) {g : Job ι φ α → Job ι φ α} {field : Job ι φ α → β}
    (keeps : ∀ job, field (g job) = field job) : (jobs.modify k g).map field = jobs.map field := by
  refine List.ext_getElem? fun i => ?_
  rw [List.getElem?_map, List.getElem?_map, List.getElem?_modify]
  cases jobs[i]? with
  | none => rfl
  | some job =>
    simp only [Option.map_eq_map, Option.map_some]
    split
    · rw [keeps]
    · rfl

theorem modify_congr {jobs : List (Job ι φ α)} {k : Nat} {g h : Job ι φ α → Job ι φ α} (same : ∀ job ∈ jobs[k]?, g job = h job) :
    jobs.modify k g = jobs.modify k h := by
  refine List.ext_getElem? fun i => ?_
  rw [List.getElem?_modify, List.getElem?_modify]
  cases here : jobs[i]? with
  | none => rfl
  | some job =>
    simp only [Option.map_eq_map, Option.map_some]
    split
    · rename_i own
      rw [same job (own ▸ here)]
    · rfl

/-- The end of a job depends on what its own input comes to. -/
theorem finish_congr {f : Futures ι φ α} {k : Nat} {work work' : ι → Option (Except φ α)}
    (same : ∀ job ∈ f.jobs[k]?, work job.input = work' job.input) : f.finish k work = f.finish k work' := by
  rw [finish, finish, modify_congr fun job here => ?_]
  rw [Job.complete, Job.complete, same job here]

/-- A job that has ended stays as it is. -/
theorem finish_ended {f : Futures ι φ α} {k : Nat} (ended : ∀ job ∈ f.jobs[k]?, job.finished = true)
    (work : ι → Option (Except φ α)) : f.finish k work = f := by
  rw [finish, modify_congr (h := id) fun job here => ?_, List.modify_id]
  rw [Job.complete, if_pos (ended job here)]
  rfl

theorem inputs_start (f : Futures ι φ α) (input : ι) : (f.start input).inputs = f.inputs ++ [input] := List.map_append

theorem inputs_cancel (f : Futures ι φ α) : f.cancel.inputs = f.inputs := by
  refine map_modify f.jobs f.current fun job => ?_
  split <;> rfl

theorem inputs_finish (f : Futures ι φ α) (k : Nat) (work : ι → Option (Except φ α)) :
    (f.finish k work).inputs = f.inputs :=
  map_modify f.jobs k fun job => complete_input job work

theorem inputs_drop (f : Futures ι φ α) (k : Nat) : (f.drop k).inputs = f.inputs := by
  refine map_modify f.jobs k fun job => ?_
  split <;> rfl

theorem inputs_notify (f : Futures ι φ α) (k : Nat) : (f.notify k).inputs = f.inputs :=
  map_modify f.jobs k fun _ => rfl

/-! ### The last job -/

/-- The future is that of the job started last, if there is one. -/
def Newest (f : Futures ι φ α) : Prop := f.jobs = [] ∨ f.current + 1 = f.jobs.length

theorem Newest.start (f : Futures ι φ α) (input : ι) : (f.start input).Newest := by
  refine .inr ?_
  rw [Futures.start, List.length_append]
  rfl

/-- The jobs go on, for the same inputs. -/
theorem Newest.kept {f f' : Futures ι φ α} (newest : f.Newest) (inputs : f'.inputs = f.inputs)
    (current : f'.current = f.current) : f'.Newest := by
  rw [Newest, ← List.length_eq_zero_iff, ← length_inputs, inputs, length_inputs, List.length_eq_zero_iff, current]
  exact newest

theorem Newest.last {f : Futures ι φ α} (newest : f.Newest) {input : ι} (here : f.inputs[f.current]? = some input) :
    f.current + 1 = f.jobs.length := by
  refine newest.resolve_left fun none => ?_
  rw [inputs, none] at here
  cases here

/-! ### Where outcomes come from -/

/-- The outcomes are such as `P` says of a job and its input. -/
def Traced (P : Nat → ι → Except φ α → Prop) (f : Futures ι φ α) : Prop :=
  ∀ k job outcome, f.jobs[k]? = some job → job.outcome = some outcome → P k job.input outcome

section
variable {P Q : Nat → ι → Except φ α → Prop} {f : Futures ι φ α}

theorem Traced.mono (traced : f.Traced P) (weaker : ∀ k input outcome, P k input outcome → Q k input outcome) : f.Traced Q :=
  fun k job outcome here is => weaker _ _ _ (traced k job outcome here is)

theorem Traced.start (traced : f.Traced P) (input : ι) : (f.start input).Traced P := by
  intro k job outcome here is
  rw [Futures.start] at here
  rcases Nat.lt_or_ge k f.jobs.length with before | behind
  · rw [List.getElem?_append_left before] at here
    exact traced k job outcome here is
  · rw [List.getElem?_append_right behind] at here
    rw [List.mem_singleton.mp (List.mem_of_getElem? here)] at is
    cases is

/-- A change of a job that gives it no other outcome than such as `P` says. -/
theorem Traced.modify (traced : f.Traced P) (j : Nat) {g : Job ι φ α → Job ι φ α} (keeps : ∀ job, (g job).input = job.input)
    (outcomes : ∀ job outcome, (g job).outcome = some outcome → job.outcome = some outcome ∨ P j job.input outcome) :
    Traced P { f with jobs := f.jobs.modify j g } := by
  intro k job outcome here is
  obtain ⟨old, was, rfl | ⟨rfl, rfl⟩⟩ := modified here
  · exact traced k job outcome was is
  · rw [keeps]
    exact (outcomes old outcome is).elim (traced j old outcome was) id

theorem Traced.cancel (traced : f.Traced P) : f.cancel.Traced P := by
  refine traced.modify f.current (fun job => ?_) fun job outcome is => .inl ?_
  · split <;> rfl
  · split at is <;> exact is

theorem Traced.finish (traced : f.Traced P) (k : Nat) {work : ι → Option (Except φ α)}
    (comes : ∀ input outcome, work input = some outcome → P k input outcome) : (f.finish k work).Traced P :=
  traced.modify k (fun job => complete_input job work) fun _ _ is => (complete_outcome is).imp_right (comes _ _)

theorem Traced.drop (traced : f.Traced P) (k : Nat) : (f.drop k).Traced P := by
  refine traced.modify k (fun job => ?_) fun job outcome is => .inl ?_
  · split <;> rfl
  · split at is <;> exact is

theorem Traced.notify (traced : f.Traced P) (k : Nat) : (f.notify k).Traced P :=
  traced.modify k (fun _ => rfl) fun _ _ is => .inl is

/-- What the owner reads. -/
theorem Traced.result (traced : f.Traced P) {outcome : Except φ α} (is : f.result = some outcome) :
    ∃ input, f.inputs[f.current]? = some input ∧ P f.current input outcome := by
  obtain ⟨job, here, is⟩ := Option.bind_eq_some_iff.mp is
  refine ⟨job.input, ?_, traced _ job outcome here is⟩
  rw [inputs, List.getElem?_map, here]
  rfl

end

end Futures
