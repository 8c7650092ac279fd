import CanTracer.Dbc.Edits

/-!
# Several files

All files are read into one database, where a `VAL_` line goes to the first message with its id,
whichever file it came from. The messages of a file are those it gives alone exactly when no line
of it finds an earlier message that has its signal or takes the place of one that has.
-/

namespace CanTracer.Dbc

variable {qt : Qt} {D ms ms' : List CanMessage} {es rest : List Edit} {id : UInt32} {name : QString}

/-! ### Which message a line finds -/

def holds (ms : List CanMessage) (id : UInt32) : Bool := ms.any (·.id == id)

/-- The first message with the id has a signal of that name. -/
def names (ms : List CanMessage) (id : UInt32) (name : QString) : Bool :=
  (ms.find? (·.id == id)).any fun m => (m.findSignal name).isSome

theorem findSignal_extends {m m' : CanMessage} (h : m.Extends m') (name : QString) :
    (m'.findSignal name).isSome = (m.findSignal name).isSome := by
  unfold CanMessage.findSignal
  have each := h.canSignals
  generalize m.canSignals = ss, m'.canSignals = ss' at each
  induction each with
  | nil => rfl
  | @cons s s' ss ss' head _ ih =>
    obtain ⟨more, rfl⟩ := head
    rw [List.find?_cons, List.find?_cons]
    cases s.name == name
    · exact ih
    · rfl

theorem names_extends (h : List.Forall₂ CanMessage.Extends ms ms') (id : UInt32) (name : QString) :
    holds ms' id = holds ms id ∧ names ms' id name = names ms id name := by
  induction h with
  | nil => exact ⟨rfl, rfl⟩
  | @cons m m' ms ms' head _ ih =>
    unfold holds names at ih ⊢
    rw [List.any_cons, List.any_cons, List.find?_cons, List.find?_cons, head.id, ih.1]
    refine ⟨rfl, ?_⟩
    cases m.id == id
    · exact ih.2
    · exact findSignal_extends head name

theorem applyAll_extends (es : List Edit) (d : CanDb) :
    List.Forall₂ CanMessage.Extends (d.db ++ declared es) (applyAll es d).db := by
  induction es generalizing d with
  | nil =>
    rw [declared, List.filterMap_nil, List.append_nil]
    exact extends_self d.db
  | cons e es ih =>
    have next := ih (e.apply d)
    cases e with
    | add m =>
      change List.Forall₂ _ ((d.db ++ [m]) ++ declared es) _ at next
      rw [List.append_assoc] at next
      exact next
    | describe id name pairs =>
      have here := List.rel_append (describe_extends id name pairs d) (extends_self (declared es))
      exact forall₂_trans CanMessage.extends_trans here next

/-! ### A table in a message -/

theorem withTable_nil (name : QString) (m : CanMessage) : withTable name [] m = m := by
  have signals : modifyFirst (·.name == name) (fun signal => signal) m.canSignals = m.canSignals :=
    modifyFirst_eq_self fun _ _ => rfl
  change { m with canSignals := modifyFirst (·.name == name) (fun signal => signal) m.canSignals } = m
  rw [signals]

theorem withTable_missing {m : CanMessage} (pairs : List (ℚ × QString)) (missing : (m.findSignal name).isSome = false) :
    withTable name pairs m = m := by
  have signals : modifyFirst (·.name == name) (fun signal => pairs.foldl CanSignal.addValuePair signal) m.canSignals =
      m.canSignals := by
    apply modifyFirst_eq_self
    intro s hs
    unfold CanMessage.findSignal at missing
    rw [Option.mem_def.mp hs] at missing
    cases missing
  unfold withTable CanMessage.modifySignal
  rw [signals]

/-! ### How much is described -/

def tableLength (m : CanMessage) : Nat := (m.canSignals.map (·.values.length)).sum

/-- The number of pairs in the value tables of the messages with the id. -/
def described (id : UInt32) (ms : List CanMessage) : Nat :=
  (ms.map fun m => if m.id == id then tableLength m else 0).sum

theorem described_append (id : UInt32) (ms ms' : List CanMessage) :
    described id (ms ++ ms') = described id ms + described id ms' := by
  rw [described, List.map_append, List.sum_append]
  rfl

theorem tableLength_mono {m m' : CanMessage} (h : m.Extends m') : tableLength m ≤ tableLength m' := by
  unfold tableLength
  have each := h.canSignals
  generalize m.canSignals = ss, m'.canSignals = ss' at each
  induction each with
  | nil => exact Nat.le_refl 0
  | cons head _ ih =>
    obtain ⟨more, rfl⟩ := head
    simp only [List.map_cons, List.sum_cons, List.length_append]
    omega

theorem described_mono (h : List.Forall₂ CanMessage.Extends ms ms') (id : UInt32) :
    described id ms ≤ described id ms' := by
  induction h with
  | nil => exact Nat.le_refl 0
  | @cons m m' ms ms' head _ ih =>
    have table := tableLength_mono head
    unfold described at ih ⊢
    rw [List.map_cons, List.map_cons, List.sum_cons, List.sum_cons, head.id]
    cases m.id == id
    · exact Nat.add_le_add_left ih 0
    · exact Nat.add_le_add table ih

theorem sum_modifyFirst {α : Type} {p : α → Bool} {f : α → α} {xs : List α} {x : α}
    (found : xs.find? p = some x) (w : α → Nat) :
    ((modifyFirst p f xs).map w).sum + w x = (xs.map w).sum + w (f x) := by
  obtain ⟨before, after, rfl, same⟩ := modifyFirst_find (f := f) found
  rw [same]
  simp only [List.map_append, List.map_cons, List.sum_append, List.sum_cons]
  omega

theorem tableLength_withTable (name : QString) (pairs : List (ℚ × QString)) (m : CanMessage) :
    tableLength (withTable name pairs m) = tableLength m + if (m.findSignal name).isSome then pairs.length else 0 := by
  cases signal : m.findSignal name with
  | none => rw [withTable_missing pairs (by rw [signal]; rfl), Option.isSome_none]; rfl
  | some s =>
    have table := sum_modifyFirst (f := fun signal => pairs.foldl CanSignal.addValuePair signal) signal
      (·.values.length)
    rw [CanSignal.foldl_addValuePair, List.length_append] at table
    change tableLength (withTable name pairs m) + _ = tableLength m + _ at table
    simp only [Option.isSome_some, if_true]
    omega

theorem described_describe (id id' : UInt32) (name : QString) (pairs : List (ℚ × QString))
    (ms : List CanMessage) :
    described id ((Edit.describe id' name pairs).apply ⟨ms⟩).db =
      described id ms + if id' = id ∧ names ms id' name then pairs.length else 0 := by
  change described id (modifyFirst (·.id == id') (withTable name pairs) ms) = _
  unfold names
  cases found : ms.find? (·.id == id') with
  | none =>
    rw [modifyFirst_eq_self (by simp [found])]
    simp
  | some m =>
    have same : m.id = id' := by simpa using List.find?_some found
    have total := sum_modifyFirst (f := withTable name pairs) found fun m => if m.id == id then tableLength m else 0
    change described id (modifyFirst (·.id == id') (withTable name pairs) ms) + (if m.id == id then tableLength m else 0) =
      described id ms + if m.id == id then tableLength (withTable name pairs m) else 0 at total
    rw [Option.any_some]
    by_cases here : id' = id
    · subst here
      rw [same, if_pos (by simp), if_pos (by simp), tableLength_withTable] at total
      simp only [true_and]
      omega
    · rw [same, if_neg (by simpa using here), if_neg (by simpa using here)] at total
      rw [if_neg fun both => here both.1]
      exact total

theorem described_applyAll (es : List Edit) (d : CanDb) (id : UInt32) :
    described id d.db + described id (declared es) ≤ described id (applyAll es d).db := by
  rw [← described_append]
  exact described_mono (applyAll_extends es d) id

/-! ### Lines without effect -/

theorem describe_nothing (id : UInt32) (name : QString) (d : CanDb) :
    (Edit.describe id name []).apply d = d :=
  congrArg CanDb.mk (modifyFirst_eq_self fun msg _ => withTable_nil name msg)

theorem describe_missing (pairs : List (ℚ × QString)) (missing : names ms id name = false) :
    (Edit.describe id name pairs).apply ⟨ms⟩ = ⟨ms⟩ := by
  refine congrArg CanDb.mk (modifyFirst_eq_self fun msg found => ?_)
  unfold names at missing
  rw [Option.mem_def.mp found, Option.any_some] at missing
  exact withTable_missing pairs missing

theorem describe_left (pairs : List (ℚ × QString)) (held : holds D id = true) (ms : List CanMessage) :
    ((Edit.describe id name pairs).apply ⟨D ++ ms⟩).db = ((Edit.describe id name pairs).apply ⟨D⟩).db ++ ms :=
  modifyFirst_append_left held ms

theorem describe_right (pairs : List (ℚ × QString)) (free : holds D id = false) (ms : List CanMessage) :
    ((Edit.describe id name pairs).apply ⟨D ++ ms⟩).db = D ++ ((Edit.describe id name pairs).apply ⟨ms⟩).db :=
  modifyFirst_append_right free ms

/-! ### One file beside others -/

/-- Where a line describes an id that the messages `D` hold, neither the first of them nor the first
that the text has declared so far has the signal. -/
def Undisturbed (D : List CanMessage) (es : List Edit) : Prop :=
  ∀ before id name pairs after, es = before ++ .describe id name pairs :: after → pairs ≠ [] → holds D id = true →
    names D id name = false ∧ names (declared before) id name = false

theorem undisturbed_extends (h : List.Forall₂ CanMessage.Extends ms ms') (es : List Edit) :
    Undisturbed ms' es ↔ Undisturbed ms es := by
  unfold Undisturbed
  simp only [(names_extends h _ []).1, (names_extends h _ _).2]

theorem applyAll_beside (calm : Undisturbed D es) : ∀ (after before : List Edit), es = before ++ after →
    applyAll after ⟨D ++ (applyAll before {}).db⟩ = ⟨D ++ (applyAll es {}).db⟩ := by
  intro after
  induction after with
  | nil =>
    rintro before rfl
    rw [List.append_nil]
    rfl
  | cons e after ih =>
    intro before whole
    have next := ih (before ++ [e]) (by rw [whole, List.append_assoc]; rfl)
    have last : applyAll (before ++ [e]) {} = e.apply (applyAll before {}) := List.foldl_append
    rw [last] at next
    have step : e.apply ⟨D ++ (applyAll before {}).db⟩ = ⟨D ++ (e.apply (applyAll before {})).db⟩ := by
      cases e with
      | add m => exact congrArg CanDb.mk (List.append_assoc _ _ _)
      | describe id name pairs =>
        by_cases empty : pairs = []
        · rw [empty, describe_nothing, describe_nothing]
        · cases held : holds D id with
          | false => exact congrArg CanDb.mk (describe_right pairs held _)
          | true =>
            obtain ⟨missing, undeclared⟩ := calm before id name pairs after whole empty held
            have own := (names_extends (applyAll_extends before {}) id name).2
            change _ = names (declared before) id name at own
            rw [undeclared] at own
            rw [describe_missing pairs own]
            refine congrArg CanDb.mk ((describe_left pairs held _).trans ?_)
            rw [describe_missing pairs missing]
    change applyAll after (e.apply ⟨D ++ (applyAll before {}).db⟩) = _
    rw [step]
    exact next

/-- Once messages `D` hold an id, the later ones get no table under it. -/
theorem applyAll_apart (es : List Edit) : ∀ D own : List CanMessage, holds D id = true →
    ∃ D' own', (applyAll es ⟨D ++ own⟩).db = D' ++ own' ∧ List.Forall₂ CanMessage.Extends D D' ∧
      described id own' = described id own + described id (declared es) := by
  induction es with
  | nil => exact fun D own _ => ⟨D, own, rfl, extends_self D, rfl⟩
  | cons e es ih =>
    intro D own held
    cases e with
    | add m =>
      obtain ⟨D', own', ran, grown, count⟩ := ih D (own ++ [m]) held
      rw [← List.append_assoc] at ran
      refine ⟨D', own', ran, grown, ?_⟩
      rw [count, described_append, Nat.add_assoc, ← described_append]
      rfl
    | describe id' name pairs =>
      cases held' : holds D id' with
      | true =>
        have first := describe_extends id' name pairs ⟨D⟩
        obtain ⟨D', own', ran, grown, count⟩ := ih _ own ((names_extends first id []).1.trans held)
        refine ⟨D', own', ?_, forall₂_trans CanMessage.extends_trans first grown, count⟩
        change (applyAll es ⟨((Edit.describe id' name pairs).apply ⟨D ++ own⟩).db⟩).db = _
        rw [describe_left pairs held' own]
        exact ran
      | false =>
        have other : id' ≠ id := by
          rintro rfl
          rw [held] at held'
          cases held'
        obtain ⟨D', own', ran, grown, count⟩ := ih D ((Edit.describe id' name pairs).apply ⟨own⟩).db held
        refine ⟨D', own', ?_, grown, ?_⟩
        · change (applyAll es ⟨((Edit.describe id' name pairs).apply ⟨D ++ own⟩).db⟩).db = _
          rw [describe_right pairs held' own]
          exact ran
        · rw [count, described_describe, if_neg (by simp [other]), Nat.add_zero]
          rfl

theorem applyAll_append (es es' : List Edit) (d : CanDb) :
    applyAll (es ++ es') d = applyAll es' (applyAll es d) :=
  List.foldl_append

theorem declared_append (es es' : List Edit) :
    declared (es ++ es') = declared es ++ declared es' := List.filterMap_append

/-- A table that grows under `D` stays longer. -/
theorem undisturbed_earlier {before after : List Edit} {pairs : List (ℚ × QString)} {R : List CanMessage}
    (pos : pairs ≠ []) (held : holds D id = true)
    (beside : (applyAll (before ++ .describe id name pairs :: after) ⟨D⟩).db = D ++ R) : names D id name = false := by
  by_contra named
  have named := Bool.of_not_eq_false named
  obtain ⟨D₁, own, ran, first, -⟩ := applyAll_apart before D [] held
  rw [List.append_nil] at ran
  have held₁ := (names_extends first id name).1.trans held
  have grown := described_describe id id name pairs D₁
  rw [if_pos ⟨rfl, (names_extends first id name).2.trans named⟩] at grown
  have second := describe_extends id name pairs ⟨D₁⟩
  obtain ⟨D₂, own', ran', third, -⟩ :=
    applyAll_apart after ((Edit.describe id name pairs).apply ⟨D₁⟩).db own ((names_extends second id []).1.trans held₁)
  have whole : (applyAll (before ++ .describe id name pairs :: after) ⟨D⟩).db = D₂ ++ own' := by
    have split : applyAll before ⟨D⟩ = ⟨D₁ ++ own⟩ := congrArg CanDb.mk ran
    rw [applyAll_append, split]
    change (applyAll after ⟨((Edit.describe id name pairs).apply ⟨D₁ ++ own⟩).db⟩).db = _
    rw [describe_left pairs held₁ own]
    exact ran'
  rw [whole] at beside
  have length : D₂.length = D.length := (third.length_eq.symm.trans second.length_eq.symm).trans first.length_eq.symm
  have same : D₂ = D := (List.append_inj beside length).1
  have more := described_mono third id
  have most := described_mono first id
  rw [same] at more
  have some := List.length_pos_iff.mpr pos
  omega

/-- A table that `D` takes from the text is missing there. -/
theorem undisturbed_own {before after : List Edit} {pairs : List (ℚ × QString)} {R : List CanMessage}
    (pos : pairs ≠ []) (held : holds D id = true) (whole : es = before ++ .describe id name pairs :: after)
    (beside : (applyAll (es ++ rest) ⟨D⟩).db = D ++ ((applyAll es {}).db ++ R))
    (more : described id (declared rest) ≤ described id R) : names (declared before) id name = false := by
  by_contra named
  have named := Bool.of_not_eq_false named
  obtain ⟨D', own, ran, grown, count⟩ := applyAll_apart (es ++ rest) D [] held
  rw [List.append_nil, beside] at ran
  have same : (applyAll es {}).db ++ R = own := (List.append_inj ran grown.length_eq).2
  rw [← same, described_append, declared_append, described_append] at count
  have alone : applyAll es {} = applyAll after ((Edit.describe id name pairs).apply (applyAll before {})) := by
    rw [whole, applyAll_append]
    rfl
  have shape : names (applyAll before {}).db id name = true :=
    (names_extends (applyAll_extends before {}) id name).2.trans named
  have table := described_describe id id name pairs (applyAll before {}).db
  rw [if_pos ⟨rfl, shape⟩] at table
  have first := described_applyAll before {} id
  have later := described_applyAll after ((Edit.describe id name pairs).apply (applyAll before {})) id
  have added : described id (declared es) = described id (declared before) + described id (declared after) := by
    rw [whole, declared_append, described_append]
    rfl
  have some := List.length_pos_iff.mpr pos
  have empty : described id [] = 0 := rfl
  change _ = described id [] + _ at count
  change described id [] + _ ≤ _ at first
  change described id ((Edit.describe id name pairs).apply (applyAll before {})).db = _ at table
  rw [alone] at count
  omega

theorem undisturbed_of_beside {R : List CanMessage}
    (beside : (applyAll (es ++ rest) ⟨D⟩).db = D ++ ((applyAll es {}).db ++ R))
    (more : ∀ id, described id (declared rest) ≤ described id R) : Undisturbed D es := by
  intro before id name pairs after whole pos held
  have shape : es ++ rest = before ++ .describe id name pairs :: (after ++ rest) := by
    rw [whole, List.append_assoc]
    rfl
  have run := beside
  rw [shape] at run
  exact ⟨undisturbed_earlier pos held run, undisturbed_own pos held whole beside (more id)⟩

/-! ### All files -/

/-- What a file gives when it is read alone. -/
def alone (qt : Qt) (file : Option QString) : List CanMessage := (parse qt [file]).db

/-- No file takes tables from a later one or gives tables to an earlier one, behind messages `D`. -/
def ApartFrom (qt : Qt) (D : List CanMessage) (files : List (Option QString)) : Prop :=
  ∀ before file after, files = before ++ file :: after →
    Undisturbed (D ++ declared (before.flatMap (fileEdits qt))) (fileEdits qt file)

def Apart (qt : Qt) (files : List (Option QString)) : Prop := ApartFrom qt [] files

theorem alone_eq (qt : Qt) (file : Option QString) :
    alone qt file = (applyAll (fileEdits qt file) {}).db := by
  rw [alone, parse, List.foldl_cons, List.foldl_nil, parseFile_edits]

theorem apartFrom_cons (file : Option QString) (files : List (Option QString)) :
    ApartFrom qt D (file :: files) ↔
      Undisturbed D (fileEdits qt file) ∧ ApartFrom qt (D ++ declared (fileEdits qt file)) files := by
  constructor
  · intro apart
    have first := apart [] file files rfl
    rw [List.flatMap_nil, declared, List.filterMap_nil, List.append_nil] at first
    refine ⟨first, fun before file' after whole => ?_⟩
    have later := apart (file :: before) file' after (by rw [whole]; rfl)
    rw [List.flatMap_cons, declared_append, ← List.append_assoc] at later
    exact later
  · rintro ⟨first, later⟩ before file' after whole
    cases before with
    | nil =>
      obtain ⟨rfl, rfl⟩ := List.cons_eq_cons.mp whole
      rw [List.flatMap_nil, declared, List.filterMap_nil, List.append_nil]
      exact first
    | cons file'' before =>
      obtain ⟨rfl, tail⟩ := List.cons_eq_cons.mp whole
      rw [List.flatMap_cons, declared_append, ← List.append_assoc]
      exact later before file' after tail

theorem apartFrom_extends (h : List.Forall₂ CanMessage.Extends ms ms') (files : List (Option QString)) :
    ApartFrom qt ms' files ↔ ApartFrom qt ms files := by
  have longer (ds : List CanMessage) : List.Forall₂ CanMessage.Extends (ms ++ ds) (ms' ++ ds) :=
    List.rel_append h (extends_self ds)
  unfold ApartFrom
  simp only [undisturbed_extends (longer _)]

theorem described_alone (files : List (Option QString)) (id : UInt32) :
    described id (declared (files.flatMap (fileEdits qt))) ≤ described id (files.flatMap (alone qt)) := by
  induction files with
  | nil => exact Nat.le_refl 0
  | cons file files ih =>
    have first := described_applyAll (fileEdits qt file) {} id
    have empty : described id [] = 0 := rfl
    change described id [] + _ ≤ _ at first
    rw [List.flatMap_cons, List.flatMap_cons, declared_append, described_append, described_append, alone_eq]
    omega

theorem files_beside_iff (files : List (Option QString)) : ∀ D : List CanMessage,
    (files.foldl (fun db file => parseFile qt file db) ⟨D⟩).db = D ++ files.flatMap (alone qt) ↔
      ApartFrom qt D files := by
  induction files with
  | nil =>
    intro D
    apply iff_of_true (List.append_nil D).symm
    intro before file after whole
    simp at whole
  | cons file files ih =>
    intro D
    rw [apartFrom_cons]
    have shape : List.Forall₂ CanMessage.Extends (D ++ declared (fileEdits qt file)) (D ++ alone qt file) := by
      rw [alone_eq]
      exact List.rel_append (extends_self D) (applyAll_extends (fileEdits qt file) {})
    have run (calm : Undisturbed D (fileEdits qt file)) : parseFile qt file ⟨D⟩ = ⟨D ++ alone qt file⟩ := by
      have beside := applyAll_beside calm (fileEdits qt file) [] rfl
      rw [parseFile_edits, alone_eq, ← beside]
      exact congrArg (fun ms => applyAll (fileEdits qt file) ⟨ms⟩) (List.append_nil D).symm
    rw [List.foldl_cons, List.flatMap_cons, ← apartFrom_extends shape, ← ih, ← List.append_assoc]
    constructor
    · intro whole
      have beside : (applyAll (fileEdits qt file ++ files.flatMap (fileEdits qt)) ⟨D⟩).db =
          D ++ ((applyAll (fileEdits qt file) {}).db ++ files.flatMap (alone qt)) := by
        rw [applyAll_append, ← parseFile_edits, ← parse_edits, ← alone_eq, ← List.append_assoc]
        exact whole
      have calm := undisturbed_of_beside beside fun id => described_alone files id
      rw [run calm] at whole
      exact ⟨calm, whole⟩
    · rintro ⟨calm, whole⟩
      rw [run calm]
      exact whole

/-! ### What each file contributes -/

/-- The messages behind those of the earlier files, as many as the file gives alone. -/
def contribution (qt : Qt) (before : List (Option QString)) (file : Option QString) (after : List (Option QString)) :
    List CanMessage :=
  ((parse qt (before ++ file :: after)).db.drop (parse qt before).db.length).take (parse qt [file]).db.length

theorem parse_length (files : List (Option QString)) :
    (parse qt files).db.length = (files.flatMap (alone qt)).length := by
  have whole := (applyAll_extends (files.flatMap (fileEdits qt)) {}).length_eq
  rw [← parse_edits] at whole
  change (declared (files.flatMap (fileEdits qt))).length = (parse qt files).db.length at whole
  rw [← whole]
  clear whole
  induction files with
  | nil => rfl
  | cons file files ih =>
    have first := (applyAll_extends (fileEdits qt file) {}).length_eq
    rw [← alone_eq] at first
    rw [List.flatMap_cons, List.flatMap_cons, declared_append, List.length_append, List.length_append, ih, ← first]
    rfl

theorem contributions_iff (files : List (Option QString)) :
    (∀ before file after, files = before ++ file :: after → contribution qt before file after = (parse qt [file]).db) ↔
      (parse qt files).db = files.flatMap (alone qt) := by
  constructor
  · intro each
    have suffixes (after : List (Option QString)) : ∀ before, files = before ++ after →
        (parse qt files).db.drop (parse qt before).db.length = after.flatMap (alone qt) := by
      induction after with
      | nil =>
        intro before whole
        rw [whole, List.append_nil, List.drop_length]
        rfl
      | cons file after ih =>
        intro before whole
        have here := each before file after whole
        have next := ih (before ++ [file]) (by rw [whole, List.append_assoc]; rfl)
        rw [contribution, ← whole] at here
        rw [parse_length, List.flatMap_append, List.length_append, List.flatMap_singleton, ← List.drop_drop,
          ← parse_length] at next
        rw [← List.take_append_drop (parse qt [file]).db.length ((parse qt files).db.drop _), here, List.flatMap_cons]
        exact congrArg _ next
    exact suffixes files [] rfl
  · rintro whole before file after rfl
    have front : (parse qt before).db.length = (before.flatMap (alone qt)).length := parse_length before
    rw [contribution, whole, front, List.flatMap_append, List.drop_left, List.flatMap_cons]
    exact List.take_left

/-- Every file contributes what it gives alone exactly when the files keep apart. -/
theorem parse_contributions_iff (qt : Qt) (files : List (Option QString)) :
    (∀ before file after, files = before ++ file :: after → contribution qt before file after = (parse qt [file]).db) ↔
      Apart qt files :=
  (contributions_iff files).trans (files_beside_iff files [])

def plainFile : QString := "BO_ 1 A: 8 X\n SG_ s : 0|8@1+ (1,0) [0|255] \"\" Y\n".toList

def tableFile : QString := "BO_ 1 A: 8 X\n SG_ s : 0|8@1+ (1,0) [0|255] \"\" Y\n\nVAL_ 1 s 1 \"on\" ;\n".toList

/-- The table of the second file goes to the message of the first. -/
theorem parse_contributions_taken :
    ¬ ∀ (qt : Qt) (files : List (Option QString)) (before : List (Option QString)) (file : Option QString)
      (after : List (Option QString)), files = before ++ file :: after →
        contribution qt before file after = (parse qt [file]).db := by
  intro h
  have lost : contribution plainBuild [some plainFile] (some tableFile) [] ≠ (parse plainBuild [some tableFile]).db := by
    decide +kernel
  exact lost (h plainBuild [some plainFile, some tableFile] [some plainFile] (some tableFile) [] rfl)

end CanTracer.Dbc
