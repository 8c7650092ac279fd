import CanTracer.CanLogModel.Rows
import CanTracer.Dbc.Files

/-!
# More files

A log shown with some DBC files and with more behind them. The first message with an identifier counts,
so the files behind can only speak where those before are silent.
-/

namespace CanTracer

/-- The messages keep their places, up to longer value tables, and others come behind them. -/
def CanDb.Grown (d d' : CanDb) : Prop := ∃ added, List.Forall₂ CanMessage.Extends (d.db ++ added) d'.db

theorem Dbc.parse_more (qt : Qt) (files more : List (Option QString)) :
    (parse qt files).Grown (parse qt (files ++ more)) := by
  have parsed : parse qt (files ++ more) = applyAll (more.flatMap (fileEdits qt)) (parse qt files) := by
    rw [parse, List.foldl_append, parse_edits more]
    rfl
  rw [parsed]
  exact ⟨_, applyAll_extends _ _⟩

/-! ### Messages of a grown database -/

theorem find_grown {ms added ms' : List CanMessage} (h : List.Forall₂ CanMessage.Extends (ms ++ added) ms') {id : UInt32}
    {msg : CanMessage} (found : ms.find? (·.id == id) = some msg) :
    ∃ msg', ms'.find? (·.id == id) = some msg' ∧ msg.Extends msg' := by
  induction ms generalizing ms' with
  | nil => cases found
  | cons m ms ih =>
    cases h with
    | @cons _ m' _ ms' head rest =>
      rw [List.find?_cons] at found ⊢
      rw [head.id]
      split at found
      · obtain rfl := Option.some.inj found
        exact ⟨m', rfl, head⟩
      · exact ih rest found

theorem CanDb.Grown.findMessage {d d' : CanDb} (grown : d.Grown d') {id : UInt32} {msg : CanMessage}
    (found : d.findMessage id = some msg) : ∃ msg', d'.findMessage id = some msg' ∧ msg.Extends msg' := by
  obtain ⟨added, longer⟩ := grown
  exact find_grown longer found

theorem CanMessage.Extends.signal {msg msg' : CanMessage} (h : msg.Extends msg') {i : Nat} {signal : CanSignal}
    (here : msg.canSignals[i]? = some signal) :
    ∃ more, msg'.canSignals[i]? = some { signal with values := signal.values ++ more } := by
  have each := h.canSignals
  obtain ⟨inside, rfl⟩ := List.getElem?_eq_some_iff.mp here
  have inside' : i < msg'.canSignals.length := each.length_eq ▸ inside
  obtain ⟨more, grown⟩ := List.Forall₂.get each inside inside'
  exact ⟨more, (List.getElem?_eq_getElem inside').trans (congrArg some grown)⟩

/-- A value keeps its text. -/
theorem CanSignal.display_more (signal : CanSignal) (print : Double → QString) (more : List (ℚ × QString)) (x : Double) :
    CanSignal.display { signal with values := signal.values ++ more } print x = signal.display print x ∨
      (∀ pair ∈ signal.values, Double.num pair.1 ≠ x) ∧ signal.display print x = print x := by
  rw [display, display, List.find?_append]
  cases found : signal.values.find? fun i => Double.num i.1 == x with
  | some pair => exact .inl rfl
  | none =>
    refine .inr ⟨fun pair among same => ?_, rfl⟩
    have other := List.find?_eq_none.mp found pair among
    exact other (beq_iff_eq.mpr same)

/-! ### What the log shows -/

namespace CanLogModel

section
variable (print : Double → QString) (m : CanLogModel) (d : CanDb)

/-- What is shown at an index with a grown database, where `d` shows `v`: the same, or something where `d` has
no message for the identifier or no text for the value. -/
inductive Fuller : QModelIndex → Role → QVariant → QVariant → Prop where
  | same (index : QModelIndex) (role : Role) (v : QVariant) : Fuller index role v v
  | named {r : Nat} {item : CanLogMsg} (row : m.buffer[r]? = some item) (unknown : d.findMessage item.id = none)
    (name : QString) : Fuller (.valid r 5 none) .display (.string []) (.string name)
  | colored {r c : Nat} {pointer : Option Nat} {item : CanLogMsg} (row : m.buffer[r]? = some item)
    (unknown : d.findMessage item.id = none) (color : QColor) :
    Fuller (.valid r c pointer) .background .invalid (.color color)
  | described {i p : Nat} {item : CanLogMsg} {msg : CanMessage} {signal : CanSignal} {x : Double}
    (row : m.buffer[p]? = some item) (found : d.findMessage item.id = some msg) (here : msg.canSignals[i]? = some signal)
    (value : signal.parseSignal item.data item.dlc = .ok x) (untold : ∀ pair ∈ signal.values, Double.num pair.1 ≠ x)
    (text : QString) : Fuller (.valid i 3 (some p)) .display (.string (print x)) (.string text)

end

variable {print : Double → QString} {fixed : ℚ → QString} {m : CanLogModel} {d d' : CanDb}

theorem messageRow_grown (grown : d.Grown d') {r c : Nat} {item : CanLogMsg} (row : m.buffer[r]? = some item) {v : QVariant}
    (shown : displayMessageRow fixed d item c = .ok v) :
    ∃ v', displayMessageRow fixed d' item c = .ok v' ∧ Fuller print m d (.valid r c none) .display v v' := by
  match c with
  | 5 =>
    obtain rfl := Except.ok.inj shown
    refine ⟨_, rfl, ?_⟩
    cases found : d.findMessage item.id with
    | none => exact .named row found _
    | some msg =>
      obtain ⟨msg', found', longer⟩ := grown.findMessage found
      rw [found']
      change Fuller print m d _ _ (.string msg.name) (.string msg'.name)
      rw [longer.name]
      exact .same _ _ _
  | 0 | 1 | 2 | 3 | 4 | 6 => exact ⟨v, shown, .same _ _ v⟩
  | n + 7 => exact ⟨v, shown, .same _ _ v⟩

theorem signalRow_grown (grown : d.Grown d') {i c p : Nat} {item : CanLogMsg} (row : m.buffer[p]? = some item)
    {msg : CanMessage} (found : d.findMessage item.id = some msg) {text : QString}
    (shown : displaySignalRow print msg item i c = .ok text) :
    ∃ msg' text', d'.findMessage item.id = some msg' ∧ displaySignalRow print msg' item i c = .ok text' ∧
      Fuller print m d (.valid i c (some p)) .display (.string text) (.string text') := by
  obtain ⟨msg', found', longer⟩ := grown.findMessage found
  obtain ⟨signal, read, shows⟩ := bind_ok shown
  obtain ⟨more, here'⟩ := longer.signal (at_ok read)
  refine ⟨msg', ?_⟩
  rw [displaySignalRow, at_some here', ok_bind]
  rcases c with _ | _ | _ | _ | n
  · exact ⟨text, found', shows, .same _ _ _⟩
  · exact ⟨text, found', shows, .same _ _ _⟩
  · exact ⟨text, found', shows, .same _ _ _⟩
  · obtain ⟨x, value, shows⟩ := bind_ok shows
    obtain rfl := Except.ok.inj shows
    refine ⟨_, found', congrArg (· >>= _) value, ?_⟩
    rcases signal.display_more print more x with same | ⟨untold, plain⟩
    · rw [same]
      exact .same _ _ _
    · rw [plain]
      exact .described row found (at_ok read) value untold _
  · exact ⟨text, found', shows, .same _ _ _⟩

theorem background_grown (grown : d.Grown d') {r : Nat} {item : CanLogMsg} (row : m.buffer[r]? = some item) (c : Nat)
    (pointer : Option Nat) :
    Fuller print m d (.valid r c pointer) .background (m.backgroundData d r item) (m.backgroundData d' r item) := by
  rw [backgroundData, backgroundData]
  split
  · exact .same _ _ _
  · split
    · exact .same _ _ _
    · cases found : d.findMessage item.id with
      | none =>
        cases d'.findMessage item.id with
        | none => exact .same _ _ _
        | some msg' => exact .colored row found _
      | some msg =>
        obtain ⟨msg', found', longer⟩ := grown.findMessage found
        rw [found']
        dsimp only
        rw [longer.color]
        exact .same _ _ _

theorem data_grown (grown : d.Grown d') {index : QModelIndex} {role : Role} {v : QVariant}
    (shown : m.data print fixed d index role = .ok v) :
    ∃ v', m.data print fixed d' index role = .ok v' ∧ Fuller print m d index role v v' := by
  cases index with
  | invalid => exact ⟨v, shown, .same _ _ v⟩
  | valid r c pointer =>
    rw [data] at shown ⊢
    split at shown
    · rename_i beyond
      rw [if_pos beyond]
      exact ⟨v, shown, .same _ _ v⟩
    · rename_i inside
      obtain ⟨item, read, shown⟩ := bind_ok shown
      rw [if_neg inside, read, ok_bind]
      cases role with
      | other => exact ⟨v, shown, .same _ _ v⟩
      | background =>
        obtain rfl := Except.ok.inj shown
        exact ⟨_, rfl, background_grown grown (at_ok read) c pointer⟩
      | display =>
        cases pointer with
        | none =>
          change (QList.at m.buffer r >>= _) = _ at shown
          rw [read, ok_bind] at shown
          obtain ⟨v', shown', fuller⟩ := messageRow_grown grown (at_ok read) shown
          refine ⟨v', ?_, fuller⟩
          change (QList.at m.buffer r >>= _) = _
          rw [read, ok_bind, shown']
        | some p =>
          obtain ⟨item', read', shown⟩ := bind_ok shown
          split at shown
          · cases shown
          · rename_i msg found
            obtain ⟨text, decoded, rfl⟩ := map_ok shown
            obtain ⟨msg', text', found', decoded', fuller⟩ := signalRow_grown grown (at_ok read') found decoded
            refine ⟨_, ?_, fuller⟩
            change (QList.at m.buffer p >>= _) = _
            rw [read', ok_bind, found']
            dsimp only
            rw [decoded']
            rfl

/-- A message that has rows below it keeps them. -/
theorem rowCountBelow_grown (grown : d.Grown d') {index : QModelIndex} {rows : Int}
    (counted : m.rowCountBelow d index = .ok rows) :
    ∃ rows', m.rowCountBelow d' index = .ok rows' ∧
      (rows' = rows ∨ rows = 0 ∧ ∃ r c item, index = .valid r c none ∧ m.buffer[r]? = some item ∧
        d.findMessage item.id = none) := by
  match index with
  | .invalid => exact ⟨rows, counted, .inl rfl⟩
  | .valid r c (some p) => exact ⟨rows, counted, .inl rfl⟩
  | .valid r c none =>
    obtain ⟨item, read, counted⟩ := bind_ok counted
    rw [rowCountBelow, read, ok_bind]
    split at counted
    · rename_i unknown
      obtain rfl := Except.ok.inj counted
      cases d'.findMessage item.id with
      | none => exact ⟨0, rfl, .inl rfl⟩
      | some msg' => exact ⟨_, rfl, .inr ⟨rfl, r, c, item, rfl, at_ok read, unknown⟩⟩
    · rename_i msg found
      obtain rfl := Except.ok.inj counted
      obtain ⟨msg', found', longer⟩ := grown.findMessage found
      rw [found']
      refine ⟨_, rfl, .inl ?_⟩
      rw [longer.canSignals.length_eq]

/-- DBC files behind others take nothing away from what a log shows with those: they give names, colors and signals
to messages that had none, and texts to values that had none. -/
theorem shown_moreFiles (qt : Qt) (files more : List (Option QString)) (m : CanLogModel) :
    (∀ index role v, m.data print fixed (Dbc.parse qt files) index role = .ok v →
        ∃ v', m.data print fixed (Dbc.parse qt (files ++ more)) index role = .ok v' ∧
          Fuller print m (Dbc.parse qt files) index role v v') ∧
      ∀ index rows, m.rowCountBelow (Dbc.parse qt files) index = .ok rows →
        ∃ rows', m.rowCountBelow (Dbc.parse qt (files ++ more)) index = .ok rows' ∧
          (rows' = rows ∨ rows = 0 ∧ ∃ r c item, index = .valid r c none ∧ m.buffer[r]? = some item ∧
            (Dbc.parse qt files).findMessage item.id = none) :=
  ⟨fun _ _ _ shown => data_grown (Dbc.parse_more qt files more) shown,
    fun _ _ counted => rowCountBelow_grown (Dbc.parse_more qt files more) counted⟩

end CanLogModel
end CanTracer
