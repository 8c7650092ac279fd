import CanTracer.ColorListEditor
import CanTracer.MainWindow.Databases

/-!
# Edits of colors

The color editor over the table of messages, along a run of the window. It always finds the color it is
opened on, but what it writes back goes to the first message with the identifier.
-/

namespace CanTracer

theorem CanDb.setColor_eq_self_iff {d : CanDb} {id : UInt32} {color : QColor} {first : CanMessage}
    (found : d.findMessage id = some first) : d.setColor id color = d ↔ first.color = color := by
  rw [CanDb.findMessage, List.find?_eq_getElem?_findIdx] at found
  constructor
  · intro same
    have edited := CanMsgModel.setColor_getElem? d id color (d.db.findIdx (·.id == id))
    rw [same, if_pos rfl, found] at edited
    rw [Option.some.inj edited]
    rfl
  · rintro rfl
    have same : (d.setColor id first.color).db = d.db := by
      refine List.ext_getElem? fun k => ?_
      rw [CanMsgModel.setColor_getElem?]
      split
      · rename_i here
        rw [← here, found]
        rfl
      · rfl
    cases d
    exact congrArg CanDb.mk same

theorem CanDb.mem_setColor {d : CanDb} {id : UInt32} {color : QColor} {msg : CanMessage}
    (among : msg ∈ (d.setColor id color).db) : msg ∈ d.db ∨ msg.color = color := by
  obtain ⟨k, here⟩ := List.getElem?_of_mem among
  rw [CanMsgModel.setColor_getElem?] at here
  split at here
  · obtain ⟨old, -, rfl⟩ := Option.map_eq_some_iff.mp here
    exact .inr rfl
  · exact .inl (List.mem_of_getElem? here)

theorem ColorPickDelegate.edit_ok (colorNames : List (QString × QColor)) {db : CanDb} {row : Nat} {msg : CanMessage}
    (here : db.db[row]? = some msg) :
    edit colorNames db row = .ok ((ColorListEditor.populateList colorNames).setColor (some msg.color)) := by
  have value : CanMsgModel.data db (.valid row CanMsgModel.colorColumn none) .edit = .ok (.color msg.color) := by
    rw [CanMsgModel.data, at_some here]
    rfl
  rw [edit, value]
  rfl

namespace MainWindow

section
variable {qt : Qt} {fuel : Nat} {takesNaN : Bool} (colorNames : List (QString × QColor))

/-- An edit of a color writes what the editor of the row holds when the user has taken an item, or none. -/
def Edits (s : MainWindow) (e : Event) : Prop :=
  ∀ row color, e = .user (.setColor row color) →
    ∃ editor choice, ColorPickDelegate.edit colorNames s.msgDb row = .ok editor ∧ (editor.pick choice).color = some color

/-- The colors of the messages have names, and the databases that are on their way have no colors. -/
structure Named (s : MainWindow) : Prop where
  loads : s.dbcLoads.Traced fun _ _ outcome => ∀ db, outcome = .ok db → CanMsgModel.Uncolored db.db
  shown : ∀ msg ∈ s.msgDb.db, msg.color ∈ colorNames.map (·.2)

variable {colorNames}

theorem step_named (listed : noColor ∈ colorNames.map (·.2)) (s : MainWindow) (e : Event) (s' : MainWindow)
    (named : Named colorNames s) (edits : Edits colorNames s e) (h : s.step qt fuel takesNaN e = .ok s') :
    Named colorNames s' := by
  cases step_effect s e s' h with
  | kept _ _ loads db | filtered _ _ _ _ _ _ _ _ loads db | loadedLog _ _ _ _ loads db =>
    exact ⟨loads ▸ named.loads, db ▸ named.shown⟩
  | colored row color msg event here _ _ loads db =>
    refine ⟨loads ▸ named.loads, fun other among => ?_⟩
    obtain ⟨editor, choice, opened, written⟩ := edits row color event
    rw [ColorPickDelegate.edit_ok colorNames here] at opened
    obtain rfl := Except.ok.inj opened
    have old := named.shown msg (List.mem_of_getElem? here)
    obtain ⟨taken, has, holds⟩ := ColorListEditor.pick_color old choice
    obtain rfl := Option.some.inj (written.symm.trans holds)
    rw [db] at among
    rcases CanDb.mem_setColor among with kept | is
    · exact named.shown other kept
    · rwa [is]
  | openedDbc answer _ _ _ _ _ loads db => exact ⟨loads ▸ named.loads.start answer.names, db ▸ named.shown⟩
  | finishedDbc job disk _ _ _ loads db =>
    refine ⟨loads ▸ named.loads.finish job fun fileNames outcome came d is => ?_, db ▸ named.shown⟩
    obtain rfl := Option.some.inj came
    rw [← Except.ok.inj is]
    exact CanMsgModel.parse_uncolored qt _
  | loadedDbc job _ _ _ _ loads db =>
    refine ⟨loads ▸ named.loads.notify job, fun msg among => ?_⟩
    obtain ⟨_, -, uncolored⟩ := named.loads.result db
    rw [uncolored _ rfl msg among]
    exact listed

/-- As long as colors are edited with the editor, it shows the color of the row it is opened on, and whatever is
taken is a color with a name. Left as it is it changes nothing exactly when the first message with the identifier
has that color too. -/
theorem run_edits {events : List Event} {s : MainWindow} (listed : noColor ∈ colorNames.map (·.2))
    (h : Machine.run (step qt fuel takesNaN) events {} = .ok s)
    (edits : Machine.Along (step qt fuel takesNaN) (Edits colorNames) events {}) {row : Nat} {msg : CanMessage}
    (here : s.msgDb.db[row]? = some msg) :
    ∃ editor, ColorPickDelegate.edit colorNames s.msgDb row = .ok editor ∧ editor.color = some msg.color ∧
      (∀ choice, ∃ taken ∈ colorNames.map (·.2), (editor.pick choice).color = some taken) ∧
      (s.setColor row msg.color = s ↔
        ∀ first, s.msgDb.findMessage msg.id = some first → first.color = msg.color) := by
  have named : Named colorNames s := Machine.run_along (step_named listed) events {} s ⟨nofun, nofun⟩ edits h
  have has := named.shown msg (List.mem_of_getElem? here)
  refine ⟨_, ColorPickDelegate.edit_ok colorNames here, ColorListEditor.setColor_color has, ColorListEditor.pick_color has, ?_⟩
  have found : ∃ first, s.msgDb.findMessage msg.id = some first := by
    rw [← Option.isSome_iff_exists, CanDb.findMessage, List.find?_isSome]
    exact ⟨msg, List.mem_of_getElem? here, beq_self_eq_true msg.id⟩
  obtain ⟨first, found⟩ := found
  have edited : s.setColor row msg.color = { s with msgDb := s.msgDb.setColor msg.id msg.color } := by
    rw [setColor, here]
    rfl
  rw [edited]
  constructor
  · intro same other is
    obtain rfl := Option.some.inj (found.symm.trans is)
    exact (CanDb.setColor_eq_self_iff found).mp (congrArg MainWindow.msgDb same)
  · intro same
    rw [(CanDb.setColor_eq_self_iff found).mpr (same first found)]

/-- Two messages with one identifier. -/
def twoDoors : File where
  bytes := []
  text := "BO_ 1 A: 8 B\n\nBO_ 1 C: 8 B".toList

def twoColors : List (QString × QColor) := [("transparent".toList, noColor), ("yellow".toList, yellow)]

def doorsOpened : List Event :=
  [.user .openDbcFile, .close (.fileNames ["a.dbc".toList]) 0, .finishDbc 0 fun _ => some twoDoors, .notifyDbc 0]

/-- The first message is yellow, and the editor over the second shows no color. -/
theorem run_edits_doors : ∃ s msg, Machine.run (step plainBuild 0 true) (doorsOpened ++ [.user (.setColor 0 yellow)]) {} = .ok s ∧
    s.msgDb.db[1]? = some msg ∧
      ∃ editor, ColorPickDelegate.edit twoColors s.msgDb 1 = .ok editor ∧ editor.color = some msg.color ∧
        (∀ choice, ∃ taken ∈ twoColors.map (·.2), (editor.pick choice).color = some taken) ∧
        (s.setColor 1 msg.color = s ↔ ∀ first, s.msgDb.findMessage msg.id = some first → first.color = msg.color) := by
  have second : (Machine.run (step plainBuild 0 true) (doorsOpened ++ [.user (.setColor 0 yellow)]) {}).map
      (fun s => s.msgDb.db[1]?.isSome) = .ok true := by
    decide +kernel
  obtain ⟨s, ran, there⟩ := map_ok second
  obtain ⟨msg, here⟩ := Option.isSome_iff_exists.mp there
  have before : ∀ s, ∀ e ∈ doorsOpened, Edits twoColors s e := by
    rintro s _ among row color rfl
    simp [doorsOpened] at among
  have edits : Machine.Along (step plainBuild 0 true) (Edits twoColors) (doorsOpened ++ [.user (.setColor 0 yellow)]) {} := by
    refine Machine.along_concat doorsOpened _ (Machine.along_forall before _) ?_
    rintro s ran row color ⟨⟩
    have held : (Machine.run (step plainBuild 0 true) doorsOpened {}).map (fun s =>
        (ColorPickDelegate.edit twoColors s.msgDb 0).map fun editor => (editor.pick (some 1)).color) =
          .ok (.ok (some yellow)) := by
      decide +kernel
    obtain ⟨s', ran', held⟩ := map_ok held
    obtain rfl := Except.ok.inj (ran.symm.trans ran')
    obtain ⟨editor, opened, holds⟩ := map_ok held
    exact ⟨editor, some 1, opened, holds⟩
  exact ⟨s, msg, ran, here, run_edits (by decide) ran edits here⟩

end
end MainWindow
end CanTracer
