import CanTracer.CanLogModel.Texts
import CanTracer.SignalSelectDialog

/-!
# The color editor

`ColorListEditor`, a box of named colors, and `ColorPickDelegate`, which puts it over a cell of the color
column and writes back what it holds when it is closed.
-/

namespace CanTracer

/-- A box with a color for each item. -/
structure ColorListEditor where
  box : QComboBox := {}
  decorations : List QColor := []
  deriving DecidableEq

namespace ColorListEditor

/-- `insertItem` and `setItemData`. -/
def insertColor (e : ColorListEditor) (i : Nat) (entry : QString × QColor) : ColorListEditor where
  box := e.box.insertItem i entry.1
  decorations := e.decorations.insertIdx (min i e.decorations.length) entry.2

/-- `colorNames` lists the names that `QColor` knows, each with its color. -/
def populateList (colorNames : List (QString × QColor)) : ColorListEditor :=
  colorNames.zipIdx.foldl (fun e entry => e.insertColor entry.2 entry.1) {}

/-- No item has the invalid color, `none`. -/
def findData (e : ColorListEditor) (color : Option QColor) : Int :=
  match color.bind fun color => e.decorations.findIdx? (· == color) with
  | none => -1
  | some i => i

def setColor (e : ColorListEditor) (color : Option QColor) : ColorListEditor :=
  { e with box := { e.box with currentIndex := e.findData color } }

/-- The invalid color when no item is current. -/
def color (e : ColorListEditor) : Option QColor := (QList.atInt e.decorations e.box.currentIndex).toOption

/-- The user takes an item or, with `none`, leaves the box as it is. -/
def pick (e : ColorListEditor) : Option Nat → ColorListEditor
  | none => e
  | some row => if row < e.box.items.length then { e with box := { e.box with currentIndex := row } } else e

end ColorListEditor

/-- `qvariant_cast` -/
def QVariant.toColor : QVariant → Option QColor
  | .color c => some c
  | _ => none

namespace ColorPickDelegate

/-- `createEditor` and `setEditorData` over the color of a row. -/
def edit (colorNames : List (QString × QColor)) (db : CanDb) (row : Nat) : Except Failure ColorListEditor := do
  let value ← CanMsgModel.data db (.valid row CanMsgModel.colorColumn none) .edit
  return (ColorListEditor.populateList colorNames).setColor value.toColor

end ColorPickDelegate

/-! ### What the box holds -/

namespace ColorListEditor

open SignalSelectDialog (boxOf insertItem_end)

theorem populate_from (colorNames : List (QString × QColor)) : ∀ before : List (QString × QColor),
    (colorNames.zipIdx before.length).foldl (fun e entry => insertColor e entry.2 entry.1)
        ⟨boxOf (before.map (·.1)), before.map (·.2)⟩ =
      ⟨boxOf ((before ++ colorNames).map (·.1)), (before ++ colorNames).map (·.2)⟩ := by
  induction colorNames with
  | nil => exact fun before => by rw [List.append_nil]; rfl
  | cons entry colorNames ih =>
    intro before
    have next := ih (before ++ [entry])
    have inserted := insertItem_end (before.map (·.1)) entry.1
    rw [List.length_map] at inserted
    have first : insertColor ⟨boxOf (before.map (·.1)), before.map (·.2)⟩ before.length entry =
        ⟨boxOf ((before ++ [entry]).map (·.1)), (before ++ [entry]).map (·.2)⟩ := by
      rw [insertColor, inserted, List.length_map, Nat.min_self, List.map_append, List.map_append]
      have behind : (before.map (·.2)).insertIdx (before.map (·.2)).length entry.2 = before.map (·.2) ++ [entry.2] :=
        List.insertIdx_length_self
      rw [List.length_map] at behind
      rw [behind]
      rfl
    rw [List.length_append, List.length_singleton, List.append_assoc] at next
    rw [List.zipIdx_cons, List.foldl_cons, first, next]
    rfl

theorem populateList_eq (colorNames : List (QString × QColor)) :
    populateList colorNames = ⟨boxOf (colorNames.map (·.1)), colorNames.map (·.2)⟩ := populate_from colorNames []

theorem color_at {e : ColorListEditor} {i : Nat} {color : QColor} (current : e.box.currentIndex = i)
    (here : e.decorations[i]? = some color) : e.color = some color := by
  rw [ColorListEditor.color, current, atInt_natCast, at_some here]
  rfl

theorem setColor_color {colorNames : List (QString × QColor)} {color : QColor} (listed : color ∈ colorNames.map (·.2)) :
    ((populateList colorNames).setColor (some color)).color = some color := by
  rw [populateList_eq]
  obtain ⟨i, found⟩ : ∃ i, (colorNames.map (·.2)).findIdx? (· == color) = some i := by
    rw [← Option.isSome_iff_exists, List.findIdx?_isSome]
    exact List.any_eq_true.mpr ⟨color, listed, beq_self_eq_true color⟩
  obtain ⟨inside, is, -⟩ := List.findIdx?_eq_some_iff_getElem.mp found
  refine color_at (i := i) ?_ ((List.getElem?_eq_getElem inside).trans (congrArg some (beq_iff_eq.mp is)))
  rw [setColor, findData, Option.bind_some, found]

/-- Whatever the user takes is a color that has a name. -/
theorem pick_color {colorNames : List (QString × QColor)} {color : QColor} (listed : color ∈ colorNames.map (·.2))
    (choice : Option Nat) :
    ∃ taken ∈ colorNames.map (·.2), (((populateList colorNames).setColor (some color)).pick choice).color = some taken := by
  cases choice with
  | none => exact ⟨color, listed, setColor_color listed⟩
  | some row =>
    rw [pick]
    split
    · rename_i inside
      rw [populateList_eq] at inside ⊢
      have inside : row < (colorNames.map (·.2)).length := by
        rw [List.length_map]
        exact Nat.lt_of_lt_of_eq inside (List.length_map _)
      exact ⟨_, List.getElem_mem inside, color_at rfl (List.getElem?_eq_getElem inside)⟩
    · exact ⟨color, listed, setColor_color listed⟩

end ColorListEditor
end CanTracer
