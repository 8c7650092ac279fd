import CanTracer.CanLogModel.Texts
import CanTracer.CanSignalModel
import CanTracer.MainWindow.Plots

/-!
# Labels

Texts that are put together by filling one place after the other: the label under the mouse, the items of
the plot list and the values of a signal.
-/

namespace CanTracer

open PlaceMarkers

/-! ### Under the mouse -/

namespace CustomQChartView

/-- The label of `mouseMoveEvent`. -/
def label (print : Double → QString) (signal : CanSignal) (title : QString) (x y : Double) : QString :=
  arg (arg (arg "%3: %1, %2".toList (print x)) (signal.display print y)) title

/-- What the label should be. -/
def intended (title x text : QString) : QString := title ++ (": ".toList ++ (x ++ (", ".toList ++ text)))

theorem scan_label (s : QString) : scan ("%3: ".toList ++ s) = .marker 3 "%3".toList :: .char ':' :: .char ' ' :: scan s := by
  have is : PlaceMarkers.marker ('3' :: ':' :: ' ' :: s) = some (3, 1) := rfl
  have colon : scan (':' :: ' ' :: s) = .char ':' :: .char ' ' :: scan s := by
    rw [scan_char (by decide), scan_char (by decide)]
  exact (scan_marker is).trans (congrArg _ colon)

theorem numbers_label (s : QString) : numbers ("%3: ".toList ++ s) = 3 :: numbers s := by
  rw [numbers, scan_label]
  rfl

theorem fill_label (s : QString) (n : Nat) (a : QString) :
    (scan ("%3: ".toList ++ s)).flatMap (Piece.fill n a) =
      (if 3 = n then a else "%3".toList) ++ (": ".toList ++ (scan s).flatMap (Piece.fill n a)) := by
  rw [scan_label]
  rfl

theorem arg_x (x : QString) : arg "%3: %1, %2".toList x = "%3: ".toList ++ (x ++ ", %2".toList) := by
  have lowest : (numbers "%3: %1, %2".toList).min? = some 1 := by decide
  have places : scan "%3: %1, %2".toList =
      [.marker 3 "%3".toList, .char ':', .char ' ', .marker 1 "%1".toList, .char ',', .char ' ', .marker 2 "%2".toList] := by
    decide
  rw [arg_lowest lowest, places]
  rfl

theorem arg_y {x : QString} (plain : '%' ∉ x) (text : QString) :
    arg ("%3: ".toList ++ (x ++ ", %2".toList)) text = "%3: ".toList ++ (x ++ (", ".toList ++ text)) := by
  have lowest : (numbers ("%3: ".toList ++ (x ++ ", %2".toList))).min? = some 2 := by
    rw [numbers_label, numbers_plain plain]
    decide
  have last : (scan ", %2".toList).flatMap (Piece.fill 2 text) = ", ".toList ++ text := by
    have places : scan ", %2".toList = [.char ',', .char ' ', .marker 2 "%2".toList] := by decide
    rw [places]
    simp [Piece.fill]
  rw [arg_lowest lowest, fill_label, fill_plain plain, last]
  rfl

/-- The label says what it should exactly when the text of the value has no place that is filled with or
before that of the title. -/
theorem label_intended_iff {print : Double → QString} (plain : ∀ v, '%' ∉ print v) (signal : CanSignal) {title : QString}
    (noPercent : '%' ∉ title) (x y : Double) :
    label print signal title x y = intended title (print x) (signal.display print y) ↔
      ∀ n ∈ numbers (signal.display print y), 3 < n := by
  rw [label, arg_x, arg_y (plain x)]
  generalize signal.display print y = text
  have rest : numbers (print x ++ (", ".toList ++ text)) = numbers text := by
    rw [numbers_plain (plain x), numbers_plain (by decide)]
  have fill (n : Nat) : (scan (print x ++ (", ".toList ++ text))).flatMap (Piece.fill n title) =
      print x ++ (", ".toList ++ (scan text).flatMap (Piece.fill n title)) := by
    rw [fill_plain (plain x), fill_plain (by decide)]
  constructor
  · intro same n present
    by_contra low
    cases lowest : (numbers ("%3: ".toList ++ (print x ++ (", ".toList ++ text)))).min? with
    | none =>
      rw [numbers_label] at lowest
      cases List.min?_eq_none_iff.mp lowest
    | some m =>
      rw [arg_lowest lowest, fill_label, fill] at same
      rw [numbers_label, rest] at lowest
      obtain ⟨-, least⟩ := List.min?_eq_some_iff.mp lowest
      by_cases third : 3 = m
      · -- The text of the value has the place too, and the title takes its percent sign.
        subst third
        have third : n = 3 := Nat.le_antisymm (Nat.le_of_not_lt low) (least n (List.mem_cons_of_mem _ present))
        rw [if_pos rfl, intended] at same
        have filled := List.append_cancel_left (List.append_cancel_left (List.append_cancel_left (List.append_cancel_left same)))
        have fewer := fill_count_lt noPercent (third ▸ present)
        rw [filled] at fewer
        exact Nat.lt_irrefl _ fewer
      · -- The place in front stays as it is.
        rw [if_neg third] at same
        cases title with
        | nil => exact absurd (List.cons.inj same).1 (by decide)
        | cons c title => exact noPercent (List.mem_cons.mpr (.inl (List.cons.inj same).1))
  · intro high
    have lowest : (numbers ("%3: ".toList ++ (print x ++ (", ".toList ++ text)))).min? = some 3 := by
      rw [numbers_label, rest]
      refine List.min?_eq_some_iff.mpr ⟨List.mem_cons_self, fun n present => ?_⟩
      rcases List.mem_cons.mp present with rfl | present
      · exact Nat.le_refl 3
      · exact Nat.le_of_lt (high n present)
    have absent : 3 ∉ numbers text := fun present => Nat.lt_irrefl 3 (high 3 present)
    rw [arg_lowest lowest, fill_label, fill, fill_absent absent, if_pos rfl]
    rfl

/-- A valve whose texts have percent signs: the one for 50 is followed by a digit. -/
def valve : CanSignal where
  startBit := 0
  len := 8
  isBigEndian := false
  isSigned := false
  scale := 1
  offset := 0
  name := "valve".toList
  values := [(50, "50%2 of 3".toList), (100, "100% open".toList)]

theorem label_intended_valve :
    label (fun _ => "0.5".toList) valve valve.name (.num 1) (.num 50) =
        intended valve.name "0.5".toList (valve.display (fun _ => "0.5".toList) (.num 50)) ↔
      ∀ n ∈ numbers (valve.display (fun _ => "0.5".toList) (.num 50)), 3 < n :=
  label_intended_iff (fun _ => by decide) valve (by decide) (.num 1) (.num 50)

example : label (fun _ => "0.5".toList) valve valve.name (.num 1) (.num 50) = "%3: 0.5, 50valve of 3".toList := by
  decide +kernel

end CustomQChartView

/-! ### The plot list -/

namespace SignalPlotListModel

/-- The text of an item. -/
def itemText (item : SignalPlotItem) : QString :=
  arg (arg "%2 - %1".toList (CanMessage.formatId item.msgId)) item.signal.name

def data (m : SignalPlotListModel) (index : QModelIndex) (role : Role) : Except Failure QVariant :=
  match index, role with
  | .valid row _ _, .display => do
    let item ← QList.at m.items row
    return .string (itemText item)
  | _, _ => .ok .invalid

theorem itemText_eq (item : SignalPlotItem) :
    itemText item = item.signal.name ++ (" - ".toList ++ CanMessage.formatId item.msgId) := by
  have places : scan "%2 - %1".toList =
      [.marker 2 "%2".toList, .char ' ', .char '-', .char ' ', .marker 1 "%1".toList] := by
    decide
  have first : arg "%2 - %1".toList (CanMessage.formatId item.msgId) =
      '%' :: '2' :: (" - ".toList ++ CanMessage.formatId item.msgId) := by
    have lowest : (numbers "%2 - %1".toList).min? = some 1 := by decide
    rw [arg_lowest lowest, places]
    simp [Piece.fill]
  have hex : '%' ∉ CanMessage.formatId item.msgId := fun among => absurd (hexText_upperHex _ _ _ among) (by decide)
  have plain : '%' ∉ " - ".toList ++ CanMessage.formatId item.msgId := by
    rw [List.mem_append, not_or]
    exact ⟨by decide, hex⟩
  have is : PlaceMarkers.marker ('2' :: (" - ".toList ++ CanMessage.formatId item.msgId)) = some (2, 1) := rfl
  have rest : numbers (" - ".toList ++ CanMessage.formatId item.msgId) = [] := by
    have same := numbers_plain plain []
    rwa [List.append_nil] at same
  have second := scan_marker is
  have numbered : numbers ('%' :: '2' :: (" - ".toList ++ CanMessage.formatId item.msgId)) = [2] := by
    rw [numbers, second]
    change 2 :: numbers (" - ".toList ++ CanMessage.formatId item.msgId) = [2]
    rw [rest]
  have absent : 2 ∉ numbers (" - ".toList ++ CanMessage.formatId item.msgId) := by
    rw [rest]
    exact List.not_mem_nil
  have lowest : (numbers ('%' :: '2' :: (" - ".toList ++ CanMessage.formatId item.msgId))).min? = some 2 := by
    rw [numbered]
    rfl
  rw [itemText, first, arg_lowest lowest, second, List.flatMap_cons, Piece.fill, if_pos rfl]
  exact congrArg _ (fill_absent absent item.signal.name)

theorem itemText_injective {item item' : SignalPlotItem} (same : itemText item = itemText item') :
    item.msgId = item'.msgId ∧ item.signal.name = item'.signal.name := by
  have last (item : SignalPlotItem) :
      (itemText item).reverse.takeWhile (· != ' ') = (CanMessage.formatId item.msgId).reverse := by
    have noBlank : ∀ c ∈ (CanMessage.formatId item.msgId).reverse, (c != ' ') = true := fun c among =>
      bne_iff_ne.mpr (not_blank_of_isUpperHex (hexText_upperHex _ _ c (List.mem_reverse.mp among)))
    rw [itemText_eq, List.reverse_append, List.reverse_append, List.append_assoc, List.takeWhile_append_of_pos noBlank]
    exact List.append_nil _
  have ids : CanMessage.formatId item.msgId = CanMessage.formatId item'.msgId := by
    rw [← List.reverse_inj, ← last, ← last, same]
  refine ⟨formatId_injective ids, ?_⟩
  rw [itemText_eq, itemText_eq, ids] at same
  exact List.append_cancel_right same

/-- Rows of the list look alike exactly when they are plots of the same identifier and of signals with the
same name, whatever characters the names have. -/
theorem data_alike_iff {m : SignalPlotListModel} {r r' : Nat} {item item' : SignalPlotItem}
    (here : m.items[r]? = some item) (there : m.items[r']? = some item') :
    m.data (.valid r 0 none) .display = m.data (.valid r' 0 none) .display ↔
      item.msgId = item'.msgId ∧ item.signal.name = item'.signal.name := by
  rw [data, data, at_some here, at_some there, ok_bind, ok_bind]
  constructor
  · intro same
    exact itemText_injective (QVariant.string.inj (Except.ok.inj same))
  · rintro ⟨ids, names⟩
    rw [itemText_eq, itemText_eq, ids, names]

/-- Two plots of signals of one name, from messages with a standard and an extended identifier. -/
def twoPlots : SignalPlotListModel where
  items := [⟨0x123, CustomQChartView.valve⟩, ⟨0x18FF0123, CustomQChartView.valve⟩]

theorem data_alike_twoPlots :
    twoPlots.data (.valid 0 0 none) .display = twoPlots.data (.valid 1 0 none) .display ↔
      (0x123 : UInt32) = 0x18FF0123 ∧ CustomQChartView.valve.name = CustomQChartView.valve.name :=
  data_alike_iff (m := twoPlots) (show twoPlots.items[0]? = some _ from rfl) (show twoPlots.items[1]? = some _ from rfl)

end SignalPlotListModel

/-! ### The values of a signal -/

namespace CanSignalModel

theorem pairText_eq {print : Double → QString} (plain : ∀ v, '%' ∉ print v) (p : ℚ × QString) :
    pairText print p = print (.num p.1) ++ (" - ".toList ++ (p.2 ++ ['\n'])) := by
  have key : arg "%1 - %2\n".toList (print (.num p.1)) = print (.num p.1) ++ " - %2\n".toList := by
    have places : scan "%1 - %2\n".toList =
        [.marker 1 "%1".toList, .char ' ', .char '-', .char ' ', .marker 2 "%2".toList, .char '\n'] := by
      decide
    have lowest : (numbers "%1 - %2\n".toList).min? = some 1 := by decide
    rw [arg_lowest lowest, places]
    rfl
  have lowest : (numbers (print (.num p.1) ++ " - %2\n".toList)).min? = some 2 := by
    rw [numbers_plain (plain _)]
    decide
  have places : scan " - %2\n".toList =
      [.char ' ', .char '-', .char ' ', .marker 2 "%2".toList, .char '\n'] := by
    decide
  rw [pairText, key, arg_lowest lowest, fill_plain (plain _), places]
  rfl

/-- Every pair has its line, and the texts stand in it as they are. -/
theorem valuesText_eq {print : Double → QString} (plain : ∀ v, '%' ∉ print v) (signal : CanSignal) :
    valuesText print signal =
      trimmed (signal.values.flatMap fun p => print (.num p.1) ++ (" - ".toList ++ (p.2 ++ ['\n']))) := by
  have lines : pairText print = fun p => print (.num p.1) ++ (" - ".toList ++ (p.2 ++ ['\n'])) :=
    funext (pairText_eq plain)
  rw [valuesText, lines, List.foldl_append_eq_append, List.nil_append, List.flatMap]

end CanSignalModel
end CanTracer
