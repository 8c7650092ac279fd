import CanTracer.MainWindow.Shown

/-!
# What an action of the log menu does

An action turns the highlight of the message that was under the mouse, or of all with its identifier, whatever has
come between the menu and the action but a load of a log or another action.
-/

namespace CanTracer

namespace CanLogModel

/-- The rows that an action on a row is for. -/
def Reaches (m : CanLogModel) (row : Nat) (target : Target) (i : Nat) : Prop :=
  match target with
  | .msg => i = row
  | .id => m.buffer[i]?.map (·.id) = m.buffer[row]?.map (·.id)

/-- The highlights are turned where the action reaches, and left everywhere else. -/
structure Toggles (m : CanLogModel) (row : Nat) (target : Target) (m' : CanLogModel) : Prop where
  buffer : m'.buffer = m.buffer
  turned : ∀ i : Nat, (i : Int) < m.rowCount → m.Reaches row target i →
    m'.isHighlight i target = (m.isHighlight i target).map (!·)
  others : ∀ (i : Nat) t, (i : Int) < m.rowCount → (t = target → ¬ m.Reaches row target i) →
    m'.isHighlight i t = m.isHighlight i t

variable {m : CanLogModel}

theorem isIdHighlight_some {i : Nat} {item : CanLogMsg} (here : m.buffer[i]? = some item) :
    m.isIdHighlight i = .ok ((m.idList item.id).getD false) := by
  rw [isIdHighlight, at_some here]
  rfl

theorem setHighlightMsg_toggles {row : Nat} (shown : (row : Int) < m.rowCount) :
    m.Toggles row .msg (m.setHighlightMsg row !m.isMsgHighlight row) := by
  refine ⟨rfl, ?_, ?_⟩
  · rintro i - rfl
    change Except.ok ((Function.update m.rowList i.toUInt32 _ i.toUInt32).getD false) = .ok !m.isMsgHighlight i
    rw [Function.update_self]
    rfl
  · intro i t inside other
    cases t with
    | id => rfl
    | msg =>
      -- The keys are 32 bits wide, and so are the rows that are counted.
      have apart : i.toUInt32 ≠ row.toUInt32 := by
        intro same
        have rows := congrArg UInt32.toNat same
        rw [(LogWindow.row_toUInt32 inside).1, (LogWindow.row_toUInt32 shown).1] at rows
        exact other rfl rows
      change Except.ok ((Function.update m.rowList row.toUInt32 _ i.toUInt32).getD false) = _
      rw [Function.update_of_ne apart]
      rfl

theorem setHighlightId_toggles {row : Nat} {item : CanLogMsg} (here : m.buffer[row]? = some item) :
    m.Toggles row .id { m with idList := Function.update m.idList item.id (some !(m.idList item.id).getD false) } := by
  have found {i : Nat} (inside : (i : Int) < m.rowCount) : ∃ other, m.buffer[i]? = some other :=
    ⟨_, List.getElem?_eq_getElem (LogWindow.row_toUInt32 inside).2⟩
  have read {i : Nat} {other : CanLogMsg} (there : m.buffer[i]? = some other) :
      isHighlight { m with idList := Function.update m.idList item.id (some !(m.idList item.id).getD false) } i .id =
        .ok ((Function.update m.idList item.id (some !(m.idList item.id).getD false) other.id).getD false) :=
    isIdHighlight_some there
  refine ⟨rfl, ?_, ?_⟩
  · intro i inside reaches
    obtain ⟨other, there⟩ := found inside
    unfold Reaches at reaches
    dsimp only at reaches
    rw [there, here] at reaches
    have own : other.id = item.id := Option.some.inj reaches
    rw [read there, isHighlight, isIdHighlight_some there, own, Function.update_self]
    rfl
  · intro i t inside other
    cases t with
    | msg => rfl
    | id =>
      obtain ⟨message, there⟩ := found inside
      have apart : message.id ≠ item.id := by
        intro own
        refine other rfl ?_
        unfold Reaches
        dsimp only
        rw [there, here, Option.map_some, Option.map_some, own]
      rw [read there, isHighlight, isIdHighlight_some there, Function.update_of_ne apart]

end CanLogModel

namespace LogWindow

/-- The status that the actions of a menu set is the opposite of what its row has. -/
def Offers (m : CanLogModel) (menu : LogMenu) : Prop :=
  (menu.row : Int) < m.rowCount ∧ ∀ target, m.isHighlight menu.row target = .ok !menu.status target

theorem contextMenu_offers {s s' : LogWindow} {row : Nat} (shown : (row : Int) < s.model.rowCount)
    (h : s.step (.contextMenu row) = .ok s') :
    s'.model = s.model ∧ ∃ menu, menu.row = row ∧ s'.menus = s.menus ++ [menu] ∧ Offers s.model menu := by
  rw [step, onContextMenu, if_pos shown] at h
  obtain ⟨id, read, h⟩ := bind_ok h
  rw [← Except.ok.inj h]
  refine ⟨rfl, _, rfl, rfl, shown, fun target => ?_⟩
  cases target with
  | msg => exact congrArg _ (Bool.not_not _).symm
  | id => exact read.trans (congrArg _ (Bool.not_not _).symm)

theorem action_toggles {s : LogWindow} {k : Nat} {menu : LogMenu} (opened : s.menus[k]? = some menu)
    (offers : Offers s.model menu) (target : Target) :
    ∃ s', s.step (.action target k) = .ok s' ∧ s.model.Toggles menu.row target s'.model := by
  obtain ⟨shown, opposite⟩ := offers
  rw [step, opened]
  cases target with
  | msg =>
    have status : menu.status .msg = !s.model.isMsgHighlight menu.row := by
      rw [Except.ok.inj (opposite .msg), Bool.not_not]
    refine ⟨_, rfl, ?_⟩
    change s.model.Toggles menu.row .msg (s.model.setHighlightMsg menu.row (menu.status .msg))
    rw [status]
    exact CanLogModel.setHighlightMsg_toggles shown
  | id =>
    obtain ⟨item, here⟩ : ∃ item, s.model.buffer[menu.row]? = some item :=
      ⟨_, List.getElem?_eq_getElem (row_toUInt32 shown).2⟩
    have status : menu.status .id = !(s.model.idList item.id).getD false := by
      have read := (CanLogModel.isIdHighlight_some here).symm.trans (opposite .id)
      rw [Except.ok.inj read, Bool.not_not]
    dsimp only
    rw [CanLogModel.setHighlight, CanLogModel.setHighlightId_some here, status]
    exact ⟨_, rfl, CanLogModel.setHighlightId_toggles here⟩

end LogWindow

namespace MainWindow

section
variable {qt : Qt} {fuel : Nat} {takesNaN : Bool}

/-- The step is no action of a log menu and takes over no log. -/
structure LeavesMarks (s : MainWindow) (e : Event) : Prop where
  action : ∀ target k, e ≠ .user (.highlight target k)
  log : ∀ job, e = .notifyLog job → s.logLoads.pending job = false

/-- The highlights stay, and so do the menus that are open. -/
def SameMarks (s s' : MainWindow) : Prop := s'.logs.model = s.logs.model ∧ s.logs.menus <+: s'.logs.menus

theorem SameMarks.of_eq {s s' : MainWindow} (logs : s'.logs = s.logs) : s.SameMarks s' :=
  ⟨by rw [logs], by rw [logs]⟩

theorem contextMenu_marks {s s' : LogWindow} {row : Nat} (h : s.step (.contextMenu row) = .ok s') :
    s'.model = s.model ∧ s.menus <+: s'.menus := by
  rw [LogWindow.step, LogWindow.onContextMenu] at h
  split at h
  · obtain ⟨id, -, h⟩ := bind_ok h
    rw [← Except.ok.inj h]
    exact ⟨rfl, List.prefix_append _ _⟩
  · rw [← Except.ok.inj h]
    exact ⟨rfl, List.prefix_rfl⟩

theorem act_marks {s s' : MainWindow} {action : Action} (leaves : ∀ target k, action ≠ .highlight target k)
    (h : s.act action = .ok s') : s.SameMarks s' := by
  cases action with
  | openFile | openDbcFile | headerContextMenu index =>
    rw [← Except.ok.inj h]
    exact .of_eq rfl
  | contextMenu row =>
    obtain ⟨logs, opened, h⟩ := bind_ok h
    rw [← Except.ok.inj h]
    exact contextMenu_marks opened
  | highlight target k => exact absurd rfl (leaves target k)
  | signalPlotMenu row =>
    rw [← Except.ok.inj h, onSignalPlotMenu]
    split <;> exact .of_eq rfl
  | addSignal =>
    rw [act] at h
    split at h
    · rw [← Except.ok.inj h]
      exact .of_eq rfl
    · obtain ⟨dialog, -, h⟩ := bind_ok h
      rw [← Except.ok.inj h]
      exact .of_eq rfl
  | removeSignal menu =>
    obtain ⟨plots, -, h⟩ := bind_ok h
    rw [← Except.ok.inj h]
    exact .of_eq rfl
  | setColor row color =>
    rw [← Except.ok.inj h, setColor]
    split <;> exact .of_eq rfl

theorem closed_logs {s s' : MainWindow} {answer : Answer} {endId : UInt32} {dialog : Dialog}
    (h : closed takesNaN { s with dialog := none } answer endId dialog = .ok s') : s'.logs = s.logs := by
  cases dialog with
  | openFile =>
    rw [← Except.ok.inj h, openFileClosed]
    split <;> rfl
  | openDbcFile =>
    rw [← Except.ok.inj h]
    rfl
  | filter index old =>
    rw [← Except.ok.inj h]
    cases answer <;> rfl
  | selectSignal dialog =>
    obtain ⟨msgId, signal, rfl⟩ := onAddSignalClosed_ok h
    rfl

theorem step_marks {s s' : MainWindow} {e : Event} (leaves : s.LeavesMarks e)
    (h : s.step qt fuel takesNaN e = .ok s') : s.SameMarks s' := by
  cases e with
  | user action =>
    rw [step] at h
    split at h
    · rw [← Except.ok.inj h]
      exact .of_eq rfl
    · refine act_marks (fun target k is => ?_) h
      exact leaves.action target k (congrArg _ is)
  | selectMessage row =>
    rw [step] at h
    split at h
    · obtain ⟨dialog, -, h⟩ := bind_ok h
      rw [← Except.ok.inj h]
      exact .of_eq rfl
    · rw [← Except.ok.inj h]
      exact .of_eq rfl
  | selectSignal row =>
    rw [step] at h
    split at h <;> rw [← Except.ok.inj h] <;> exact .of_eq rfl
  | close answer endId =>
    rw [step] at h
    split at h
    · exact .of_eq (closed_logs h)
    · rw [← Except.ok.inj h]
      exact .of_eq rfl
  | finishLog job disk | dropLog job | finishDbc job disk =>
    rw [← Except.ok.inj h]
    exact .of_eq rfl
  | notifyLog job =>
    rw [step, leaves.log job rfl, if_neg Bool.false_ne_true] at h
    rw [← Except.ok.inj h]
    exact .of_eq rfl
  | notifyDbc job =>
    rw [step] at h
    split at h
    · unfold onLoadDbcFile at h
      split at h
      · cases h
      · cases h
      · rw [← Except.ok.inj h]
        exact .of_eq rfl
    · rw [← Except.ok.inj h]
      exact .of_eq rfl

end
end MainWindow

namespace ViewWindow

section
variable {qt : Qt} {fuel : Nat} {takesNaN : Bool}
variable {print : Double → QString} {fixed : ℚ → QString} {contains : QString → QString → Bool}
variable {entries : CustomProxyModel → List (UInt8 × QString)}

def LeavesMarks (s : ViewWindow) (e : ViewEvent) : Prop := ∀ e', e = .window e' → s.window.LeavesMarks e'

theorem mapToSource_leaves {s : ViewWindow} {e e' : Event} (leaves : s.window.LeavesMarks e)
    (mapped : s.mapToSource e = some e') : s.window.LeavesMarks e' := by
  unfold mapToSource at mapped
  split at mapped
  · obtain ⟨sourceRow, -, rfl⟩ := Option.map_eq_some_iff.mp mapped
    exact ⟨by rintro target k ⟨⟩, by rintro job ⟨⟩⟩
  · rwa [← Option.some.inj mapped]

theorem step_marks {s s' : ViewWindow} {e : ViewEvent} (leaves : s.LeavesMarks e)
    (h : s.step qt fuel takesNaN print fixed contains entries e = .ok s') : s.window.SameMarks s'.window := by
  cases e with
  | window e =>
    rcases step_window h with rfl | ⟨e', w, mapped, stepped, followed⟩
    · exact .of_eq rfl
    · rw [followed.window]
      exact MainWindow.step_marks (mapToSource_leaves (leaves e rfl) mapped) stepped
  | viewRows => rcases viewRows_ok h with rfl | ⟨rows, -, rfl⟩ <;> exact .of_eq rfl
  | msgSelect row =>
    obtain rfl := Except.ok.inj h
    rcases s.onMsgSelect_eq row with same | ⟨-, same⟩ <;> rw [same] <;> exact .of_eq rfl
  | axis button => rcases onAxis_ok h with rfl | ⟨axes, geometry, -, -, rfl⟩ <;> exact .of_eq rfl

/-- The menu that is opened on a row of the view is one for the message that the row shows. -/
theorem contextMenu_offers {s s' : ViewWindow} (free : s.window.dialog = none) {rows : List Nat} (shown : s.mapping = some rows)
    {row source : Nat} (at_ : rows[row]? = some source) (inside : (source : Int) < s.window.logs.model.rowCount)
    (h : s.step qt fuel takesNaN print fixed contains entries (.window (.user (.contextMenu row))) = .ok s') :
    s'.window.logs.model = s.window.logs.model ∧ ∃ menu, menu.row = source ∧
      s'.window.logs.menus[s.window.logs.menus.length]? = some menu ∧ LogWindow.Offers s.window.logs.model menu := by
  have mapped : s.mapToSource (.user (.contextMenu row)) = some (.user (.contextMenu source)) := by
    rw [mapToSource, shown, Option.bind_some, at_, Option.map_some]
  rw [step, mapped] at h
  obtain ⟨w, stepped, h⟩ := bind_ok h
  rw [(follow_ok h).window]
  rw [MainWindow.step, free, if_neg (by simp)] at stepped
  obtain ⟨logs, opened, stepped⟩ := bind_ok stepped
  rw [← Except.ok.inj stepped]
  obtain ⟨model, menu, same, menus, offers⟩ := LogWindow.contextMenu_offers inside opened
  refine ⟨model, menu, same, ?_, offers⟩
  change logs.menus[_]? = _
  rw [menus, List.getElem?_concat_length]

theorem highlight_toggles {s : ViewWindow} (free : s.window.dialog = none) {k : Nat} {menu : LogMenu}
    (opened : s.window.logs.menus[k]? = some menu) (offers : LogWindow.Offers s.window.logs.model menu) (target : Target) :
    ∃ s', s.step qt fuel takesNaN print fixed contains entries (.window (.user (.highlight target k))) = .ok s' ∧
      s.window.logs.model.Toggles menu.row target s'.window.logs.model := by
  obtain ⟨logs, stepped, toggles⟩ := LogWindow.action_toggles opened offers target
  refine ⟨{ s with window := { s.window with logs := logs } }, ?_, toggles⟩
  have acted : s.window.step qt fuel takesNaN (.user (.highlight target k)) = .ok { s.window with logs := logs } := by
    rw [MainWindow.step, free, if_neg (by simp), MainWindow.act, stepped]
    rfl
  have mapped : s.mapToSource (.user (.highlight target k)) = some (.user (.highlight target k)) := rfl
  rw [step, mapped]
  dsimp only
  rw [acted]
  rfl

/-- Along every run an action of the log menu turns the highlight of the message that the row shown had under the
mouse when the menu was opened, or of all with its identifier, and no other: whatever steps come between, but for a
log that is taken over and other actions of log menus. -/
theorem run_toggles (lists : ∀ m, CustomProxyModel.Lists m (entries m)) {past between : List ViewEvent}
    {s s₁ s₂ : ViewWindow} (ran : Machine.run (step qt fuel takesNaN print fixed contains entries) past {} = .ok s)
    (free : s.window.dialog = none) {rows : List Nat} (shown : s.mapping = some rows) {row source : Nat}
    (at_ : rows[row]? = some source)
    (opened : s.step qt fuel takesNaN print fixed contains entries (.window (.user (.contextMenu row))) = .ok s₁)
    (leaves : Machine.Along (step qt fuel takesNaN print fixed contains entries) LeavesMarks between s₁)
    (ran' : Machine.run (step qt fuel takesNaN print fixed contains entries) between s₁ = .ok s₂)
    (free' : s₂.window.dialog = none) (target : Target) :
    ∃ s', s₂.step qt fuel takesNaN print fixed contains entries
        (.window (.user (.highlight target s.window.logs.menus.length))) = .ok s' ∧
      s.window.logs.model.Toggles source target s'.window.logs.model := by
  have maps := (run_mapped lists ran).1 rows shown
  have inside := ((maps.members source).mp (List.mem_of_getElem? at_)).1
  obtain ⟨model, menu, rfl, here, offers⟩ := contextMenu_offers free shown at_ inside opened
  have keeps (s : ViewWindow) (e : ViewEvent) (s' : ViewWindow) (same : s₁.window.SameMarks s.window) (leaves : s.LeavesMarks e)
      (h : s.step qt fuel takesNaN print fixed contains entries e = .ok s') : s₁.window.SameMarks s'.window := by
    obtain ⟨model, menus⟩ := step_marks leaves h
    exact ⟨model.trans same.1, same.2.trans menus⟩
  obtain ⟨model', more, grown⟩ := Machine.run_along keeps between s₁ s₂ (.of_eq rfl) leaves ran'
  rw [model] at model'
  have still : s₂.window.logs.menus[s.window.logs.menus.length]? = some menu := by
    rw [← grown, List.getElem?_append_left (List.getElem?_eq_some_iff.mp here).1, here]
  rw [← model'] at offers ⊢
  exact highlight_toggles free' still offers target

/-- The filter is taken back. -/
def cleared : List ViewEvent := [.window (.user (.headerContextMenu 3)), .window (.close (.text []) 0)]

theorem run_toggles_filtered : ∃ s s₁ s₂ s',
    Machine.run (step plainBuild 0 true (fun _ => []) (fun _ => []) occurs ascending) filtered {} = .ok s ∧
    s.step plainBuild 0 true (fun _ => []) (fun _ => []) occurs ascending (.window (.user (.contextMenu 0))) = .ok s₁ ∧
    Machine.run (step plainBuild 0 true (fun _ => []) (fun _ => []) occurs ascending) cleared s₁ = .ok s₂ ∧
    s₂.step plainBuild 0 true (fun _ => []) (fun _ => []) occurs ascending
      (.window (.user (.highlight .id s.window.logs.menus.length))) = .ok s' ∧
    s.window.logs.model.Toggles 0 .id s'.window.logs.model := by
  have fits : (Machine.run (step plainBuild 0 true (fun _ => []) (fun _ => []) occurs ascending) filtered {}).map (fun s =>
      decide (s.window.dialog.isNone = true ∧ s.mapping = some [0] ∧
        (s.step plainBuild 0 true (fun _ => []) (fun _ => []) occurs ascending (.window (.user (.contextMenu 0))) >>=
          Machine.run (step plainBuild 0 true (fun _ => []) (fun _ => []) occurs ascending) cleared).map
            (·.window.dialog.isNone) = .ok true)) = .ok true := by
    decide +kernel
  obtain ⟨s, ran, fits⟩ := map_ok fits
  obtain ⟨free, shown, fits⟩ := of_decide_eq_true fits
  obtain ⟨s₂, ran', free'⟩ := map_ok fits
  obtain ⟨s₁, opened, ran'⟩ := bind_ok ran'
  have leaves : Machine.Along (step plainBuild 0 true (fun _ => []) (fun _ => []) occurs ascending) LeavesMarks cleared s₁ := by
    refine Machine.along_forall (fun t e among e' is => ⟨?_, ?_⟩) s₁
    · rintro target k rfl
      simp [is, cleared] at among
    · rintro job rfl
      simp [is, cleared] at among
  obtain ⟨s', stepped, toggles⟩ := run_toggles ascending_lists ran (Option.isNone_iff_eq_none.mp free) shown rfl opened leaves
    ran' (Option.isNone_iff_eq_none.mp free') .id
  exact ⟨s, s₁, s₂, s', ran, opened, ran', stepped, toggles⟩

end
end ViewWindow
end CanTracer
