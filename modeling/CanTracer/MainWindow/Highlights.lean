import CanTracer.CanLogModel
import CanTracer.Machine

/-!
# Highlights

The context menu of the log, its two actions and the end of a log load. The actions keep the row the
menu was opened on and the status they set.
-/

namespace CanTracer

/-- What an action highlights: one message, or all with its identifier. -/
inductive Target where
  | msg
  | id
  deriving DecidableEq

namespace CanLogModel

def setHighlight (m : CanLogModel) (row : Nat) (status : Bool) : Target → Except Failure CanLogModel
  | .msg => .ok (m.setHighlightMsg row status)
  | .id => m.setHighlightId row status

def isHighlight (m : CanLogModel) (row : Nat) : Target → Except Failure Bool
  | .msg => .ok (m.isMsgHighlight row)
  | .id => m.isIdHighlight row

/-- The rows and the identifiers that are shown as highlighted. -/
def highlights (m : CanLogModel) : (UInt32 → Bool) × (UInt32 → Bool) :=
  (fun row => (m.rowList row).getD false, fun id => (m.idList id).getD false)

/-- Every entry of `rowList` is that of a row. -/
def KeysInside (m : CanLogModel) : Prop := ∀ row, (m.rowList row).isSome → row.toNat < m.buffer.length

end CanLogModel

/-! ### The window -/

/-- A context menu. `load` is not in the code: how many logs had been loaded when it was opened. -/
structure LogMenu where
  row : Nat
  status : Target → Bool
  load : Nat

structure LogWindow where
  model : CanLogModel := {}
  menus : List LogMenu := []
  loads : Nat := 0

inductive LogEvent where
  | contextMenu (row : Nat)
  | loadLogFile (log : List CanLogMsg)
  | action (target : Target) (menu : Nat)

namespace LogWindow

def onContextMenu (s : LogWindow) (row : Nat) : Except Failure LogWindow :=
  if (row : Int) < s.model.rowCount then do
    let msg := s.model.isMsgHighlight row
    let id ← s.model.isIdHighlight row
    let status : Target → Bool
      | .msg => !msg
      | .id => !id
    return { s with menus := s.menus ++ [{ row := row, status := status, load := s.loads }] }
  else .ok s

def onLoadLogFile (s : LogWindow) (log : List CanLogMsg) : LogWindow :=
  { s with model := { s.model with buffer := log }.logChanged, loads := s.loads + 1 }

/-- An action closes its menu; an action of a menu that is not open does not happen. -/
def step (s : LogWindow) : LogEvent → Except Failure LogWindow
  | .contextMenu row => s.onContextMenu row
  | .loadLogFile log => .ok (s.onLoadLogFile log)
  | .action target k =>
    match s.menus[k]? with
    | none => .ok s
    | some menu => do
      let model ← s.model.setHighlight menu.row (menu.status target) target
      return { s with model := model, menus := s.menus.eraseIdx k }

/-- What a step should do: an action stays inside the log, and changes highlights only of the log it
was opened on. -/
structure Highlights (s : LogWindow) (e : LogEvent) (s' : LogWindow) : Prop where
  keys : s'.model.KeysInside
  inside : ∀ target k, e = .action target k → ∀ menu ∈ s.menus[k]?, menu.row < s.model.buffer.length
  own : ∀ target k, e = .action target k → ∀ menu ∈ s.menus[k]?,
    s'.model.highlights = s.model.highlights ∨ menu.load = s.loads

/-- The log the menu was opened on is still loaded, or the action sets the status that its row, or
the row's identifier, has anyway. -/
def Fresh (s : LogWindow) (e : LogEvent) : Prop :=
  ∀ target k, e = .action target k → ∀ menu ∈ s.menus[k]?,
    menu.load = s.loads ∨
      menu.row < s.model.buffer.length ∧ s.model.isHighlight menu.row target = .ok (menu.status target)

structure Inv (s : LogWindow) : Prop where
  keys : s.model.KeysInside
  menus : ∀ menu ∈ s.menus, menu.row.toUInt32.toNat = menu.row ∧ menu.load ≤ s.loads ∧
    (menu.load = s.loads → menu.row < s.model.buffer.length)

/-! ### Setting a highlight -/

theorem update_getD {f : UInt32 → Option Bool} {key : UInt32} {status : Bool} :
    (fun k => (Function.update f key (some status) k).getD false) = (fun k => (f k).getD false) ↔
      (f key).getD false = status := by
  constructor
  · intro same
    have here := congrFun same key
    rw [Function.update_self, Option.getD_some] at here
    exact here.symm
  · intro already
    funext k
    by_cases h : k = key
    · rw [h, Function.update_self, Option.getD_some, already]
    · rw [Function.update_of_ne h]

theorem setHighlight_inside {m : CanLogModel} {row : Nat} (small : row.toUInt32.toNat = row)
    (keys : m.KeysInside) (inside : row < m.buffer.length) (status : Bool) (target : Target) :
    ∃ m', m.setHighlight row status target = .ok m' ∧ m'.buffer = m.buffer ∧ m'.KeysInside ∧
      (m'.highlights = m.highlights ↔ m.isHighlight row target = .ok status) := by
  cases target with
  | msg =>
    refine ⟨_, rfl, rfl, fun key entry => ?_, ?_⟩
    · by_cases h : key = row.toUInt32
      · rw [h, small]
        exact inside
      · apply keys key
        rwa [← Function.update_of_ne h (some status) m.rowList]
    · rw [CanLogModel.isHighlight, CanLogModel.isMsgHighlight, Except.ok.injEq, ← update_getD]
      exact ⟨fun h => (Prod.mk.inj h).1, fun h => Prod.ext h rfl⟩
  | id =>
    have set := CanLogModel.setHighlightId_some (List.getElem?_eq_getElem inside) status
    refine ⟨{ m with idList := Function.update m.idList m.buffer[row].id (some status) }, set, rfl, keys, ?_⟩
    have shown : m.isHighlight row .id = .ok ((m.idList m.buffer[row].id).getD false) := by
      rw [CanLogModel.isHighlight, CanLogModel.isIdHighlight, at_inside inside]
      rfl
    rw [shown, Except.ok.injEq, ← update_getD]
    exact ⟨fun h => (Prod.mk.inj h).2, fun h => Prod.ext rfl h⟩

theorem row_toUInt32 {m : CanLogModel} {row : Nat} (shown : (row : Int) < m.rowCount) :
    row.toUInt32.toNat = row ∧ row < m.buffer.length := by
  have below := narrowInt_le m.buffer.length
  have small := narrowInt_lt m.buffer.length
  rw [CanLogModel.rowCount] at shown
  rw [Nat.toUInt32, UInt32.toNat_ofNat', Nat.mod_eq_of_lt (by omega)]
  exact ⟨rfl, by omega⟩

/-! ### What a step does -/

theorem onContextMenu_ok {s : LogWindow} (inv : s.Inv) (row : Nat) :
    ∃ s', s.onContextMenu row = .ok s' ∧ s'.model = s.model ∧ s'.Inv := by
  unfold onContextMenu
  split
  · rename_i shown
    obtain ⟨small, inside⟩ := row_toUInt32 shown
    simp only [CanLogModel.isIdHighlight, at_inside inside, bind, Except.bind, pure, Except.pure]
    refine ⟨_, rfl, rfl, inv.keys, fun menu hmenu => ?_⟩
    rcases List.mem_append.mp hmenu with old | new
    · exact inv.menus menu old
    · rw [List.mem_singleton.mp new]
      exact ⟨small, Nat.le_refl _, fun _ => inside⟩
  · exact ⟨s, rfl, rfl, inv⟩

theorem contextMenu_buffer {s s' : LogWindow} {row : Nat} (h : s.step (.contextMenu row) = .ok s') :
    s'.model.buffer = s.model.buffer := by
  rw [step, onContextMenu] at h
  split at h
  · obtain ⟨id, -, h⟩ := bind_ok h
    rw [← Except.ok.inj h]
  · rw [← Except.ok.inj h]

theorem action_buffer {s s' : LogWindow} {target : Target} {k : Nat} (h : s.step (.action target k) = .ok s') :
    s'.model.buffer = s.model.buffer := by
  rw [step] at h
  split at h
  · rw [← Except.ok.inj h]
  · obtain ⟨model, set, h⟩ := bind_ok h
    rw [← Except.ok.inj h]
    cases target with
    | msg => rw [← Except.ok.inj set, CanLogModel.setHighlightMsg]
    | id =>
      obtain ⟨msg, -, set⟩ := bind_ok set
      rw [← Except.ok.inj set]

theorem onLoadLogFile_inv {s : LogWindow} (inv : s.Inv) (log : List CanLogMsg) :
    (s.onLoadLogFile log).Inv := by
  refine ⟨nofun, fun menu hmenu => ?_⟩
  obtain ⟨small, le, -⟩ := inv.menus menu hmenu
  exact ⟨small, Nat.le_succ_of_le le, fun now => absurd (Nat.lt_succ_of_le le) (by rw [now]; exact Nat.lt_irrefl _)⟩

/-- An action of an open menu, when the row is one of the log. -/
theorem action_ok {s : LogWindow} (inv : s.Inv) (target : Target) {k : Nat} {menu : LogMenu}
    (opened : s.menus[k]? = some menu) (inside : menu.row < s.model.buffer.length) :
    ∃ s', s.step (.action target k) = .ok s' ∧ s'.Inv ∧
      (s'.model.highlights = s.model.highlights ↔ s.model.isHighlight menu.row target = .ok (menu.status target)) := by
  obtain ⟨small, -, -⟩ := inv.menus menu (List.mem_of_getElem? opened)
  obtain ⟨model, set, buffer, keys, same⟩ := setHighlight_inside small inv.keys inside (menu.status target) target
  refine ⟨{ s with model := model, menus := s.menus.eraseIdx k }, ?_, ⟨keys, fun other hother => ?_⟩, same⟩
  · simp only [step, opened, set, bind, Except.bind, pure, Except.pure]
  · rw [buffer]
    exact inv.menus other (List.mem_of_mem_eraseIdx hother)

theorem Fresh.inside {s : LogWindow} (inv : s.Inv) {target : Target} {k : Nat}
    (fresh : s.Fresh (.action target k))
    {menu : LogMenu} (opened : s.menus[k]? = some menu) : menu.row < s.model.buffer.length := by
  obtain ⟨-, -, now⟩ := inv.menus menu (List.mem_of_getElem? opened)
  rcases fresh target k rfl menu opened with same | other
  · exact now same
  · exact other.1

theorem step_inv (s : LogWindow) (e : LogEvent) (s' : LogWindow) (inv : s.Inv) (fresh : s.Fresh e)
    (h : s.step e = .ok s') : s'.Inv := by
  cases e with
  | contextMenu row =>
    obtain ⟨t, opened, -, inv'⟩ := onContextMenu_ok inv row
    obtain rfl := Except.ok.inj (opened.symm.trans h)
    exact inv'
  | loadLogFile log =>
    rw [← Except.ok.inj h]
    exact onLoadLogFile_inv inv log
  | action target k =>
    cases opened : s.menus[k]? with
    | none =>
      rw [step, opened] at h
      rw [← Except.ok.inj h]
      exact inv
    | some menu =>
      obtain ⟨t, stepped, inv', -⟩ := action_ok inv target opened (fresh.inside inv opened)
      obtain rfl := Except.ok.inj (stepped.symm.trans h)
      exact inv'

theorem step_highlights_iff (s : LogWindow) (e : LogEvent) (inv : s.Inv) :
    s.Fresh e ↔ ∃ s', s.step e = .ok s' ∧ s.Highlights e s' := by
  cases e with
  | contextMenu row =>
    obtain ⟨s', opened, -, inv'⟩ := onContextMenu_ok inv row
    exact ⟨fun _ => ⟨s', opened, inv'.keys, nofun, nofun⟩, fun _ => nofun⟩
  | loadLogFile log => exact ⟨fun _ => ⟨_, rfl, (onLoadLogFile_inv inv log).keys, nofun, nofun⟩, fun _ => nofun⟩
  | action target k =>
    cases opened : s.menus[k]? with
    | none =>
      have closed : ∀ menu, menu ∉ s.menus[k]? := fun menu hmenu => by rw [opened] at hmenu; cases hmenu
      constructor
      · intro _
        refine ⟨s, by rw [step, opened], inv.keys, ?_, ?_⟩
        · rintro _ _ ⟨⟩ menu hmenu
          exact absurd hmenu (closed menu)
        · rintro _ _ ⟨⟩ menu hmenu
          exact absurd hmenu (closed menu)
      · rintro - _ _ ⟨⟩ menu hmenu
        exact absurd hmenu (closed menu)
    | some menu =>
      constructor
      · intro fresh
        have inside := fresh.inside inv opened
        obtain ⟨s', stepped, inv', same⟩ := action_ok inv target opened inside
        refine ⟨s', stepped, inv'.keys, ?_, ?_⟩
        · rintro _ _ ⟨⟩ menu' hmenu
          obtain rfl := Option.some.inj (opened.symm.trans hmenu)
          exact inside
        · rintro _ _ ⟨⟩ menu' hmenu
          obtain rfl := Option.some.inj (opened.symm.trans hmenu)
          rcases fresh target k rfl menu opened with now | ⟨-, already⟩
          · exact .inr now
          · exact .inl (same.mpr already)
      · rintro ⟨s', stepped, highlights⟩ _ _ ⟨⟩ menu' hmenu
        obtain rfl := Option.some.inj (opened.symm.trans hmenu)
        have inside := highlights.inside target k rfl menu opened
        obtain ⟨t, stepped', -, same⟩ := action_ok inv target opened inside
        obtain rfl := Except.ok.inj (stepped.symm.trans stepped')
        rcases highlights.own target k rfl menu opened with unchanged | now
        · exact .inr ⟨inside, same.mp unchanged⟩
        · exact .inl now

/-- A run keeps the highlights inside the log, and changes only those of the log a menu was opened
on, exactly when no action that changes something comes from a menu of an earlier log. -/
theorem run_highlights_iff (events : List LogEvent) :
    Machine.Good step Highlights events {} ↔ Machine.Along step Fresh events {} :=
  Machine.good_iff_along step_highlights_iff step_inv events {} ⟨nofun, nofun⟩

/-- An empty log is loaded while the menu of the only row is open. -/
theorem run_highlights_loaded : ¬ ∀ events, Machine.Good step Highlights events {} := by
  intro h
  obtain ⟨s, ran⟩ := Machine.good_run _ _
    (h [.loadLogFile [{}], .contextMenu 0, .loadLogFile [], .action .id 0])
  have fails : (Machine.run step [.loadLogFile [{}], .contextMenu 0, .loadLogFile [], .action .id 0] {}).isOk =
      false := by
    decide +kernel
  rw [ran] at fails
  cases fails

end LogWindow
end CanTracer
