import CanTracer.CanMsg.WholeBytes

/-!
# The texts of values

A row of the log table unfolds into a row for each signal of its message. The text column looks up
the decoded value in the signal's table, whose keys are values before scaling.
-/

namespace CanTracer

namespace CanSignal

/-- The text of the first pair with that key. -/
def describe (signal : CanSignal) (key : ℚ) : Option QString :=
  (signal.values.find? fun i => i.1 == key).map (·.2)

/-- NaN is no key. `print` is `QString("%1").arg`. -/
def display (signal : CanSignal) (print : Double → QString) (value : Double) : QString :=
  match signal.values.find? fun i => Double.num i.1 == value with
  | some i => i.2
  | none => print value

/-- The value before scaling. -/
def unscaled (signal : CanSignal) (input : CanData) : Except Failure Int := do
  let raw ← signal.raw input
  signal.integer raw

/-- The guard of `parseSignal`. -/
def Admits (signal : CanSignal) (dlc : UInt8) : Prop :=
  signal.len ≠ 0 ∧ signal.startBit.toNat + signal.len.toNat ≤ 8 * dlc.toNat

instance (signal : CanSignal) (dlc : UInt8) : Decidable (signal.Admits dlc) := inferInstanceAs (Decidable (_ ∧ _))

end CanSignal

/-- `CanLogModel::displayRowData` for a row below `item`, which there is for a message found only. -/
def displaySignalRow (print : Double → QString) (msg : CanMessage) (item : CanLogMsg) (row column : Nat) :
    Except Failure QString := do
  let signal ← QList.at msg.canSignals row
  match column with
  | 0 => return signal.name
  | 1 => return signal.unit
  | 2 => return print (← signal.parseSignal item.data item.dlc)
  | 3 => return signal.display print (← signal.parseSignal item.data item.dlc)
  | _ => return []

namespace CanSignal

theorem display_num (signal : CanSignal) (print : Double → QString) (q : ℚ) :
    signal.display print (.num q) = (signal.describe q).getD (print (.num q)) := by
  have same : (fun i : ℚ × QString => Double.num i.1 == Double.num q) = fun i => i.1 == q := by
    funext i
    exact decide_eq_decide.mpr (by rw [Double.num.injEq])
  rw [display, describe, same]
  cases signal.values.find? fun i => i.1 == q <;> rfl

theorem parseSignal_unscaled {signal : CanSignal} {input : CanData} {dlc : UInt8} {r : Int}
    (admits : signal.Admits dlc) (read : signal.unscaled input = .ok r) :
    signal.parseSignal input dlc = .ok (.num (r * signal.scale + signal.offset)) := by
  obtain ⟨n, raw, read⟩ := bind_ok read
  exact parseSignal_admitted (fun zero => admits.1 (UInt8.toNat_inj.mp zero)) admits.2 raw read

/-- Scaled, a value with a text is a key with the same text, or no key and written like the text. -/
def Consistent (signal : CanSignal) (print : Double → QString) (r : Int) : Prop :=
  ∀ text, signal.describe r = some text →
    signal.describe (r * signal.scale + signal.offset) = some text ∨
      signal.describe (r * signal.scale + signal.offset) = none ∧
        print (.num (r * signal.scale + signal.offset)) = text

theorem display_eq_iff {signal : CanSignal} {print : Double → QString} {q : ℚ} {text : QString} :
    signal.display print (.num q) = text ↔
      signal.describe q = some text ∨ signal.describe q = none ∧ print (.num q) = text := by
  rw [display_num]
  cases signal.describe q <;> simp

theorem describe_mem {signal : CanSignal} {key : ℚ} {text : QString} (h : signal.describe key = some text) :
    (key, text) ∈ signal.values := by
  obtain ⟨⟨k, t⟩, found, rfl⟩ := Option.map_eq_some_iff.mp h
  have here : k = key := by simpa using List.find?_some found
  rw [← here]
  exact List.mem_of_find?_eq_some found

theorem consistent_unit {signal : CanSignal} (scale : signal.scale = 1) (offset : signal.offset = 0)
    (print : Double → QString) (r : Int) : signal.Consistent print r := by
  intro text own
  rw [scale, offset, mul_one, add_zero]
  exact .inl own

/-- With texts that tell the pairs apart, only a value that the scaling leaves alone keeps its text. -/
theorem consistent_iff_fixed {signal : CanSignal} {print : Double → QString} {r : Int}
    (distinct : (signal.values.map (·.2)).Nodup) (apart : ∀ i ∈ signal.values, ∀ value, print value ≠ i.2) :
    signal.Consistent print r ↔ signal.describe r = none ∨ r * signal.scale + signal.offset = r := by
  constructor
  · intro consistent
    cases own : signal.describe r with
    | none => exact .inl rfl
    | some text =>
      rcases consistent text own with scaled | ⟨-, written⟩
      · have pair := List.inj_on_of_nodup_map distinct (describe_mem scaled) (describe_mem own) rfl
        exact .inr (congrArg Prod.fst pair)
      · exact absurd written (apart _ (describe_mem own) _)
  · rintro (none | fixed) text own
    · rw [none] at own
      cases own
    · rw [fixed]
      exact .inl own

end CanSignal

theorem displaySignalRow_text {print : Double → QString} {msg : CanMessage} {item : CanLogMsg} {row : Nat}
    {signal : CanSignal} {r : Int} (found : msg.canSignals[row]? = some signal) (admits : signal.Admits item.dlc)
    (read : signal.unscaled item.data = .ok r) :
    displaySignalRow print msg item row 3 =
      .ok (signal.display print (.num (r * signal.scale + signal.offset))) := by
  obtain ⟨inside, here⟩ := List.getElem?_eq_some_iff.mp found
  rw [displaySignalRow, QList.at, dif_pos inside, here]
  simp only [bind, Except.bind, CanSignal.parseSignal_unscaled admits read]
  rfl

/-- The text column shows the text of the value before scaling exactly when scaling keeps it. -/
theorem displaySignalRow_describes_iff (print : Double → QString) (msg : CanMessage) (item : CanLogMsg) (row : Nat)
    (signal : CanSignal) (found : msg.canSignals[row]? = some signal) (admits : signal.Admits item.dlc) :
    (∀ r, signal.unscaled item.data = .ok r → ∀ text, signal.describe r = some text →
      displaySignalRow print msg item row 3 = .ok text) ↔
    ∀ r, signal.unscaled item.data = .ok r → signal.Consistent print r := by
  apply forall₂_congr
  intro r read
  apply forall₂_congr
  intro text own
  rw [displaySignalRow_text found admits read, Except.ok.injEq]
  exact CanSignal.display_eq_iff

def heater : CanSignal where
  startBit := 0
  len := 8
  isBigEndian := false
  isSigned := false
  scale := 2
  offset := 0
  values := [(1, "On".toList), (2, "Error".toList)]

def heaterFrame : CanLogMsg where
  data := #v[1, 0, 0, 0, 0, 0, 0, 0]

theorem heater_unscaled : heater.unscaled heaterFrame.data = .ok 1 := by decide +kernel

theorem displaySignalRow_describes_heater :
    (∀ r, heater.unscaled heaterFrame.data = .ok r → ∀ text, heater.describe r = some text →
      displaySignalRow (fun _ => []) { canSignals := [heater] } heaterFrame 0 3 = .ok text) ↔
    ∀ r, heater.unscaled heaterFrame.data = .ok r → heater.Consistent (fun _ => []) r :=
  displaySignalRow_describes_iff (fun _ => []) { canSignals := [heater] } heaterFrame 0 heater rfl (by decide)

/-- The byte 1 stands for `On` and is shown as the text of 2. -/
theorem displaySignalRow_describes_scaled :
    ¬ ∀ (print : Double → QString) (msg : CanMessage) (item : CanLogMsg) (row : Nat) (signal : CanSignal),
      msg.canSignals[row]? = some signal → signal.Admits item.dlc → signal.scale ≠ 0 →
      (∀ i ∈ signal.values, ∃ key : Nat, i.1 = key) →
        ∀ r, signal.unscaled item.data = .ok r → ∀ text, signal.describe r = some text →
          displaySignalRow print msg item row 3 = .ok text := by
  intro h
  have keys : ∀ i ∈ heater.values, ∃ key : Nat, i.1 = key := by
    simp only [heater, List.forall_mem_cons]
    exact ⟨⟨1, by norm_num⟩, ⟨2, by norm_num⟩, by simp⟩
  have shown := h (fun _ => []) { canSignals := [heater] } heaterFrame 0 heater rfl (by decide) (by decide) keys 1
    heater_unscaled "On".toList (by decide +kernel)
  have value : displaySignalRow (fun _ => []) { canSignals := [heater] } heaterFrame 0 3 = .ok "Error".toList := by
    decide +kernel
  rw [value] at shown
  exact absurd (Except.ok.inj shown) (by decide)

end CanTracer
