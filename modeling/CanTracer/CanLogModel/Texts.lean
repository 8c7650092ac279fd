import CanTracer.CanMsgModel
import CanTracer.Dbc.Render
import CanTracer.LogParser.Render

/-!
# The texts of the log table

What a row of the log shows can be read back with the conversions that the parsers use: numbers in
decimal, the identifier and the data in hexadecimal.
-/

namespace CanTracer

open Regex

/-! ### Hexadecimal numbers -/

theorem digitValue_upper {d : Nat} (h : d < 16) : digitValue (Nat.digitChar d).toUpper = some d := by
  have all : ∀ d < 16, digitValue (Nat.digitChar d).toUpper = some d := by decide
  exact all d h

theorem upper_eq_hexDigit {d : Nat} (h : d < 16) : (Nat.digitChar d).toUpper = hexDigit d := by
  have all : ∀ d < 16, (Nat.digitChar d).toUpper = hexDigit d := by decide
  exact all d h

theorem numeral_append (base : Nat) (s : QString) (c : Char) :
    numeral base (s ++ [c]) = base * numeral base s + (digitValue c).getD 0 := by
  rw [numeral, List.foldl_append]
  rfl

theorem numeral_zeros (k : Nat) (s : QString) : numeral 16 (List.replicate k '0' ++ s) = numeral 16 s := by
  induction k with
  | zero => rfl
  | succ k ih => exact ih

/-- A number and its digits, the last one aside. -/
theorem toDigits_induction {P : Nat → List Char → Prop} (small : ∀ d < 16, P d [d.digitChar])
    (more : ∀ n d, d < 16 → P n (Nat.toDigits 16 n) → P (16 * n + d) (Nat.toDigits 16 n ++ [d.digitChar])) (n : Nat) :
    P n (Nat.toDigits 16 n) := by
  induction n using Nat.strongRecOn with
  | ind n ih =>
    rw [Nat.toDigits_eq_if (by decide)]
    split
    · rename_i lt
      exact small n lt
    · have last := more (n / 16) (n % 16) (Nat.mod_lt n (by decide)) (ih (n / 16) (by omega))
      rwa [Nat.div_add_mod] at last

theorem toDigits_digits (n : Nat) : ∀ c ∈ Nat.toDigits 16 n, ∃ d < 16, c = d.digitChar := by
  induction n using toDigits_induction with
  | small d lt => exact fun c hc => ⟨d, lt, List.mem_singleton.mp hc⟩
  | more n d lt ih =>
    intro c hc
    rcases List.mem_append.mp hc with hc | hc
    · exact ih c hc
    · exact ⟨d, lt, List.mem_singleton.mp hc⟩

theorem numeral_toDigits (n : Nat) : numeral 16 ((Nat.toDigits 16 n).map Char.toUpper) = n := by
  induction n using toDigits_induction with
  | small d lt =>
    have value : numeral 16 [d.digitChar.toUpper] = (digitValue d.digitChar.toUpper).getD 0 := Nat.zero_add _
    rw [List.map_singleton, value, digitValue_upper lt]
    rfl
  | more n d lt ih => rw [List.map_append, List.map_singleton, numeral_append, ih, digitValue_upper lt, Option.getD_some]

theorem hexText_chars (n width : Nat) : ∀ c ∈ hexText n width, ∃ d < 16, c = (Nat.digitChar d).toUpper := by
  intro c hc
  obtain ⟨c, among, rfl⟩ := List.mem_map.mp hc
  rcases List.mem_append.mp among with zero | among
  · exact ⟨0, by decide, congrArg _ (List.mem_replicate.mp zero).2⟩
  · obtain ⟨d, lt, rfl⟩ := toDigits_digits n c among
    exact ⟨d, lt, rfl⟩

theorem hexText_digits (n width : Nat) : ∀ c ∈ hexText n width, (digitValue c).any (· < 16) = true := by
  intro c hc
  obtain ⟨d, lt, rfl⟩ := hexText_chars n width c hc
  rw [digitValue_upper lt]
  exact decide_eq_true lt

theorem hexText_upperHex (n width : Nat) : ∀ c ∈ hexText n width, isUpperHex c = true := by
  intro c hc
  obtain ⟨d, lt, rfl⟩ := hexText_chars n width c hc
  rw [upper_eq_hexDigit lt]
  exact isUpperHex_hexDigit lt

theorem hexText_ne_nil (n width : Nat) : hexText n width ≠ [] := by
  rw [hexText, Ne, List.map_eq_nil_iff, List.append_eq_nil_iff, not_and]
  exact fun _ => Nat.toDigits_ne_nil

theorem hexText_reads {n max : Nat} (h : n ≤ max) (width : Nat) : toUnsigned 16 max (hexText n width) = some n := by
  have value : numeral 16 (hexText n width) = n := by
    rw [hexText, List.map_append, List.map_replicate]
    exact (numeral_zeros _ _).trans (numeral_toDigits n)
  rw [toUnsigned, value, if_pos ⟨hexText_ne_nil n width, List.all_eq_true.mpr (hexText_digits n width), h⟩]

/-- An identifier is shown in three or in eight digits, and no two alike. -/
theorem formatId_reads (id : UInt32) : toUInt (CanMessage.formatId id) 16 = some id.toNat :=
  hexText_reads (Nat.le_of_lt_succ id.toNat_lt) _

theorem formatId_injective {id id' : UInt32} (same : CanMessage.formatId id = CanMessage.formatId id') : id = id' := by
  have reads := formatId_reads id
  rw [same, formatId_reads] at reads
  exact (UInt32.toNat_inj.mp (Option.some.inj reads)).symm

theorem natText_reads {n max : Nat} (h : n ≤ max) : toUnsigned 10 max (natText n) = some n := Dbc.toUnsigned_showNat h

/-! ### The data column -/

theorem byteText_eq (b : UInt8) : byteText b = ' ' :: hexByte b := by
  have lt := b.toNat_lt
  rw [byteText, hexByte, upper_eq_hexDigit (by omega), upper_eq_hexDigit (by omega)]

theorem dataColumn_eq {item : CanLogMsg} (short : item.dlc.toNat ≤ canMaxDlc) :
    dataColumn item = .ok ((item.data.toList.take item.dlc.toNat).flatMap byteText) := by
  rw [dataColumn]
  generalize item.dlc.toNat = n at short ⊢
  induction n with
  | zero => rfl
  | succ n ih =>
    have inside : n < item.data.toList.length := by
      rw [Vector.length_toList]
      exact short
    rw [List.range_succ, List.foldlM_append, ih (Nat.le_of_succ_le short), List.take_succ_eq_append_getElem inside,
      List.flatMap_append, List.flatMap_singleton, Vector.getElem_toList]
    have here : n < canMaxDlc := short
    rw [ok_bind, List.foldlM_cons, CanData.index, dif_pos here]
    rfl

theorem foldlM_index_inside {data : CanData} {is : List Nat} {text : QString} :
    ∀ {ret : QString}, is.foldlM (fun ret i => (data.index i).map fun b => ret ++ byteText b) ret = .ok text →
      ∀ i ∈ is, i < canMaxDlc := by
  induction is with
  | nil => exact fun _ => nofun
  | cons i is ih =>
    intro ret h
    rw [List.foldlM_cons] at h
    obtain ⟨ret', read, rest⟩ := bind_ok h
    refine List.forall_mem_cons.mpr ⟨?_, ih rest⟩
    by_contra outside
    rw [CanData.index, dif_neg outside] at read
    cases read

/-- Beyond the eight bytes there is nothing to show. -/
theorem dataColumn_short {item : CanLogMsg} {text : QString} (shown : dataColumn item = .ok text) :
    item.dlc.toNat ≤ canMaxDlc := by
  have inside := foldlM_index_inside shown
  by_contra long
  exact Nat.lt_irrefl _ (inside canMaxDlc (List.mem_range.mpr (Nat.lt_of_not_le long)))

theorem dataBytes_byteText (bytes : Bytes) : dataBytes (bytes.flatMap byteText) = bytes := by
  have digits : (bytes.flatMap byteText).filter (· != ' ') = bytes.flatMap hexByte := by
    rw [List.filter_flatMap]
    refine List.flatMap_congr fun b _ => ?_
    rw [byteText_eq, List.filter_cons_of_neg (by simp), filter_hexByte]
  rw [dataBytes, digits, fromHex_hexBytes]

/-! ### Rows -/

/-- The texts of a message give back what the parsers read into it. -/
structure ReadsBack (texts : Nat → Except Failure QVariant) (item : CanLogMsg) : Prop where
  number : ∃ text, texts 0 = .ok (.string text) ∧ toUInt text 10 = some item.number.toNat
  channel : ∃ text, texts 2 = .ok (.string text) ∧ toUInt text 10 = some item.channel.toNat
  id : ∃ text, texts 3 = .ok (.string text) ∧ toUInt text 16 = some item.id.toNat
  dlc : ∃ text, texts 4 = .ok (.string text) ∧ toUInt text 10 = some item.dlc.toNat
  data : ∃ text, texts 6 = .ok (.string text) ∧ dataBytes text = item.data.toList.take item.dlc.toNat

/-- A row shows its message without loss, unless the DLC goes beyond the data. -/
theorem displayMessageRow_readsBack_iff (fixed : ℚ → QString) (db : CanDb) (item : CanLogMsg) :
    ReadsBack (CanLogModel.displayMessageRow fixed db item) item ↔ item.dlc.toNat ≤ canMaxDlc := by
  constructor
  · rintro ⟨-, -, -, -, text, shown, -⟩
    obtain ⟨text, column, -⟩ := map_ok shown
    exact dataColumn_short column
  · intro short
    have number := natText_reads (Nat.le_of_lt_succ item.number.toNat_lt)
    have channel : toUInt (natText item.channel.toNat) 10 = some item.channel.toNat :=
      natText_reads (Nat.le_trans (Nat.le_of_lt item.channel.toNat_lt) (by decide))
    have dlc : toUInt (natText item.dlc.toNat) 10 = some item.dlc.toNat :=
      natText_reads (Nat.le_trans (Nat.le_of_lt item.dlc.toNat_lt) (by decide))
    refine ⟨⟨_, rfl, number⟩, ⟨_, rfl, channel⟩, ⟨_, rfl, formatId_reads item.id⟩, ⟨_, rfl, dlc⟩,
      ⟨_, ?_, dataBytes_byteText _⟩⟩
    rw [CanLogModel.displayMessageRow, dataColumn_eq short]
    rfl

/-! ### The table of messages -/

namespace CanMsgModel

def colorColumn : Nat := 4

inductive DataRole where
  | display
  | decoration
  | edit
  | other
  deriving DecidableEq

/-- The texts and the color of a message. -/
def cell (msg : CanMessage) (column : Nat) (role : DataRole) : QVariant :=
  match role with
  | .display =>
    match column with
    | 0 => .string (hexText msg.id.toNat (if maxNormalCanId < msg.id.toNat then extCanNibble else normalCanNibble))
    | 1 => .string msg.name
    | 2 => .string (natText msg.dlc.toNat)
    | 3 => .string msg.sender
    | _ => .invalid
  | .decoration | .edit => if column = colorColumn then .color msg.color else .invalid
  | .other => .invalid

def data (db : CanDb) (index : QModelIndex) (role : DataRole) : Except Failure QVariant :=
  match index with
  | .invalid => .ok .invalid
  | .valid row column _ => do
    let msg ← QList.at db.db row
    return cell msg column role

/-- Row `r` of the table shows the identifier of the message, and no row above does. -/
structure Names (fixed : ℚ → QString) (db : CanDb) (item : CanLogMsg) (r : Nat) : Prop where
  here : data db (.valid r 0 none) .display = CanLogModel.displayMessageRow fixed db item 3
  first : ∀ k < r, data db (.valid k 0 none) .display ≠ CanLogModel.displayMessageRow fixed db item 3

theorem data_id {fixed : ℚ → QString} {db : CanDb} {item : CanLogMsg} {r : Nat} :
    data db (.valid r 0 none) .display = CanLogModel.displayMessageRow fixed db item 3 ↔
      ∃ msg, db.db[r]? = some msg ∧ msg.id = item.id := by
  rw [data, CanLogModel.displayMessageRow]
  cases row : db.db[r]? with
  | none =>
    rw [at_none (List.getElem?_eq_none_iff.mp row)]
    exact iff_of_false nofun (by rintro ⟨msg, here, -⟩; cases here)
  | some msg =>
    rw [at_some row, ok_bind]
    change Except.ok (QVariant.string (CanMessage.formatId msg.id)) = _ ↔ _
    constructor
    · intro same
      exact ⟨msg, rfl, formatId_injective (QVariant.string.inj (Except.ok.inj same))⟩
    · rintro ⟨_, ⟨⟩, same⟩
      rw [same]

theorem names_find {fixed : ℚ → QString} {db : CanDb} {item : CanLogMsg} {r : Nat} (names : Names fixed db item r) :
    ∃ msg, db.db[r]? = some msg ∧ db.findMessage item.id = some msg := by
  obtain ⟨msg, here, same⟩ := data_id.mp names.here
  refine ⟨msg, here, ?_⟩
  obtain ⟨inside, rfl⟩ := List.getElem?_eq_some_iff.mp here
  refine List.find?_eq_some_iff_getElem.mpr ⟨beq_iff_eq.mpr same, r, inside, rfl, fun k less => ?_⟩
  rw [Bool.not_eq_true', beq_eq_false_iff_ne]
  intro above
  exact names.first k less (data_id.mpr ⟨_, List.getElem?_eq_getElem (Nat.lt_trans less inside), above⟩)

theorem find_names (fixed : ℚ → QString) {db : CanDb} {item : CanLogMsg} {msg : CanMessage}
    (found : db.findMessage item.id = some msg) : ∃ r, Names fixed db item r := by
  obtain ⟨same, r, inside, rfl, above⟩ := List.find?_eq_some_iff_getElem.mp found
  refine ⟨r, data_id.mpr ⟨_, List.getElem?_eq_getElem inside, beq_iff_eq.mp same⟩, fun k less shown => ?_⟩
  obtain ⟨other, there, same'⟩ := data_id.mp shown
  obtain ⟨inside', rfl⟩ := List.getElem?_eq_some_iff.mp there
  have differs := above k less
  rw [same', beq_self_eq_true] at differs
  cases differs

/-- A row of the log has the name and the color of the first row of the table with the same text for the
identifier; without such a row it has neither. -/
structure Agrees (fixed : ℚ → QString) (m : CanLogModel) (db : CanDb) (row : Nat) (item : CanLogMsg) : Prop where
  known : ∀ r, Names fixed db item r →
    data db (.valid r 1 none) .display = CanLogModel.displayMessageRow fixed db item 5 ∧
      data db (.valid r colorColumn none) .decoration = .ok (m.backgroundData db row item)
  unknown : (∀ r, ¬Names fixed db item r) →
    CanLogModel.displayMessageRow fixed db item 5 = .ok (.string []) ∧ m.backgroundData db row item = .invalid

/-- Where no highlight covers the color, the log and the table of messages say the same. -/
theorem log_agrees (fixed : ℚ → QString) (m : CanLogModel) (db : CanDb) (row : Nat) (item : CanLogMsg)
    (plainRow : m.isMsgHighlight row = false) (plainId : (m.idList item.id).getD false = false) :
    Agrees fixed m db row item := by
  have background : m.backgroundData db row item = (db.findMessage item.id).elim .invalid fun msg => .color msg.color := by
    rw [CanLogModel.backgroundData, plainRow, plainId, if_neg Bool.false_ne_true, if_neg Bool.false_ne_true]
    cases db.findMessage item.id <;> rfl
  constructor
  · intro r names
    obtain ⟨msg, here, found⟩ := names_find names
    rw [background, CanLogModel.displayMessageRow, found, data, data, at_some here, ok_bind, ok_bind]
    exact ⟨rfl, rfl⟩
  · intro nowhere
    cases found : db.findMessage item.id with
    | none =>
      rw [background, CanLogModel.displayMessageRow, found]
      exact ⟨rfl, rfl⟩
    | some msg =>
      obtain ⟨r, names⟩ := find_names fixed found
      exact absurd names (nowhere r)

theorem log_agrees_cabin : Agrees (fun _ => []) CanLogModel.cabinLog CanLogModel.cabin 0 heaterFrame :=
  log_agrees (fun _ => []) CanLogModel.cabinLog CanLogModel.cabin 0 heaterFrame rfl rfl

end CanMsgModel

end CanTracer
