import CanTracer.LogParser.RoundTrip

/-!
# Short frames

Lines of frames with any number of data bytes. A frame without data ends its line with the DLC, and
both patterns ask for a blank and a character behind it.
-/

namespace CanTracer

open Regex

variable {qt : Qt}

/-- A frame whose data may be empty. -/
structure ShortFrame where
  id : Written isUpperHex 16 0x1FFFFFFF
  sent : Bool
  dlc : Written isDigit 10 canMaxDlc
  bytes : Bytes
  length : bytes.length = dlc.value

def ShortFrame.direction (f : ShortFrame) : QString := if f.sent then "Tx".toList else "Rx".toList

/-- The data column with the gap in front of it, if there is anything to write. -/
def dataColumnText (gapSize : Nat) : Bytes → QString
  | [] => []
  | b :: bytes => gap gapSize ++ bytesText (b :: bytes)

structure TrcRow (qt : Qt) extends ShortFrame where
  number : Written isDigit 10 (2 ^ 31 - 1)
  time : WrittenTime qt
  indent : Nat
  gaps : Vector Nat 5

structure AscRow (qt : Qt) extends ShortFrame where
  time : WrittenTime qt
  channel : Option (Written isDigit 10 255)
  suffix : Bool
  indent : Nat
  gaps : Vector Nat 6

/-- In front of the direction. -/
def TrcRow.front (r : TrcRow qt) : QString :=
  List.replicate r.indent ' ' ++ [r.number.text, [')'], gap (r.gaps.get 0), r.time.text, gap (r.gaps.get 1)].flatten

/-- Behind the direction. -/
def TrcRow.back (r : TrcRow qt) : QString :=
  gap (r.gaps.get 2) ++ (r.id.text ++ (gap (r.gaps.get 3) ++ (r.dlc.text ++ dataColumnText (r.gaps.get 4) r.bytes)))

def TrcRow.line (r : TrcRow qt) : QString := r.front ++ (r.direction ++ r.back)

def AscRow.front (r : AscRow qt) : QString :=
  List.replicate r.indent ' ' ++ [r.time.text, gap (r.gaps.get 0), r.channel.elim [] (·.text), gap (r.gaps.get 1), r.id.text,
    if r.suffix then ['x'] else [], gap (r.gaps.get 2)].flatten

def AscRow.back (r : AscRow qt) : QString :=
  gap (r.gaps.get 3) ++ (['d'] ++ (gap (r.gaps.get 4) ++ (r.dlc.text ++ dataColumnText (r.gaps.get 5) r.bytes)))

def AscRow.line (r : AscRow qt) : QString := r.front ++ (r.direction ++ r.back)

/-! ### With data -/

def ShortFrame.frame (f : ShortFrame) (some : f.bytes ≠ []) : Frame where
  id := f.id
  sent := f.sent
  dlc := f.dlc
  bytes := f.bytes
  nonempty := some
  length := f.length

theorem dataColumnText_some {bytes : Bytes} (some : bytes ≠ []) (gapSize : Nat) :
    dataColumnText gapSize bytes = gap gapSize ++ bytesText bytes := by
  obtain ⟨b, bytes, rfl⟩ := List.exists_cons_of_ne_nil some
  rfl

def TrcRow.trcFrame (r : TrcRow qt) (some : r.bytes ≠ []) : TrcFrame qt :=
  { r.frame some with number := r.number, time := r.time, indent := r.indent, gaps := r.gaps }

def AscRow.ascFrame (r : AscRow qt) (some : r.bytes ≠ []) : AscFrame qt :=
  { r.frame some with
    time := r.time, channel := r.channel, suffix := r.suffix, trailer := none, indent := r.indent, gaps := r.gaps }

theorem TrcRow.line_some (r : TrcRow qt) (some : r.bytes ≠ []) : (r.trcFrame some).line = r.line := by
  simp [TrcFrame.line, TrcFrame.text, TrcRow.line, front, back, trcFrame, dataColumnText_some some, Frame.direction,
    ShortFrame.direction, ShortFrame.frame]
  rfl

theorem AscRow.line_some (r : AscRow qt) (some : r.bytes ≠ []) : (r.ascFrame some).line = r.line := by
  simp [AscFrame.line, AscFrame.text, AscFrame.idText, AscFrame.lead, AscFrame.channelText, AscFrame.suffixText,
    AscFrame.trailerText, AscRow.line, front, back, ascFrame, dataColumnText_some some, Frame.direction,
    ShortFrame.direction, ShortFrame.frame]
  rfl

/-! ### Without data -/

theorem dropWhile_run {q : Char → Bool} {s t : QString} (run : ∀ c ∈ s, q c = true) (stop : ∀ c ∈ t.head?, q c = false) :
    (s ++ t).dropWhile q = t := by
  rw [List.dropWhile_append_of_pos run]
  cases t with
  | nil => rfl
  | cons c t => exact List.dropWhile_cons_of_neg (by rw [stop c rfl]; decide)

/-- A nonempty run of characters that are all blank, or all not. -/
def Run (q : Char → Bool) (b : Bool) (s : QString) : Prop := s ≠ [] ∧ ∀ c ∈ s, q c = b

theorem Run.head {q : Char → Bool} {b : Bool} {s : QString} (run : Run q b s) (t : QString) :
    ∀ c ∈ (s ++ t).head?, q c = b := by
  intro c hc
  rw [List.head?_append_of_ne_nil _ run.1] at hc
  exact run.2 c (List.mem_of_mem_head? hc)

theorem Run.drop {q : Char → Bool} {b : Bool} {s s' t t' : QString} (run : Run q b s) (run' : Run q b s')
    (stop : ∀ c ∈ t.head?, q c = !b) (stop' : ∀ c ∈ t'.head?, q c = !b) (h : s ++ t = s' ++ t') : t = t' := by
  have left := dropWhile_run (q := fun c => q c == b) (s := s) (t := t)
    (fun c hc => by rw [run.2 c hc]; exact beq_self_eq_true b) fun c hc => by rw [stop c hc]; cases b <;> rfl
  have right := dropWhile_run (q := fun c => q c == b) (s := s') (t := t')
    (fun c hc => by rw [run'.2 c hc]; exact beq_self_eq_true b) fun c hc => by rw [stop' c hc]; cases b <;> rfl
  rw [← left, h, right]

/-- Two blank runs with columns behind them do not hold three. -/
theorem no_third_gap {q : Char → Bool} {g w g' v a x a' y a'' z : QString} (hg : Run q true g) (hw : Run q false w)
    (hg' : Run q true g') (hv : Run q false v) (ha : Run q true a) (hx : Run q false x) (ha' : Run q true a')
    (hy : Run q false y) (ha'' : Run q true a'') : g ++ (w ++ (g' ++ v)) ≠ a ++ (x ++ (a' ++ (y ++ (a'' ++ z)))) := by
  intro whole
  have column := hg.drop ha (hw.head _) (hx.head _) whole
  have blank := hw.drop hx (hg'.head _) (ha'.head _) column
  have last : v = y ++ (a'' ++ z) := by
    rw [← List.append_nil v] at blank
    rw [← List.append_nil v]
    exact hg'.drop ha' (hv.head _) (hy.head _) blank
  obtain ⟨c, a'', rfl⟩ := List.exists_cons_of_ne_nil ha''.1
  have here : c ∈ v := by
    rw [last]
    exact List.mem_append_right _ List.mem_cons_self
  have blank := ha''.2 c List.mem_cons_self
  rw [hv.2 c here] at blank
  cases blank

theorem run_gap {q : Char → Bool} (blank : q ' ' = true) (n : Nat) : Run q true (gap n) :=
  ⟨List.cons_ne_nil _ _, fun c hc => by rw [List.eq_of_mem_replicate hc, blank]⟩

theorem run_written {q digit : Char → Bool} {base max : Nat} (w : Written digit base max)
    (other : ∀ c, digit c = true → q c = false) : Run q false w.text :=
  ⟨w.nonempty, fun c hc => other c (w.chars c hc)⟩

/-- Neither letter that a direction starts with. -/
def Unmarked (s : QString) : Prop := ∀ c ∈ s, c ≠ 'R' ∧ c ≠ 'T'

theorem mem_direction {d : QString} {k : Nat} (h : d ∈ (Re.group k direction).language) :
    ∃ c, (c = 'R' ∨ c = 'T') ∧ d = [c, 'x'] := by
  rcases (Language.mem_add _ _ _).mp h with rx | tx
  · exact ⟨'R', .inl rfl, mem_lit rx⟩
  · exact ⟨'T', .inr rfl, mem_lit tx⟩

/-- A match can only meet the direction of its line, and goes on behind it. -/
theorem behind_direction {before after : List Re} {k : Nat} {u front back : QString}
    (h : u ∈ (Re.cat (before ++ .group k direction :: after)).language) (f : ShortFrame)
    (inside : u <:+: front ++ (f.direction ++ back)) (hfront : Unmarked front) (hback : Unmarked back) :
    ∃ v t, back = v ++ t ∧ v ∈ (Re.cat after).language := by
  obtain ⟨a, b, rfl, -, hb⟩ := mem_cat_append h
  obtain ⟨d, e, rfl, hd, he⟩ := mem_cat_cons hb
  obtain ⟨c, mark, rfl⟩ := mem_direction hd
  obtain ⟨x, y, whole⟩ := inside
  obtain ⟨c', direction⟩ : ∃ c', f.direction = [c', 'x'] := by
    unfold ShortFrame.direction
    cases f.sent
    · exact ⟨'R', rfl⟩
    · exact ⟨'T', rfl⟩
  have absent {s : QString} (free : Unmarked s) : c ∉ s := by
    intro hc
    rcases mark with rfl | rfl
    · exact (free _ hc).1 rfl
    · exact (free _ hc).2 rfl
  have behind : c ∉ 'x' :: back := by
    rw [List.mem_cons, not_or]
    refine ⟨?_, absent hback⟩
    rcases mark with rfl | rfl <;> decide
  have split : front ++ c' :: ('x' :: back) = (x ++ a) ++ c :: ('x' :: (e ++ y)) := by
    rw [direction] at whole
    simpa using whole.symm
  obtain ⟨-, -, same⟩ := (List.append_cons_inj_of_notMem (absent hfront) behind).mp split
  exact ⟨e, y, (List.cons.inj same).2, he⟩

theorem unmarked_append {s t : QString} (hs : Unmarked s) (ht : Unmarked t) : Unmarked (s ++ t) :=
  List.forall_mem_append.mpr ⟨hs, ht⟩

theorem unmarked_of {q : Char → Bool} {s : QString} (h : ∀ c ∈ s, q c = true) (r : q 'R' = false) (t : q 'T' = false) :
    Unmarked s := by
  intro c hc
  have here := h c hc
  constructor
  · rintro rfl
    rw [r] at here
    cases here
  · rintro rfl
    rw [t] at here
    cases here

theorem unmarked_blanks (n : Nat) : Unmarked (List.replicate n ' ') :=
  unmarked_of (q := fun c => c == ' ') (fun c hc => by rw [List.eq_of_mem_replicate hc]; rfl) (by decide) (by decide)

theorem unmarked_gap (n : Nat) : Unmarked (gap n) := unmarked_blanks (n + 1)

theorem unmarked_digits {base max : Nat} (w : Written isDigit base max) : Unmarked w.text :=
  unmarked_of w.chars (by decide) (by decide)

theorem unmarked_hex {base max : Nat} (w : Written isUpperHex base max) : Unmarked w.text :=
  unmarked_of w.chars (by decide) (by decide)

theorem unmarked_time (time : WrittenTime qt) : Unmarked time.text :=
  unmarked_of (unsignedDecimal_chars time.plain).2 (by decide) (by decide)

theorem TrcRow.unmarked_front (r : TrcRow qt) : Unmarked r.front := by
  unfold front
  simp only [List.flatten_cons, List.flatten_nil, List.append_nil]
  refine unmarked_append (unmarked_blanks _) (unmarked_append (unmarked_digits _) (unmarked_append ?_ ?_))
  · exact List.forall_mem_singleton.mpr (by decide)
  · exact unmarked_append (unmarked_gap _) (unmarked_append (unmarked_time _) (unmarked_gap _))

theorem AscRow.unmarked_front (r : AscRow qt) : Unmarked r.front := by
  have channel : Unmarked (r.channel.elim [] (·.text)) := by
    cases r.channel with
    | none => exact List.forall_mem_nil _
    | some ch => exact unmarked_digits ch
  have suffix : Unmarked (if r.suffix then ['x'] else []) := by
    cases r.suffix with
    | false => exact List.forall_mem_nil _
    | true => exact List.forall_mem_singleton.mpr (by decide)
  unfold front
  simp only [List.flatten_cons, List.flatten_nil, List.append_nil]
  refine unmarked_append (unmarked_blanks _) (unmarked_append (unmarked_time _) (unmarked_append (unmarked_gap _) ?_))
  refine unmarked_append channel (unmarked_append (unmarked_gap _) (unmarked_append (unmarked_hex _) ?_))
  exact unmarked_append suffix (unmarked_gap _)

theorem TrcRow.search_empty (r : TrcRow qt) (empty : r.bytes = []) : search TrcDriver.pattern r.line = none := by
  have bare : r.back = gap (r.gaps.get 2) ++ (r.id.text ++ (gap (r.gaps.get 3) ++ r.dlc.text)) := by
    rw [back, empty, dataColumnText, List.append_nil]
  have unmarked : Unmarked r.back := by
    rw [bare]
    exact unmarked_append (unmarked_gap _) (unmarked_append (unmarked_hex _) (unmarked_append (unmarked_gap _) (unmarked_digits _)))
  refine search_eq_none fun u inside hu => ?_
  have parts : u ∈ (Re.cat ([.group 1 digits, .char ')', spaces, .group 2 (.plus (.cls isDecimal)), spaces] ++
    .group 3 direction :: [spaces, .group 4 (.plus (.cls isUpperHex)), spaces, .group 5 digits, spaces,
      .group 6 (.plus (.cls isHexOrBlank))])).language := hu
  obtain ⟨v, t, same, hv⟩ := behind_direction parts r.toShortFrame inside r.unmarked_front unmarked
  obtain ⟨a, v, rfl, ha, hv⟩ := mem_cat_cons hv
  obtain ⟨x, v, rfl, hx, hv⟩ := mem_cat_cons hv
  obtain ⟨a', v, rfl, ha', hv⟩ := mem_cat_cons hv
  obtain ⟨y, v, rfl, hy, hv⟩ := mem_cat_cons hv
  obtain ⟨a'', v, rfl, ha'', -⟩ := mem_cat_cons hv
  have hex (c : Char) (h : isUpperHex c = true) : isSpace c = false := not_space_of_visible (visible_of_isUpperHex h)
  have digit (c : Char) (h : isDigit c = true) : isSpace c = false := not_space_of_visible (visible_of_isDigit h)
  have column {q : Char → Bool} {w : QString} (h : w ∈ (Re.plus (.cls q)).language)
      (other : ∀ c, q c = true → isSpace c = false) : Run isSpace false w :=
    ⟨(mem_plus_cls h).1, fun c hc => other c ((mem_plus_cls h).2 c hc)⟩
  rw [bare] at same
  simp only [List.append_assoc] at same
  exact no_third_gap (run_gap (by decide) _) (run_written r.id hex) (run_gap (by decide) _) (run_written r.dlc digit)
    (mem_plus_cls ha) (column hx hex) (mem_plus_cls ha') (column hy digit) (mem_plus_cls ha'') same

theorem AscRow.search_empty (r : AscRow qt) (empty : r.bytes = []) : search AscDriver.pattern r.line = none := by
  have bare : r.back = gap (r.gaps.get 3) ++ (['d'] ++ (gap (r.gaps.get 4) ++ r.dlc.text)) := by
    rw [back, empty, dataColumnText, List.append_nil]
  have unmarked : Unmarked r.back := by
    rw [bare]
    refine unmarked_append (unmarked_gap _) (unmarked_append ?_ (unmarked_append (unmarked_gap _) (unmarked_digits _)))
    exact List.forall_mem_singleton.mpr (by decide)
  refine search_eq_none fun u inside hu => ?_
  have parts : u ∈ (Re.cat ([.group 1 (.plus (.cls isDecimal)), blanks, .opt (.group 2 digits), blanks,
    .group 3 (.plus (.cls isUpperHex)), .opt (.char 'x'), blanks] ++
    .group 4 direction :: [blanks, .char 'd', blanks, .group 5 digits, blanks,
      .group 6 (.plus (.cls isHexOrBlank))])).language := hu
  obtain ⟨v, t, same, hv⟩ := behind_direction parts r.toShortFrame inside r.unmarked_front unmarked
  obtain ⟨a, v, rfl, ha, hv⟩ := mem_cat_cons hv
  obtain ⟨x, v, rfl, hx, hv⟩ := mem_cat_cons hv
  obtain ⟨a', v, rfl, ha', hv⟩ := mem_cat_cons hv
  obtain ⟨y, v, rfl, hy, hv⟩ := mem_cat_cons hv
  obtain ⟨a'', v, rfl, ha'', -⟩ := mem_cat_cons hv
  have digit (c : Char) (h : isDigit c = true) : (c == ' ') = false := not_blank_of_visible (visible_of_isDigit h)
  have letter : Run (· == ' ') false ['d'] := ⟨List.cons_ne_nil _ _, List.forall_mem_singleton.mpr (by decide)⟩
  obtain ⟨c, hc, rfl⟩ := hx
  rw [bare, eq_of_beq hc] at same
  simp only [List.append_assoc] at same
  exact no_third_gap (run_gap (by decide) _) letter (run_gap (by decide) _) (run_written r.dlc digit)
    (mem_plus_cls ha) letter (mem_plus_cls ha')
    ⟨(mem_plus_cls hy).1, fun c hc => digit c ((mem_plus_cls hy).2 c hc)⟩ (mem_plus_cls ha'') same

/-! ### Both -/

theorem ShortFrame.empty_iff (f : ShortFrame) : f.bytes = [] ↔ f.dlc.value = 0 := by
  rw [← f.length, List.length_eq_zero_iff]

theorem TrcRow.parseLine_iff (r : TrcRow qt) :
    (∃ msg, TrcDriver.parseLine qt r.line = .ok (some msg) ∧ msg.dlc.toNat = r.dlc.value) ↔ r.dlc.value ≠ 0 := by
  by_cases empty : r.bytes = []
  · have nonempty : r.line ≠ [] := by
      have number := r.number.nonempty
      simp [line, front, number]
    have rejected := @TrcDriver.parseLine_noise qt _ ⟨nonempty, .inr (r.search_empty empty)⟩
    rw [rejected]
    refine iff_of_false ?_ (not_not.mpr (r.empty_iff.mp empty))
    rintro ⟨msg, none, -⟩
    cases none
  · obtain ⟨msg, read, frame⟩ := (r.trcFrame empty).parseLine
    rw [r.line_some empty] at read
    exact iff_of_true ⟨msg, read, frame.dlc⟩ fun zero => empty (r.empty_iff.mpr zero)

theorem AscRow.parseLine_iff (r : AscRow qt) (number : UInt32) :
    (∃ msg, AscDriver.parseLine qt r.line number = .ok (some msg) ∧ msg.dlc.toNat = r.dlc.value) ↔
      r.dlc.value ≠ 0 := by
  by_cases empty : r.bytes = []
  · have rejected := @AscDriver.parseLine_noise qt _ (r.search_empty empty) number
    rw [rejected]
    refine iff_of_false ?_ (not_not.mpr (r.empty_iff.mp empty))
    rintro ⟨msg, none, -⟩
    cases none
  · obtain ⟨msg, read, frame⟩ := (r.ascFrame empty).parseLine number.toNat
    have same : number.toNat.toUInt32 = number := UInt32.ofNat_toNat
    rw [r.line_some empty, same] at read
    exact iff_of_true ⟨msg, read, frame.dlc⟩ fun zero => empty (r.empty_iff.mpr zero)

/-- A line is accepted with its DLC exactly when that is not 0. -/
theorem parseLine_short_iff (qt : Qt) :
    (∀ r : TrcRow qt, (∃ msg, TrcDriver.parseLine qt r.line = .ok (some msg) ∧ msg.dlc.toNat = r.dlc.value) ↔
      r.dlc.value ≠ 0) ∧
    ∀ (r : AscRow qt) (number : UInt32),
      (∃ msg, AscDriver.parseLine qt r.line number = .ok (some msg) ∧ msg.dlc.toNat = r.dlc.value) ↔ r.dlc.value ≠ 0 :=
  ⟨TrcRow.parseLine_iff, AscRow.parseLine_iff⟩

/-- A frame without data bytes. -/
def emptyRow : TrcRow plainBuild where
  number := ⟨"3".toList, by decide, by decide, by decide⟩
  time := ⟨"0.25".toList, by decide, by decide⟩
  sent := false
  id := ⟨"100".toList, by decide, by decide, by decide⟩
  dlc := ⟨"0".toList, by decide, by decide, by decide⟩
  bytes := []
  length := by decide
  indent := 0
  gaps := #v[0, 0, 0, 0, 0]

example : emptyRow.line = "3) 0.25 Rx 100 0".toList := by decide

theorem parseLine_short_empty :
    ¬ ∀ r : TrcRow plainBuild,
      ∃ msg, TrcDriver.parseLine plainBuild r.line = .ok (some msg) ∧ msg.dlc.toNat = r.dlc.value :=
  fun h => emptyRow.parseLine_iff.mp (h emptyRow) (by decide)

end CanTracer
