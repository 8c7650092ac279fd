import CanTracer.Regex.Pieces
import CanTracer.LogParser.Render

/-!
# Frames read back from their lines

Each pattern splits the line of a frame into its columns, and the driver stores one message for
each of them. Only an ASC line without a channel makes the matcher go back.
-/

namespace CanTracer

open Regex

variable {qt : Qt} {p : Char → Bool} {base max n : Nat} {t u : QString}

/-! ### Characters -/

theorem visible_of_isDigit {c : Char} (h : isDigit c = true) : ' '.val < c.val := by
  have lower : '0'.val ≤ c.val := by simpa using (Bool.and_eq_true_iff.mp h).1
  exact UInt32.lt_of_lt_of_le (by decide) lower

theorem visible_of_isUpperHex {c : Char} (h : isUpperHex c = true) : ' '.val < c.val := by
  rcases Bool.or_eq_true_iff.mp h with digit | letter
  · exact visible_of_isDigit digit
  · have lower : 'A'.val ≤ c.val := by simpa using (Bool.and_eq_true_iff.mp letter).1
    exact UInt32.lt_of_lt_of_le (by decide) lower

theorem visible_of_isDecimal {c : Char} (h : isDecimal c = true) : ' '.val < c.val := by
  rcases Bool.or_eq_true_iff.mp h with digit | point
  · exact visible_of_isDigit digit
  · rw [eq_of_beq point]
    decide

theorem not_space_of_visible {c : Char} (h : ' '.val < c.val) : isSpace c = false := by
  have blank : ' '.val.toNat = 32 := rfl
  have last : '\r'.val.toNat = 13 := rfl
  rw [UInt32.lt_iff_toNat_lt] at h
  rw [Bool.eq_false_iff]
  intro space
  simp only [isSpace, Bool.or_eq_true, Bool.and_eq_true, decide_eq_true_iff, beq_iff_eq, UInt32.le_iff_toNat_le] at space
  rcases space with rfl | ⟨-, upper⟩ <;> omega

theorem not_blank_of_visible {c : Char} (h : ' '.val < c.val) : (c == ' ') = false := by
  rw [beq_eq_false_iff_ne]
  rintro rfl
  exact absurd h (by decide)

/-- The text does not start with a blank. -/
def Visible (t : QString) : Prop := ∀ c ∈ t.head?, ' '.val < c.val

theorem visible_append (pos : u ≠ []) (h : ∀ c ∈ u, ' '.val < c.val) (t : QString) : Visible (u ++ t) := by
  intro c hc
  rw [List.head?_append_of_ne_nil _ pos] at hc
  exact h c (List.mem_of_mem_head? hc)

/-! ### Pieces of a line -/

theorem first_spaces (n : Nat) (h : Visible t) : First spaces (gap n ++ t) ⟨gap n, t, []⟩ :=
  first_plus_cls (gap n) (List.cons_ne_nil _ _) (fun c hc => by rw [List.eq_of_mem_replicate hc]; decide)
    fun c hc => not_space_of_visible (h c hc)

theorem first_blanks (n : Nat) (h : Visible t) : First blanks (gap n ++ t) ⟨gap n, t, []⟩ :=
  first_plus_cls (gap n) (List.cons_ne_nil _ _) (fun c hc => by rw [List.eq_of_mem_replicate hc]; decide)
    fun c hc => not_blank_of_visible (h c hc)

theorem head_gap {q : Char → Bool} (h : q ' ' = false) (n : Nat) (t : QString) :
    ∀ c ∈ (gap n ++ t).head?, q c = false := by
  intro c hc
  obtain rfl := Option.some.inj hc
  exact h

theorem first_written (w : Written p base max) (k : Nat) (next : ∀ c ∈ t.head?, p c = false) :
    First (.group k (.plus (.cls p))) (w.text ++ t) ⟨w.text, t, [(k, w.text)]⟩ :=
  first_capture k w.nonempty w.chars next

theorem first_time (time : WrittenTime qt) (k n : Nat) (t : QString) :
    First (.group k (.plus (.cls isDecimal))) (time.text ++ (gap n ++ t)) ⟨time.text, gap n ++ t, [(k, time.text)]⟩ := by
  obtain ⟨pos, chars⟩ := unsignedDecimal_chars time.plain
  exact first_capture k pos chars (head_gap (by decide) n t)

theorem first_direction (f : Frame) (k : Nat) (t : QString) :
    First (.group k direction) (f.direction ++ t) ⟨f.direction, t, [(k, f.direction)]⟩ := by
  unfold Frame.direction
  cases f.sent
  · exact first_group (first_altLeft (first_lit _ t))
  · have other : run (.lit "Rx".toList) ("Tx".toList ++ t) = [] := run_lit_ne (by decide)
    exact first_group (first_altRight other (first_lit _ t))

theorem visible_written (visible : ∀ c, p c = true → ' '.val < c.val) (w : Written p base max)
    (t : QString) :
    Visible (w.text ++ t) :=
  visible_append w.nonempty (fun c hc => visible c (w.chars c hc)) t

theorem visible_time (time : WrittenTime qt) (t : QString) : Visible (time.text ++ t) := by
  obtain ⟨pos, chars⟩ := unsignedDecimal_chars time.plain
  exact visible_append pos (fun c hc => visible_of_isDecimal (chars c hc)) t

theorem head_direction (f : Frame) (t : QString) :
    ∀ c ∈ (f.direction ++ t).head?, ' '.val < c.val ∧ isUpperHex c = false := by
  intro c hc
  unfold Frame.direction at hc
  cases sent : f.sent <;> rw [sent] at hc <;> obtain rfl := Option.some.inj hc <;> decide

theorem visible_direction (f : Frame) (t : QString) :
    Visible (f.direction ++ t) := fun c hc => (head_direction f t c hc).1

theorem visible_bytes (f : Frame) (t : QString) : Visible (bytesText f.bytes ++ t) :=
  fun c hc => visible_of_isUpperHex (head_bytesText f.nonempty t c hc)

/-! ### A TRC line -/

def TrcFrame.captures (f : TrcFrame qt) : List (Nat × QString) :=
  [(1, f.number.text), (2, f.time.text), (3, f.direction), (4, f.id.text), (5, f.dlc.text), (6, bytesText f.bytes)]

theorem TrcFrame.first_pattern (f : TrcFrame qt) :
    First TrcDriver.pattern f.text ⟨f.text, [], f.captures⟩ := by
  unfold TrcDriver.pattern TrcFrame.text
  simp only [List.flatten_cons, List.flatten_nil]
  apply first_cat (first_written f.number 1 (by simp [isDigit]))
  apply first_cat (first_char ')' _)
  apply first_cat (first_spaces _ (visible_time f.time _))
  apply first_cat (first_time f.time 2 _ _)
  apply first_cat (first_spaces _ (visible_direction f.toFrame _))
  apply first_cat (first_direction f.toFrame 3 _)
  refine first_cat (first_spaces _ (visible_written (fun _ => visible_of_isUpperHex) f.id _)) ?_
  apply first_cat (first_written f.id 4 (head_gap (by decide) _ _))
  refine first_cat (first_spaces _ (visible_written (fun _ => visible_of_isDigit) f.dlc _)) ?_
  apply first_cat (first_written f.dlc 5 (head_gap (by decide) _ _))
  apply first_cat (first_spaces _ (visible_bytes f.toFrame _))
  apply first_cat (first_capture 6 (bytesText_ne_nil f.nonempty) (bytesText_chars f.bytes) (by simp))
  exact first_nil []

theorem run_capture_ne {k : Nat} {c : Char} {s : QString} (h : p c = false) :
    run (.group k (.plus (.cls p))) (c :: s) = [] := by
  simp [run, Re.plus, h]

theorem search_indent {k : Nat} {rs : List Re} (h : p ' ' = false) (n : Nat) (s : QString) :
    search (.cat (.group k (.plus (.cls p)) :: rs)) (List.replicate n ' ' ++ s) =
      search (.cat (.group k (.plus (.cls p)) :: rs)) s := by
  apply search_skip
  intro c hc t
  obtain rfl := List.eq_of_mem_replicate hc
  exact run_cat_nil (run_capture_ne h)

theorem TrcFrame.search_line (f : TrcFrame qt) :
    search TrcDriver.pattern f.line = some ⟨f.text, [], f.captures⟩ := by
  rw [TrcFrame.line, TrcDriver.pattern, search_indent (by decide)]
  exact search_of_first f.first_pattern

/-! ### An ASC line -/

namespace AscFrame

def dataText (f : AscFrame qt) : QString := bytesText f.bytes ++ f.trailer.elim [] fun _ => [' ']

def behind (f : AscFrame qt) : QString := f.trailer.elim [] fun t => t.head :: t.tail

theorem dataText_behind (f : AscFrame qt) :
    bytesText f.bytes ++ f.trailerText = f.dataText ++ f.behind := by
  unfold trailerText dataText behind
  cases f.trailer <;> simp

theorem dataText_chars (f : AscFrame qt) : ∀ c ∈ f.dataText, isHexOrBlank c = true := by
  have blank : isHexOrBlank ' ' = true := by decide
  refine List.forall_mem_append.mpr ⟨bytesText_chars f.bytes, ?_⟩
  cases f.trailer with
  | none => exact List.forall_mem_nil _
  | some t => exact List.forall_mem_singleton.mpr blank

theorem head_behind (f : AscFrame qt) : ∀ c ∈ f.behind.head?, isHexOrBlank c = false := by
  unfold behind
  cases f.trailer with
  | none => nofun
  | some t =>
    intro c hc
    obtain rfl := Option.some.inj hc
    exact t.notData

def captures (f : AscFrame qt) : List (Nat × QString) :=
  [(3, f.id.text), (4, f.direction), (5, f.dlc.text), (6, f.dataText)]

abbrev afterChannel : List Re :=
  [.group 3 (.plus (.cls isUpperHex)), .opt (.char 'x'), blanks, .group 4 direction, blanks, .char 'd', blanks,
    .group 5 digits, blanks, .group 6 (.plus (.cls isHexOrBlank))]

theorem first_suffix (f : AscFrame qt) (n : Nat) (t : QString) :
    First (.opt (.char 'x')) (f.suffixText ++ (gap n ++ t)) ⟨f.suffixText, gap n ++ t, []⟩ := by
  unfold suffixText
  cases f.suffix
  · have none : run (.char 'x') (gap n ++ t) = [] := run_char_ne (by decide)
    exact first_altRight none (first_eps _)
  · exact first_altLeft (first_char 'x' _)

theorem head_suffix (f : AscFrame qt) (n : Nat) (t : QString) :
    ∀ c ∈ (f.suffixText ++ (gap n ++ t)).head?, isUpperHex c = false := by
  unfold suffixText
  cases f.suffix
  · exact head_gap (by decide) n t
  · intro c hc
    obtain rfl := Option.some.inj hc
    decide

theorem first_id (f : AscFrame qt) :
    First (.cat afterChannel) f.idText ⟨f.lead ++ f.dataText, f.behind, f.captures⟩ := by
  have whole : f.idText = f.id.text ++ (f.suffixText ++ (gap f.gaps[2] ++ (f.direction ++ (gap f.gaps[3] ++ (['d'] ++
      (gap f.gaps[4] ++ (f.dlc.text ++ (gap f.gaps[5] ++ (f.dataText ++ f.behind))))))))) := by
    rw [← f.dataText_behind]
    simp [idText, lead]
  have taken : f.lead ++ f.dataText =
      f.id.text ++ (f.suffixText ++ (gap f.gaps[2] ++ (f.direction ++ (gap f.gaps[3] ++ (['d'] ++
      (gap f.gaps[4] ++ (f.dlc.text ++ (gap f.gaps[5] ++ (f.dataText ++ []))))))))) := by
    simp [lead]
  rw [whole, taken]
  apply first_cat (first_written f.id 3 (f.head_suffix _ _))
  apply first_cat (f.first_suffix _ _)
  apply first_cat (first_blanks _ (visible_direction f.toFrame _))
  apply first_cat (first_direction f.toFrame 4 _)
  apply first_cat (first_blanks _ (visible_append (List.cons_ne_nil 'd' []) (by decide) _))
  apply first_cat (first_char 'd' _)
  refine first_cat (first_blanks _ (visible_written (fun _ => visible_of_isDigit) f.dlc _)) ?_
  apply first_cat (first_written f.dlc 5 (head_gap (by decide) _ _))
  apply first_cat (first_blanks _ (by rw [← f.dataText_behind]; exact visible_bytes f.toFrame _))
  have pos : f.dataText ≠ [] := List.append_ne_nil_of_left_ne_nil (bytesText_ne_nil f.nonempty) _
  apply first_cat (first_capture 6 pos f.dataText_chars f.head_behind)
  exact first_nil _

theorem behind_gap {w g t : QString} (hw : ∀ c ∈ w, c ≠ ' ') (hg : ∀ c ∈ g, c = ' ') (pos : g ≠ [])
    (ht : ∀ c ∈ t.head?, c ≠ ' ') : ((w ++ (g ++ t)).dropWhile (· != ' ')).dropWhile (· == ' ') = t := by
  have column : (w ++ (g ++ t)).dropWhile (· != ' ') = g ++ t := by
    rw [List.dropWhile_append_of_pos fun c hc => bne_iff_ne.mpr (hw c hc)]
    cases g with
    | nil => exact absurd rfl pos
    | cons c g => rw [hg c List.mem_cons_self]; rfl
  rw [column, List.dropWhile_append_of_pos fun c hc => beq_iff_eq.mpr (hg c hc)]
  cases t with
  | nil => rfl
  | cons c t => exact List.dropWhile_cons_of_neg (by simpa using ht c rfl)

theorem not_blank_of_isDigit {c : Char} (h : isDigit c = true) : c ≠ ' ' :=
  beq_eq_false_iff_ne.mp (not_blank_of_visible (visible_of_isDigit h))

/-- Taken for a channel, the identifier leaves nothing that could be one. -/
theorem channel_fails {w t : QString} {rs : List Re} (hw : ∀ c ∈ w, c ≠ ' ') (n : Nat)
    (ht : ∀ c ∈ t.head?, ' '.val < c.val ∧ isUpperHex c = false) :
    run (.cat (.opt (.group 2 digits) :: blanks :: .group 3 (.plus (.cls isUpperHex)) :: rs))
      (w ++ (gap n ++ t)) = [] := by
  rw [run_eq_nil_iff]
  intro u y whole hu
  obtain ⟨a, u, rfl, ha, afterDigits⟩ := mem_cat_cons hu
  obtain ⟨b, u, rfl, hb, afterBlanks⟩ := mem_cat_cons afterDigits
  obtain ⟨c, d, rfl, hc, -⟩ := mem_cat_cons afterBlanks
  have digit : ∀ e ∈ a, isDigit e = true :=
    language_within (P := fun e => isDigit e = true) (.opt (.group 2 digits)) (by simp [Re.opt, Re.plus, Re.Within]) a ha
  have blank : ∀ e ∈ b, e = ' ' :=
    language_within (P := fun e => e = ' ') blanks (by simp [Re.plus, Re.char, Re.Within]) b hb
  have some : b ≠ [] := by
    obtain ⟨x, ⟨e, -, rfl⟩, z, -, rfl⟩ := Language.mem_mul.mp hb
    exact List.cons_ne_nil _ _
  obtain ⟨x, ⟨e, hex, rfl⟩, z, -, rfl⟩ := Language.mem_mul.mp hc
  have left := behind_gap (g := gap n) hw (fun c hc => List.eq_of_mem_replicate hc) (List.cons_ne_nil _ _)
    (fun c hc => beq_eq_false_iff_ne.mp (not_blank_of_visible (ht c hc).1))
  have right := behind_gap (t := e :: (z ++ (d ++ y))) (fun c hc => not_blank_of_isDigit (digit c hc)) blank some
    (fun c hc => by obtain rfl := Option.some.inj hc; exact not_blank_of_isUpperHex hex)
  have same : w ++ (gap n ++ t) = a ++ (b ++ e :: (z ++ (d ++ y))) := by simpa using whole
  rw [← same] at right
  have first := left.symm.trans right
  have other := (ht e (by rw [first]; rfl)).2
  rw [hex] at other
  cases other

theorem visible_id (f : AscFrame qt) : Visible f.idText := by
  rw [idText, lead, List.flatten_cons, List.append_assoc]
  exact visible_written (fun _ => visible_of_isUpperHex) f.id _

theorem idText_fails (f : AscFrame qt) :
    run (.cat (.opt (.group 2 digits) :: blanks :: afterChannel)) f.idText = [] := by
  have whole : f.idText = (f.id.text ++ f.suffixText) ++ (gap f.gaps[2] ++ (f.direction ++ (gap f.gaps[3] ++ (['d'] ++
      (gap f.gaps[4] ++ (f.dlc.text ++ (gap f.gaps[5] ++ (bytesText f.bytes ++ f.trailerText)))))))) := by
    simp [idText, lead]
  have suffix : ∀ c ∈ f.suffixText, c ≠ ' ' := by
    unfold suffixText
    cases f.suffix <;> simp
  rw [whole]
  exact channel_fails (List.forall_mem_append.mpr ⟨fun c hc => not_blank_of_isUpperHex (f.id.chars c hc), suffix⟩) _
    (head_direction f.toFrame _)

theorem first_channel (f : AscFrame qt) (ch : Written isDigit 10 255) (n m : Nat) :
    First (.cat (blanks :: .opt (.group 2 digits) :: blanks :: afterChannel))
      (gap n ++ (ch.text ++ (gap m ++ f.idText)))
      ⟨gap n ++ (ch.text ++ (gap m ++ (f.lead ++ f.dataText))), f.behind, (2, ch.text) :: f.captures⟩ := by
  refine first_cat (first_blanks _ (visible_written (fun _ => visible_of_isDigit) ch _)) ?_
  apply first_cat (first_altLeft (first_written ch 2 (head_gap (by decide) _ _)))
  exact first_cat (first_blanks _ f.visible_id) f.first_id

/-- The first run of blanks is taken whole, fails at the identifier, and gives one blank back. -/
theorem first_noChannel (f : AscFrame qt) (n m : Nat) :
    First (.cat (blanks :: .opt (.group 2 digits) :: blanks :: afterChannel)) (gap n ++ (gap m ++ f.idText))
      ⟨gap n ++ (gap m ++ (f.lead ++ f.dataText)), f.behind, f.captures⟩ := by
  have shift (t : QString) : gap n ++ (gap m ++ t) = (gap n ++ List.replicate m ' ') ++ (' ' :: t) := by
    have last : gap m = List.replicate m ' ' ++ [' '] := List.replicate_succ'
    rw [last, List.append_assoc, List.append_assoc]
    rfl
  have all : ∀ c ∈ gap n ++ List.replicate m ' ', (c == ' ') = true := by
    simp [gap]
  obtain ⟨before, tried, longer⟩ := tries_plus_cls (gap n ++ List.replicate m ' ') (' ' :: f.idText)
    (List.cons_ne_nil _ _) all
  rw [shift, shift]
  refine tries_cat tried (fun x hx => ?_) ?_
  · obtain ⟨v, pos, blank, whole⟩ := longer x hx
    obtain ⟨b, v, rfl⟩ := List.exists_cons_of_ne_nil pos
    obtain ⟨-, rest⟩ := List.cons.inj whole
    cases v with
    | nil =>
      change f.idText = x.rest at rest
      rw [← rest]
      exact f.idText_fails
    | cons c v =>
      have visible := f.visible_id c (by rw [rest]; rfl)
      have isBlank := blank c (by simp)
      rw [not_blank_of_visible visible] at isBlank
      cases isBlank
  · have none : run (.group 2 digits) (' ' :: f.idText) = [] := run_capture_ne (by decide)
    exact first_cat (first_altRight none (first_eps _)) (first_cat (first_blanks 0 f.visible_id) f.first_id)

theorem search_line (f : AscFrame qt) :
    ∃ text, search AscDriver.pattern f.line = some ⟨text, f.behind,
      (1, f.time.text) :: (f.channel.elim f.captures fun ch => (2, ch.text) :: f.captures)⟩ := by
  rw [line, AscDriver.pattern, search_indent (by decide)]
  cases channel : f.channel with
  | none =>
    have whole : f.text = f.time.text ++ (gap f.gaps[0] ++ (gap f.gaps[1] ++ f.idText)) := by
      simp [text, channelText, channel]
    rw [whole]
    exact ⟨_, search_of_first (first_cat (first_time f.time 1 _ _) (f.first_noChannel _ _))⟩
  | some ch =>
    have whole : f.text = f.time.text ++ (gap f.gaps[0] ++ (ch.text ++ (gap f.gaps[1] ++ f.idText))) := by
      simp [text, channelText, channel]
    rw [whole]
    exact ⟨_, search_of_first (first_cat (first_time f.time 1 _ _) (f.first_channel ch _ _))⟩

end AscFrame

/-! ### What the lines say -/

theorem Written.reads (w : Written p base max)
    (digit : ∀ c, p c = true → (digitValue c).any (· < base) = true) {most : Nat}
    (le : max ≤ most) : toUnsigned base most w.text = some w.value := by
  refine toUnsigned_some.mpr ⟨⟨w.nonempty, ?_, Nat.le_trans w.bounded le⟩, rfl⟩
  exact List.all_eq_true.mpr fun c hc => digit c (w.chars c hc)

theorem isDigit_value (c : Char) (h : isDigit c = true) : (digitValue c).any (· < 10) = true := by
  rw [digitValue_of_isDigit h, Option.any_some, decide_eq_true_iff]
  exact digitValue_lt h

theorem isUpperHex_value (c : Char) (h : isUpperHex c = true) : (digitValue c).any (· < 16) = true := by
  cases digit : isDigit c with
  | true =>
    have lt := digitValue_lt digit
    rw [digitValue_of_isDigit digit, Option.any_some, decide_eq_true_iff]
    omega
  | false =>
    rw [isUpperHex, digit, Bool.false_or, Bool.and_eq_true, decide_eq_true_iff, decide_eq_true_iff] at h
    have upper : c.toNat ≤ 'F'.toNat := h.2
    have f : 'F'.toNat = 70 := rfl
    have a : 'A'.toNat = 65 := rfl
    rw [digitValue, digit, if_neg Bool.false_ne_true, if_pos h, Option.any_some, decide_eq_true_iff]
    omega

theorem Frame.dlc_le (f : Frame) : f.dlc.value ≤ canMaxDlc := f.dlc.bounded

theorem setDir_direction (msg : CanLogMsg) (f : Frame) :
    msg.setDir f.direction = (true, { msg with dir := if f.sent then .rx else .tx }) := by
  unfold CanLogMsg.setDir Frame.direction
  cases f.sent <;> rfl

theorem TrcFrame.head_line (f : TrcFrame qt) : f.line ≠ [] ∧ f.line.head? ≠ some TrcDriver.commentChar := by
  have front : (List.replicate f.indent ' ' ++ f.number.text) ≠ [] :=
    List.append_ne_nil_of_right_ne_nil _ f.number.nonempty
  have other : ∀ c ∈ List.replicate f.indent ' ' ++ f.number.text, c ≠ TrcDriver.commentChar := by
    refine List.forall_mem_append.mpr ⟨fun c hc => ?_, fun c hc => ?_⟩
    · rw [List.eq_of_mem_replicate hc]
      decide
    · rintro rfl
      exact absurd (f.number.chars _ hc) (by decide)
  have whole : ∃ t, f.line = (List.replicate f.indent ' ' ++ f.number.text) ++ t :=
    ⟨_, by rw [TrcFrame.line, TrcFrame.text, List.flatten_cons, List.append_assoc]⟩
  obtain ⟨t, whole⟩ := whole
  rw [whole]
  refine ⟨List.append_ne_nil_of_left_ne_nil front t, fun head => ?_⟩
  rw [List.head?_append_of_ne_nil _ front] at head
  exact other _ (List.mem_of_head? head) rfl

theorem TrcFrame.accepted (f : TrcFrame qt) :
    ∃ time dir, TrcDriver.accepted qt f.line =
      some ({ number := f.number.value.toUInt32, id := f.id.value.toUInt32, time := time,
              dlc := f.dlc.value.toUInt8, dir := dir },
        f.bytes) := by
  obtain ⟨time, reads⟩ := Option.isSome_iff_exists.mp f.time.reads
  have number : toInt f.number.text = some f.number.value := f.number.reads isDigit_value (Nat.le_refl _)
  have id : toUInt f.id.text 16 = some f.id.value := f.id.reads isUpperHex_value (by decide)
  have dlc : toUInt f.dlc.text 10 = some f.dlc.value := f.dlc.reads isDigit_value (by decide)
  have data : dataBytes (bytesText f.bytes) = f.bytes := by
    have whole := dataBytes_bytesText f.bytes [] (by simp)
    rw [List.append_nil] at whole
    exact whole
  have short := f.dlc_le
  have narrowed : f.dlc.value % 256 = f.dlc.value := Nat.mod_eq_of_lt (Nat.lt_of_le_of_lt short (by decide))
  refine ⟨time / TrcDriver.timeScale, if f.sent then .rx else .tx, ?_⟩
  simp [TrcDriver.accepted, TrcDriver.fields, f.search_line, f.head_line.2, TrcFrame.captures, Match.captured,
    List.lookup_cons,
    number, reads, setDir_direction, id, dlc, data, narrowed, short, guard]

theorem AscFrame.accepted (f : AscFrame qt) (number : UInt32) :
    ∃ time dir, AscDriver.accepted qt number f.line =
      some ({ number := number, id := f.id.value.toUInt32, time := time, channel := f.channelValue.toUInt8,
              dlc := f.dlc.value.toUInt8, dir := dir }, f.bytes) := by
  obtain ⟨text, found⟩ := f.search_line
  obtain ⟨time, reads⟩ := Option.isSome_iff_exists.mp f.time.reads
  have wide : 2 ^ 32 ≤ 2 ^ qt.ulongBits := Nat.pow_le_pow_right (by decide) qt.ulongBits_ge
  have id : toULong qt f.id.text 16 = some f.id.value := f.id.reads isUpperHex_value (by omega)
  have dlc : toUInt f.dlc.text 10 = some f.dlc.value := f.dlc.reads isDigit_value (by decide)
  have data : dataBytes f.dataText = f.bytes := by
    apply dataBytes_bytesText
    cases f.trailer <;> simp
  have short := f.dlc_le
  have narrowed : f.dlc.value % 256 = f.dlc.value := Nat.mod_eq_of_lt (Nat.lt_of_le_of_lt short (by decide))
  refine ⟨time, if f.sent then .rx else .tx, ?_⟩
  cases channel : f.channel with
  | none =>
    rw [channel] at found
    simp [AscDriver.accepted, AscDriver.fields, found, AscFrame.captures, Match.captured, List.lookup_cons, channel,
      AscFrame.channelValue, reads, setDir_direction, id, dlc, data, narrowed, short, guard]
  | some ch =>
    rw [channel] at found
    have number : toUInt ch.text 10 = some ch.value := ch.reads isDigit_value (by decide)
    simp [AscDriver.accepted, AscDriver.fields, found, AscFrame.captures, Match.captured, List.lookup_cons, channel,
      AscFrame.channelValue, ch.nonempty, number, reads, setDir_direction, id, dlc, data, narrowed, short, guard]

theorem toList_copy {bytes : Bytes} (h : bytes.length ≤ canMaxDlc) :
    (CanData.zero.copy bytes).toList = bytes ++ List.replicate (canMaxDlc - bytes.length) 0 := by
  apply List.ext_getElem (by simp; omega)
  intro i hi hi'
  by_cases inside : i < bytes.length
  · simp [CanData.copy, inside]
  · simp [CanData.copy, CanData.zero, inside, List.getElem_append_right (Nat.le_of_not_lt inside)]

theorem Frame.copied (f : Frame) (number channel : Nat) (small : channel ≤ 255) (time : ℚ) (dir : CanDir) :
    ∃ msg,
      copyData { number := number.toUInt32, id := f.id.value.toUInt32, time := time, channel := channel.toUInt8,
                 dlc := f.dlc.value.toUInt8, dir := dir } f.bytes = .ok msg ∧
        f.ReadAs number channel msg := by
  have short : f.bytes.length ≤ canMaxDlc := by rw [f.length]; exact f.dlc_le
  have bound : f.id.value < 2 ^ 32 := Nat.lt_of_le_of_lt f.id.bounded (by decide)
  refine ⟨_, by rw [copyData, if_pos short], rfl, ?_, ?_, toUInt8_toNat f.dlc_le, toList_copy short⟩
  · exact UInt8.toNat_ofNat_of_lt' (Nat.lt_succ_of_le small)
  · exact UInt32.toNat_ofNat_of_lt' bound

theorem TrcFrame.parseLine (f : TrcFrame qt) :
    ∃ msg, TrcDriver.parseLine qt f.line = .ok (some msg) ∧ f.ReadAs f.number.value 0 msg := by
  obtain ⟨time, dir, accept⟩ := f.accepted
  obtain ⟨msg, copied, read⟩ := f.copied f.number.value 0 (Nat.zero_le _) time dir
  refine ⟨msg, ?_, read⟩
  rw [TrcDriver.parseLine, if_neg f.head_line.1, accept]
  exact congrArg (Except.map some) copied

theorem AscFrame.parseLine (f : AscFrame qt) (k : Nat) :
    ∃ msg, AscDriver.parseLine qt f.line k.toUInt32 = .ok (some msg) ∧ f.ReadAs k f.channelValue msg := by
  have small : f.channelValue ≤ 255 := by
    unfold channelValue
    cases f.channel with
    | none => exact Nat.zero_le _
    | some ch => exact ch.bounded
  obtain ⟨time, dir, accept⟩ := f.accepted k.toUInt32
  obtain ⟨msg, copied, read⟩ := f.copied k f.channelValue small time dir
  refine ⟨msg, ?_, read⟩
  rw [AscDriver.parseLine, accept]
  exact congrArg (Except.map some) copied

theorem TrcDriver.parseLine_noise {line : QString} (h : Noise line) : parseLine qt line = .ok none := by
  have rejected : accepted qt line = none := by
    rcases h.2 with comment | other
    · simp [accepted, comment, guard, failure]
    · simp [accepted, other]
  rw [parseLine, if_neg h.1, rejected]

theorem AscDriver.parseLine_noise {line : QString} (h : Noise line) (number : UInt32) :
    parseLine qt line number = .ok none := by
  have none : search pattern line = none := h
  simp [parseLine, accepted, none]

/-! ### Logs -/

/-- The state counts the messages stored so far: lines that are passed over leave it. -/
theorem TextDriver.parseLines_entries {σ F : Type} {Noise : QString → Prop} (driver : TextDriver σ)
    (state : Nat → σ) (text : F → QString)
    {R : F → Nat → CanLogMsg → Prop} (noise : ∀ line k, Noise line → driver.parseLine line (state k) = .ok none)
    (frame : ∀ f k, ∃ msg, driver.parseLine (text f) (state k) = .ok (some (msg, state (k + 1))) ∧ R f k msg)
    (entries : List (Entry F Noise)) :
    ∀ k, ∃ msgs, driver.parseLines (entries.map (Entry.line text)) (state k) = .ok msgs ∧
      List.Forall₂ (fun x msg => R x.1 x.2 msg) ((frames entries).zipIdx k) msgs := by
  induction entries with
  | nil => exact fun k => ⟨[], rfl, .nil⟩
  | cons e entries ih =>
    intro k
    cases e with
    | noise line other =>
      obtain ⟨msgs, parsed, read⟩ := ih k
      refine ⟨msgs, ?_, read⟩
      rw [List.map_cons, parseLines, Entry.line, noise line k other]
      exact parsed
    | frame f =>
      obtain ⟨msg, first, here⟩ := frame f k
      obtain ⟨msgs, parsed, read⟩ := ih (k + 1)
      refine ⟨msg :: msgs, ?_, .cons here read⟩
      rw [List.map_cons, parseLines, Entry.line, first]
      change (do return msg :: (← driver.parseLines (entries.map (Entry.line text)) (state (k + 1)))) = _
      rw [parsed]
      rfl

/-- One message for each frame, in order. -/
theorem parse_written (qt : Qt) (file : File) :
    (∀ entries : List (Entry (TrcFrame qt) TrcDriver.Noise),
      readLines file.text = entries.map (Entry.line TrcFrame.line) →
      ∃ msgs, (TrcDriver.driver qt).parse (some file) = .ok msgs ∧
        List.Forall₂ (fun f msg => f.ReadAs f.number.value 0 msg) (frames entries) msgs) ∧
    (∀ entries : List (Entry (AscFrame qt) AscDriver.Noise),
      readLines file.text = entries.map (Entry.line AscFrame.line) →
      ∃ msgs, (AscDriver.driver qt).parse (some file) = .ok msgs ∧
        List.Forall₂ (fun x msg => x.1.ReadAs x.2 x.1.channelValue msg) (frames entries).zipIdx msgs) := by
  constructor
  · intro entries lines
    have noise (line : QString) (_ : Nat) (h : TrcDriver.Noise line) :
        (TrcDriver.driver qt).parseLine line () = .ok none :=
      congrArg (Except.map _) (TrcDriver.parseLine_noise h)
    have frame (f : TrcFrame qt) (_ : Nat) :
        ∃ msg, (TrcDriver.driver qt).parseLine f.line () = .ok (some (msg, ())) ∧ f.ReadAs f.number.value 0 msg := by
      obtain ⟨msg, first, read⟩ := f.parseLine
      exact ⟨msg, congrArg (Except.map _) first, read⟩
    obtain ⟨msgs, parsed, read⟩ :=
      (TrcDriver.driver qt).parseLines_entries (fun _ => ()) TrcFrame.line noise frame entries 0
    refine ⟨msgs, by rw [TextDriver.parse, lines]; exact parsed, ?_⟩
    rw [← List.zipIdx_map_fst 0 (frames entries)]
    exact List.forall₂_map_left_iff.mpr read
  · intro entries lines
    have noise (line : QString) (k : Nat) (h : AscDriver.Noise line) :
        (AscDriver.driver qt).parseLine line k.toUInt32 = .ok none :=
      congrArg (Except.map _) (AscDriver.parseLine_noise h k.toUInt32)
    have frame (f : AscFrame qt) (k : Nat) :
        ∃ msg, (AscDriver.driver qt).parseLine f.line k.toUInt32 = .ok (some (msg, (k + 1).toUInt32)) ∧
          f.ReadAs k f.channelValue msg := by
      obtain ⟨msg, first, read⟩ := f.parseLine k
      have next : k.toUInt32 + 1 = (k + 1).toUInt32 := (UInt32.ofNat_add k 1).symm
      exact ⟨msg, next ▸ congrArg (Except.map _) first, read⟩
    obtain ⟨msgs, parsed, read⟩ :=
      (AscDriver.driver qt).parseLines_entries Nat.toUInt32 AscFrame.line noise frame entries 0
    exact ⟨msgs, by rw [TextDriver.parse, lines]; exact parsed, read⟩

def headerFrame : TrcFrame plainBuild where
  number := ⟨"2".toList, by decide, by decide, by decide⟩
  time := ⟨"118912.5".toList, by decide, by decide⟩
  sent := false
  id := ⟨"18F00010".toList, by decide, by decide, by decide⟩
  dlc := ⟨"8".toList, by decide, by decide, by decide⟩
  bytes := [0, 0x7D, 0, 0, 0, 0, 0, 0x7D]
  nonempty := by decide
  length := by decide
  indent := 5
  gaps := #v[3, 1, 4, 1, 1]

def headerFile : File where
  bytes := []
  text := ";$FILEVERSION=1.1\n     2)    118912.5  Rx     18F00010  8  00 7D 00 00 00 00 00 7D\n".toList

/-- No channel, and an identifier that could be one. -/
def bareFrame : AscFrame plainBuild where
  time := ⟨"0.5".toList, by decide, by decide⟩
  channel := none
  sent := true
  id := ⟨"123".toList, by decide, by decide, by decide⟩
  suffix := false
  dlc := ⟨"2".toList, by decide, by decide, by decide⟩
  bytes := [1, 0x1F]
  nonempty := by decide
  length := by decide
  trailer := some ⟨'L', "ength = 0".toList, by decide⟩
  indent := 3
  gaps := #v[0, 0, 6, 2, 0, 0]

def bareFile : File where
  bytes := []
  text := "base hex\n   0.5  123       Tx   d 2 01 1F Length = 0\n".toList

theorem parse_written_documented :
    (∃ msgs, (TrcDriver.driver plainBuild).parse (some headerFile) = .ok msgs ∧
      List.Forall₂ (fun f msg => f.ReadAs f.number.value 0 msg) [headerFrame] msgs) ∧
    ∃ msgs, (AscDriver.driver plainBuild).parse (some bareFile) = .ok msgs ∧
      List.Forall₂ (fun x msg => x.1.ReadAs x.2 x.1.channelValue msg) [(bareFrame, 0)] msgs :=
  ⟨(parse_written plainBuild headerFile).1 [.noise ";$FILEVERSION=1.1".toList ⟨by decide, .inl rfl⟩, .frame headerFrame]
      (by decide +kernel),
    (parse_written plainBuild bareFile).2
      [.noise "base hex".toList (by unfold AscDriver.Noise; decide +kernel), .frame bareFrame]
      (by decide +kernel)⟩

end CanTracer
