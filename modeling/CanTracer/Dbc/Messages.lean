import CanTracer.Dbc.Frame

/-!
# Which messages are stored

The line that closes a block is used up. When the numbers of a text convert, the parser therefore
stores one message for each `BO_` line exactly when no `BO_` line closes a block.
-/

namespace CanTracer.Dbc

open Regex

/-! ### Openings that do not follow one another -/

section
variable {α : Type} (P S : α → Bool)

/-- After an element with `P` and any number with `S`, the next one is not `P`. -/
def Separated (ls : List α) : Prop :=
  ∀ pre b mid b' post, ls = pre ++ b :: (mid ++ b' :: post) → P b = true → P b' = true → ∃ x ∈ mid, S x = false

def upto (ls : List α) : List α := ls.take ((ls.takeWhile S).length + 1)

def after (ls : List α) : List α := ls.drop ((ls.takeWhile S).length + 1)

variable {P S} {l : α} {ls : List α}

theorem mem_upto_iff {x : α} : x ∈ upto S ls ↔ ∃ mid post, ls = mid ++ x :: post ∧ ∀ y ∈ mid, S y = true := by
  induction ls with
  | nil => simp [upto]
  | cons l ls ih =>
    rw [upto, List.takeWhile_cons]
    by_cases h : S l = true
    · rw [if_pos h, List.length_cons, List.take_succ_cons, List.mem_cons, ← upto, ih]
      constructor
      · rintro (rfl | ⟨mid, post, rfl, all⟩)
        · exact ⟨[], ls, rfl, by simp⟩
        · exact ⟨l :: mid, post, rfl, List.forall_mem_cons.mpr ⟨h, all⟩⟩
      · rintro ⟨mid, post, whole, all⟩
        rcases List.cons_eq_append_iff.mp whole with ⟨rfl, whole⟩ | ⟨mid', rfl, rfl⟩
        · exact .inl (List.cons_eq_cons.mp whole).1.symm
        · exact .inr ⟨mid', post, rfl, fun y hy => all y (List.mem_cons_of_mem _ hy)⟩
    · rw [if_neg h, List.length_nil, List.take_succ_cons, List.take_zero, List.mem_singleton]
      constructor
      · rintro rfl
        exact ⟨[], ls, rfl, by simp⟩
      · rintro ⟨mid, post, whole, all⟩
        rcases List.cons_eq_append_iff.mp whole with ⟨rfl, whole⟩ | ⟨mid', rfl, rfl⟩
        · exact (List.cons_eq_cons.mp whole).1.symm
        · exact absurd (all l List.mem_cons_self) h

theorem upto_append_after (S : α → Bool) (ls : List α) :
    upto S ls ++ after S ls = ls := List.take_append_drop _ _

theorem separated_cons : Separated P S (l :: ls) ↔
    (P l = true → ∀ x ∈ upto S ls, P x = false) ∧ Separated P S ls := by
  constructor
  · intro sep
    refine ⟨fun hl x hx => ?_, fun pre b mid b' post whole => sep (l :: pre) b mid b' post (by rw [whole]; rfl)⟩
    obtain ⟨mid, post, rfl, all⟩ := mem_upto_iff.mp hx
    by_contra hx
    obtain ⟨y, hy, no⟩ := sep [] l mid x post rfl hl (Bool.of_not_eq_false hx)
    rw [all y hy] at no
    cases no
  · rintro ⟨first, sep⟩ pre b mid b' post whole hb hb'
    rcases List.cons_eq_append_iff.mp whole with ⟨rfl, whole⟩ | ⟨pre', rfl, rfl⟩
    · obtain ⟨rfl, rfl⟩ := List.cons_eq_cons.mp whole.symm
      by_contra none
      have all : ∀ y ∈ mid, S y = true := fun y hy => by
        by_contra no
        exact none ⟨y, hy, Bool.of_not_eq_true no⟩
      have bad := first hb b' (mem_upto_iff.mpr ⟨mid, post, rfl, all⟩)
      rw [hb'] at bad
      cases bad
    · exact sep pre' b mid b' post rfl hb hb'

theorem separated_skip {xs : List α} (h : ∀ x ∈ xs, P x = false) :
    Separated P S (xs ++ ls) ↔ Separated P S ls := by
  induction xs with
  | nil => rfl
  | cons x xs ih =>
    have tail := ih fun y hy => h y (List.mem_cons_of_mem _ hy)
    rw [List.cons_append, separated_cons, tail, h x List.mem_cons_self]
    exact and_iff_right nofun

end

/-! ### The messages of a text -/

def isBoLine (line : QString) : Bool := (search messagePattern line).isSome

def isSgLine (line : QString) : Bool := (search signalPattern line).isSome

theorem isBoLine_eq_false {line : QString} : isBoLine line = false ↔ search messagePattern line = none := by
  rw [isBoLine, Option.isSome_eq_false_iff, Option.isNone_iff_eq_none]

theorem isSgLine_eq_false {line : QString} : isSgLine line = false ↔ search signalPattern line = none := by
  rw [isSgLine, Option.isSome_eq_false_iff, Option.isNone_iff_eq_none]

theorem sgSignal_unmatched {qt : Qt} {line : QString} (h : isSgLine line = false) : sgSignal qt line = none := by
  rw [sgSignal, isSgLine_eq_false.mp h]
  rfl

/-- The numbers of the `BO_` and `SG_` lines convert. -/
def Converts (qt : Qt) (lines : List QString) : Prop :=
  ∀ line ∈ lines, (isBoLine line = true → (boHeader qt line).isSome = true) ∧
    (isSgLine line = true → (sgSignal qt line).isSome = true)

instance (qt : Qt) (lines : List QString) : Decidable (Converts qt lines) :=
  inferInstanceAs (Decidable (∀ line ∈ lines, _ ∧ _))

def Header.message (h : Header) (signals : List CanSignal) : CanMessage := h.apply { canSignals := signals }

def bareMessage (m : CanMessage) : CanMessage := { m with canSignals := m.canSignals.map CanSignal.bare }

/-- The signals of the maximal run of `SG_` lines at the head of `lines`. -/
def sgRun (qt : Qt) (lines : List QString) : List CanSignal := (lines.takeWhile isSgLine).filterMap (sgSignal qt)

/-- One message for each `BO_` line, with the signals of the `SG_` lines that directly follow. -/
def expected (qt : Qt) : List QString → List CanMessage
  | [] => []
  | line :: lines =>
    match boHeader qt line with
    | some h => h.message (sgRun qt lines) :: expected qt lines
    | none => expected qt lines

/-- The messages that the parser makes of lines that convert, where a block is open with the given
header and signals. -/
def assembled (qt : Qt) : Option (Header × List CanSignal) → List QString → List CanMessage
  | none, [] => []
  | none, line :: lines =>
    match boHeader qt line with
    | some h => assembled qt (some (h, [])) lines
    | none => assembled qt none lines
  | some (h, signals), [] => [h.message signals]
  | some (h, signals), line :: lines =>
    match sgSignal qt line with
    | some s => assembled qt (some (h, signals ++ [s])) lines
    | none => h.message signals :: assembled qt none lines

variable {qt : Qt} {line : QString} {lines : List QString}

theorem Converts.tail (conv : Converts qt (line :: lines)) : Converts qt lines :=
  fun l hl => conv l (List.mem_cons_of_mem _ hl)

theorem Converts.bo (conv : Converts qt (line :: lines)) : isBoLine line = (boHeader qt line).isSome := by
  have h := (conv line List.mem_cons_self).1
  cases found : search messagePattern line with
  | none => simp [isBoLine, boHeader, found]
  | some m => rw [h (by rw [isBoLine, found]; rfl), isBoLine, found]; rfl

theorem Converts.sg (conv : Converts qt (line :: lines)) : isSgLine line = (sgSignal qt line).isSome := by
  have h := (conv line List.mem_cons_self).2
  cases found : search signalPattern line with
  | none => simp [isSgLine, sgSignal, found]
  | some m => rw [h (by rw [isSgLine, found]; rfl), isSgLine, found]; rfl

theorem assembled_open (h : Header) (conv : Converts qt lines) (signals : List CanSignal) :
    assembled qt (some (h, signals)) lines =
      h.message (signals ++ sgRun qt lines) :: assembled qt none (after isSgLine lines) := by
  induction lines generalizing signals with
  | nil => rw [sgRun, after]; simp [assembled]
  | cons line lines ih =>
    have sg := conv.sg
    rw [assembled, sgRun, after, List.takeWhile_cons, sg]
    cases read : sgSignal qt line with
    | none => simp
    | some s =>
      simp only [Option.isSome_some, if_true, ih conv.tail, List.filterMap_cons, read, List.length_cons,
        List.drop_succ_cons, sgRun, after, List.append_assoc, List.singleton_append]

theorem expected_length (conv : Converts qt lines) :
    (expected qt lines).length = lines.countP isBoLine := by
  induction lines with
  | nil => rfl
  | cons line lines ih =>
    rw [expected, List.countP_cons, conv.bo, ← ih conv.tail]
    cases boHeader qt line <;> rfl

theorem expected_skip (xs lines : List QString) (conv : Converts qt (xs ++ lines))
    (h : ∀ x ∈ xs, isBoLine x = false) :
    expected qt (xs ++ lines) = expected qt lines := by
  induction xs with
  | nil => rfl
  | cons x xs ih =>
    have none : boHeader qt x = none := by
      have := conv.bo
      rw [h x List.mem_cons_self] at this
      exact Option.isNone_iff_eq_none.mp (by rw [← Option.not_isSome, ← this]; rfl)
    rw [List.cons_append, expected, none]
    exact ih conv.tail fun y hy => h y (List.mem_cons_of_mem _ hy)

theorem Converts.rest (conv : Converts qt lines) : Converts qt (after isSgLine lines) :=
  fun l hl => conv l (List.mem_of_mem_drop hl)

theorem after_length_le (lines : List QString) : (after isSgLine lines).length ≤ lines.length := by
  rw [after, List.length_drop]
  omega

theorem countP_after_le (lines : List QString) :
    (after isSgLine lines).countP isBoLine ≤ lines.countP isBoLine :=
  (List.drop_sublist _ _).countP_le

theorem assembled_length_le (n : Nat) : ∀ lines, lines.length ≤ n → Converts qt lines →
    (assembled qt none lines).length ≤ lines.countP isBoLine := by
  induction n with
  | zero =>
    intro lines short _
    rw [List.length_eq_zero_iff.mp (Nat.le_zero.mp short)]
    exact Nat.le_refl 0
  | succ n ih =>
    intro lines short conv
    cases lines with
    | nil => exact Nat.le_refl 0
    | cons line lines =>
      rw [List.length_cons] at short
      rw [assembled, List.countP_cons, conv.bo]
      cases read : boHeader qt line with
      | none => exact Nat.le_add_right_of_le (ih lines (by omega) conv.tail)
      | some h =>
        have rest := ih _ (Nat.le_trans (after_length_le lines) (by omega)) conv.tail.rest
        simp only [assembled_open h conv.tail, List.length_cons, Option.isSome_some, if_true]
        exact Nat.succ_le_succ (Nat.le_trans rest (countP_after_le lines))

theorem assembled_eq_expected_iff (n : Nat) : ∀ lines, lines.length ≤ n → Converts qt lines →
    (assembled qt none lines = expected qt lines ↔ Separated isBoLine isSgLine lines) := by
  induction n with
  | zero =>
    intro lines short _
    rw [List.length_eq_zero_iff.mp (Nat.le_zero.mp short)]
    apply iff_of_true rfl
    intro pre b mid b' post whole
    simp at whole
  | succ n ih =>
    intro lines short conv
    cases lines with
    | nil => exact ih [] (Nat.zero_le n) conv
    | cons line lines =>
      rw [List.length_cons] at short
      rw [assembled, expected, separated_cons, conv.bo]
      cases read : boHeader qt line with
      | none =>
        have rest := ih lines (by omega) conv.tail
        simpa using rest
      | some h =>
        have whole := upto_append_after isSgLine lines
        have rest := ih (after isSgLine lines) (Nat.le_trans (after_length_le lines) (by omega)) conv.tail.rest
        simp only [assembled_open h conv.tail, List.nil_append, List.cons.injEq, true_and, Option.isSome_some,
          forall_const]
        by_cases clear : ∀ x ∈ upto isSgLine lines, isBoLine x = false
        · rw [and_iff_right clear]
          have skip := expected_skip (upto isSgLine lines) (after isSgLine lines) (by rw [whole]; exact conv.tail) clear
          have sep : Separated isBoLine isSgLine lines ↔ Separated isBoLine isSgLine (after isSgLine lines) := by
            conv_lhs => rw [← whole]
            exact separated_skip clear
          rw [whole] at skip
          rw [skip, sep]
          exact rest
        · refine iff_of_false (fun same => ?_) fun both => clear both.1
          -- A `BO_` line was used up, so the messages are too few.
          have few := assembled_length_le _ _ (Nat.le_refl _) conv.tail.rest
          have many : 0 < (upto isSgLine lines).countP isBoLine := by
            push Not at clear
            obtain ⟨x, hx, bo⟩ := clear
            exact List.countP_pos_iff.mpr ⟨x, hx, by simpa using bo⟩
          have total := congrArg (List.countP isBoLine) whole
          rw [List.countP_append] at total
          rw [same, expected_length conv.tail] at few
          omega

/-! ### The parser -/

theorem bareMessage_apply (h : Header) {msg : CanMessage} (signals : msg.canSignals = [])
    (color : msg.color = ⟨0, 0, 0, 0⟩) :
    bareMessage (h.apply msg) = h.message [] := by
  rw [bareMessage, Header.apply, Header.message, Header.apply, signals, color]
  rfl

theorem bareMessage_extends {m m' : CanMessage} (h : m.Extends m') : bareMessage m' = bareMessage m := by
  rw [bareMessage, Extends.signals h, bareMessage]
  cases m'
  simp only [CanMessage.mk.injEq]
  exact ⟨h.id, h.dlc, h.name, h.sender, trivial, h.color⟩

theorem map_bareMessage {ms ms' : List CanMessage} (h : List.Forall₂ CanMessage.Extends ms ms') :
    ms'.map bareMessage = ms.map bareMessage := by
  induction h with
  | nil => rfl
  | cons head _ ih => rw [List.map_cons, List.map_cons, bareMessage_extends head, ih]

theorem run_assembled (lines : List QString) : ∀ (msg : CanMessage) (db : CanDb), Converts qt lines →
    (msg.canSignals = [] → msg.color = ⟨0, 0, 0, 0⟩ →
      (finish (lines.foldl (step qt) ⟨.idle, msg, db⟩)).db.map bareMessage =
        db.db.map bareMessage ++ assembled qt none lines) ∧
    ∀ h signals, bareMessage msg = h.message signals →
      (finish (lines.foldl (step qt) ⟨.message, msg, db⟩)).db.map bareMessage =
        db.db.map bareMessage ++ assembled qt (some (h, signals)) lines := by
  induction lines with
  | nil =>
    intro msg db _
    refine ⟨fun _ _ => (List.append_nil _).symm, fun h signals pending => ?_⟩
    rw [List.foldl_nil, finish, if_pos rfl, CanDb.addMessage, List.map_append, List.map_singleton, pending, assembled]
  | cons line lines ih =>
    intro msg db conv
    constructor
    · intro signals color
      rw [List.foldl_cons, assembled]
      cases read : boHeader qt line with
      | none =>
        obtain ⟨msg', db', stepped, same, sameColor, grown⟩ := step_skip msg db read
        rw [stepped, (ih msg' db' conv.tail).1 (same.trans signals) (sameColor.trans color), map_bareMessage grown]
      | some h =>
        rw [step_open read]
        exact (ih (h.apply msg) db conv.tail).2 h [] (bareMessage_apply h signals color)
    · intro h signals pending
      rw [List.foldl_cons, assembled]
      cases read : sgSignal qt line with
      | none =>
        have none : isSgLine line = false := by rw [conv.sg, read, Option.isSome_none]
        rw [step_close (isSgLine_eq_false.mp none), (ih {} (db.addMessage msg) conv.tail).1 rfl rfl, CanDb.addMessage, List.map_append,
          List.map_singleton, pending, List.append_assoc]
        rfl
      | some s =>
        have added : bareMessage (msg.addCanSignal s) = h.message (signals ++ [s]) := by
          have parts := CanMessage.mk.inj pending
          rw [bareMessage, CanMessage.addCanSignal, List.map_append, List.map_singleton, sgSignal_bare read,
            parts.2.2.2.2.1]
          simp only [Header.message, Header.apply, CanMessage.mk.injEq, true_and]
          exact ⟨parts.1, parts.2.1, parts.2.2.1, parts.2.2.2.1, parts.2.2.2.2.2⟩
        rw [step_add read]
        exact (ih (msg.addCanSignal s) db conv.tail).2 h (signals ++ [s]) added

/-- The parser stores one message for each `BO_` line, with the `SG_` lines that directly follow it,
exactly when no `BO_` line comes behind another one and a run of `SG_` lines. -/
theorem parseStream_messages_iff (qt : Qt) (text : QString) (conv : Converts qt (readLines text)) :
    (parseStream qt text {}).db.map bareMessage = expected qt (readLines text) ↔
      Separated isBoLine isSgLine (readLines text) := by
  rw [parseStream, parseLines, (run_assembled (readLines text) {} {} conv).1 rfl rfl]
  exact assembled_eq_expected_iff _ _ (Nat.le_refl _) conv

def separatedText : QString :=
  "BO_ 1 A: 8 X\n SG_ a : 0|8@1+ (1,0) [0|255] \"\" Y\n\nBO_ 2 B: 8 X\n".toList

theorem parseStream_messages_separated :
    (parseStream plainBuild separatedText {}).db.map bareMessage = expected plainBuild (readLines separatedText) ↔
      Separated isBoLine isSgLine (readLines separatedText) :=
  parseStream_messages_iff plainBuild separatedText (by decide +kernel)

/-- Without the empty line the second `BO_` line only closes the first block. -/
def adjacentText : QString := "BO_ 1 A: 8 X\nBO_ 2 B: 8 X\n".toList

theorem parseStream_messages_adjacent :
    ¬ ∀ (qt : Qt) (text : QString), Converts qt (readLines text) →
      (parseStream qt text {}).db.map bareMessage = expected qt (readLines text) := by
  intro h
  have conv : Converts plainBuild (readLines adjacentText) := by decide +kernel
  have lost : (parseStream plainBuild adjacentText {}).db.map bareMessage ≠
      expected plainBuild (readLines adjacentText) := by
    decide +kernel
  exact lost (h plainBuild adjacentText conv)

end CanTracer.Dbc
