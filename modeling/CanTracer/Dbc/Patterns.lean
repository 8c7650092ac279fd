import CanTracer.Regex.Pieces
import CanTracer.Dbc.Frame
import CanTracer.Dbc.Render

/-!
# The patterns on documented lines

What each pattern captures on a line that `Render` writes: the field between its neighbours, for
every text that can stand in it.
-/

namespace CanTracer.Dbc

open Regex

variable {qt : Qt} {display : ℚ → QString} {s : CanSignal} {m : CanMessage} {u t : QString} {p : Char → Bool}

/-! ### Characters -/

theorem isWord_of_isDigit {c : Char} (h : isDigit c = true) : isWord c = true := by
  rw [isWord, h]
  rfl

theorem isSpace_of_isWord {c : Char} (h : isWord c = true) : isSpace c = false := by
  rw [Bool.eq_false_iff]
  intro space
  simp only [isWord, isDigit, isSpace, Bool.or_eq_true, Bool.and_eq_true, decide_eq_true_iff, beq_iff_eq,
    UInt32.le_iff_toNat_le] at h space
  rcases space with rfl | ⟨-, upper⟩
  · exact absurd h (by decide)
  · have r : '\r'.val.toNat = 13 := rfl
    rcases h with ((⟨lower, -⟩ | ⟨lower, -⟩) | ⟨lower, -⟩) | rfl
    · have zero : '0'.val.toNat = 48 := rfl
      omega
    · have a : 'a'.val.toNat = 97 := rfl
      omega
    · have a : 'A'.val.toNat = 65 := rfl
      omega
    · exact absurd upper (by decide)

theorem not_mem_of_class {c : Char} (h : ∀ d ∈ u, p d = true) (hc : p c = false) : c ∉ u := by
  intro inside
  rw [h c inside] at hc
  cases hc

theorem not_mem_showNat {c : Char} (h : isDigit c = false) (n : Nat) :
    c ∉ showNat n := not_mem_of_class (fun _ => showNat_isDigit) h

theorem Word.not_mem {c : Char} (h : Word u) (hc : isWord c = false) : c ∉ u := not_mem_of_class h.chars hc

theorem Exact.not_mem {c : Char} {q : ℚ} (h : Exact qt display p q) (hc : p c = false) :
    c ∉ display q := not_mem_of_class h.chars hc

theorem isDot_of_not_mem (h : '\n' ∉ u) : ∀ c ∈ u, isDot c = true := by
  intro c hc
  rw [isDot, bne_iff_ne]
  rintro rfl
  exact h hc

theorem head_isWord (pos : u ≠ []) (h : ∀ c ∈ u, isWord c = true) :
    ∀ c ∈ (u ++ t).head?, isSpace c = false := by
  intro c hc
  rw [List.head?_append_of_ne_nil _ pos] at hc
  exact isSpace_of_isWord (h c (List.mem_of_mem_head? hc))

theorem head_showNat (n : Nat) : ∀ c ∈ (showNat n ++ t).head?, isSpace c = false :=
  head_isWord (showNat_ne_nil n) fun _ hc => isWord_of_isDigit (showNat_isDigit hc)

/-! ### Pieces of a line -/

theorem first_space (h : ∀ c ∈ t.head?, isSpace c = false) : First spaces ([' '] ++ t) ⟨[' '], t, []⟩ :=
  first_plus_cls [' '] (List.cons_ne_nil _ _) (by simp [isSpace]) h

theorem first_showNat (n k : Nat) (h : ∀ c ∈ t.head?, isDigit c = false) :
    First (.group k digits) (showNat n ++ t) ⟨showNat n, t, [(k, showNat n)]⟩ :=
  first_capture k (showNat_ne_nil n) (fun _ => showNat_isDigit) h

theorem first_word (h : Word u) (k : Nat) (next : ∀ c ∈ t.head?, isWord c = false) :
    First (.group k words) (u ++ t) ⟨u, t, [(k, u)]⟩ :=
  first_capture k h.nonempty h.chars next

theorem first_messagePattern (name : Word m.name) (sender : Word m.sender) :
    First messagePattern (boLine m) ⟨boLine m, [],
      [(1, showNat m.id.toNat), (2, m.name), (3, showNat m.dlc.toNat), (4, m.sender)]⟩ := by
  unfold messagePattern boLine
  simp only [List.flatten_cons, List.flatten_nil]
  apply first_cat (first_lit _ _)
  apply first_cat (first_space (head_showNat _))
  apply first_cat (first_showNat _ 1 (by simp [isDigit]))
  apply first_cat (first_space (head_isWord name.nonempty name.chars))
  apply first_cat (first_word name 2 (by simp [isWord, isDigit]))
  apply first_cat (first_char ':' _)
  apply first_cat (first_space (head_showNat _))
  apply first_cat (first_showNat _ 3 (by simp [isDigit]))
  apply first_cat (first_char ' ' _)
  apply first_cat (first_word sender 4 (by simp))
  exact first_nil []

/-! ### The line of a signal -/

abbrev beforeUnit : List Re :=
  [.group 2 digits, .char '|', .group 3 digits, .char '@', .group 4 (.alt (.char '0') (.char '1')),
    .group 5 (.alt (.char '+') (.char '-')), .lit " (".toList, .group 6 (.plus (.cls isDecimal)), .char ',',
    .group 7 (.plus (.cls isSignedDecimal)), .lit ") [".toList, .group 8 (.plus (.cls isSignedDecimal)), .char '|',
    .group 9 (.plus (.cls isSignedDecimal)), .lit "] \"".toList]

abbrev afterUnit : List Re := [.char '"', spaces, .group 11 (.star true (.cls isWord))]

theorem two_quotes (h : u ∈ (Re.cat (beforeUnit ++ .group 10 (.star true (.cls isDot)) :: afterUnit)).language) :
    2 ≤ u.count '"' := by
  obtain ⟨a, b, rfl, ha, hb⟩ := mem_cat_append h
  have first : '"' ∈ a := mem_of_mem_lit (w := "] \"".toList) ha (by simp) (by decide)
  have second : '"' ∈ b := mem_of_mem_char hb (by simp)
  rw [List.count_append]
  have pos := List.count_pos_iff.mpr first
  have pos' := List.count_pos_iff.mpr second
  omega

theorem first_endian (big : Bool) (t : QString) :
    First (.group 4 (.alt (.char '0') (.char '1'))) ([if big then '0' else '1'] ++ t)
      ⟨[if big then '0' else '1'], t, [(4, [if big then '0' else '1'])]⟩ := by
  cases big
  · exact first_group (first_altRight (run_char_ne (by decide)) (first_char '1' t))
  · exact first_group (first_altLeft (first_char '0' t))

theorem first_sign (signed : Bool) (t : QString) :
    First (.group 5 (.alt (.char '+') (.char '-'))) ([if signed then '-' else '+'] ++ t)
      ⟨[if signed then '-' else '+'], t, [(5, [if signed then '-' else '+'])]⟩ := by
  cases signed
  · exact first_group (first_altLeft (first_char '+' t))
  · exact first_group (first_altRight (run_char_ne (by decide)) (first_char '-' t))

theorem first_exact {q : ℚ} (h : Exact qt display p q) (k : Nat) (next : ∀ c ∈ t.head?, p c = false) :
    First (.group k (.plus (.cls p))) (display q ++ t) ⟨display q, t, [(k, display q)]⟩ :=
  first_capture k h.nonempty h.chars next

/-- The name cannot reach further: behind a later colon there is one quote only. -/
theorem name_reaches {front back v w : QString} (noColon : ':' ∉ front) (one : back.count '"' = 1)
    (pos : v ≠ []) (whole : " : ".toList ++ (front ++ back) = v ++ w) :
    run (.cat (.lit " : ".toList :: (beforeUnit ++ .group 10 (.star true (.cls isDot)) :: afterUnit))) w = [] := by
  rw [run_eq_nil_iff]
  rintro u y rfl hu
  obtain ⟨a, b, rfl, ha, hb⟩ := mem_cat_cons hu
  obtain rfl := mem_lit ha
  have separator : " : ".toList = [' ', ':', ' '] := rfl
  rw [separator] at whole
  obtain ⟨d, v, rfl⟩ := List.exists_cons_of_ne_nil pos
  obtain ⟨-, whole⟩ := List.cons.inj whole
  cases v with
  | nil => cases (List.cons.inj whole).1
  | cons e v =>
    obtain ⟨-, whole⟩ := List.cons.inj whole
    have later : (' ' :: front) ++ back = (v ++ [' ']) ++ ':' :: (' ' :: (b ++ y)) := by
      rw [List.append_assoc]
      exact whole
    have inside : ':' ∉ ' ' :: front := by simpa using noColon
    have few := (suffix_of_cons later inside).sublist.count_le '"'
    have many := two_quotes hb
    simp only [List.count_cons, List.count_append] at few
    omega

theorem unit_reaches {v w : QString} (receiver : '"' ∉ u) (pos : v ≠ [])
    (whole : '"' :: ' ' :: u = v ++ w) :
    run (.cat afterUnit) w = [] := by
  apply run_char_not_mem
  intro inside
  obtain ⟨d, v, rfl⟩ := List.exists_cons_of_ne_nil pos
  obtain ⟨-, whole⟩ := List.cons.inj whole
  have among : '"' ∈ ' ' :: u := whole ▸ List.mem_append_right _ inside
  simp [receiver] at among

def sgCaptures (display : ℚ → QString) (s : CanSignal) : List (Nat × QString) :=
  [(1, s.name), (2, showNat s.startBit.toNat), (3, showNat s.len.toNat), (4, [if s.isBigEndian then '0' else '1']),
    (5, [if s.isSigned then '-' else '+']), (6, display s.scale), (7, display s.offset), (8, display s.min),
    (9, display s.max), (10, s.unit), (11, s.receiver)]

theorem first_afterUnit (h : Word u) :
    First (.cat afterUnit) (['"'] ++ ([' '] ++ (u ++ []))) ⟨['"'] ++ ([' '] ++ (u ++ [])), [], [(11, u)]⟩ := by
  apply first_cat (first_char '"' _)
  apply first_cat (first_space (head_isWord h.nonempty h.chars))
  have word : First (.group 11 (.star true (.cls isWord))) (u ++ []) ⟨u, [], [(11, u)]⟩ :=
    first_group (first_star_cls u h.chars (by simp))
  exact first_cat word (first_nil [])

def beforeUnitText (display : ℚ → QString) (s : CanSignal) : QString :=
  [showNat s.startBit.toNat, ['|'], showNat s.len.toNat, ['@'], [if s.isBigEndian then '0' else '1'],
    [if s.isSigned then '-' else '+'], " (".toList, display s.scale, [','], display s.offset, ") [".toList,
    display s.min, ['|'], display s.max, "] \"".toList].flatten

theorem noColon_beforeUnit (h : PrintableSignal qt display s) : ':' ∉ beforeUnitText display s := by
  have number := not_mem_showNat (c := ':') (by decide)
  have signed {q : ℚ} (e : Exact qt display isSignedDecimal q) : ':' ∉ display q := e.not_mem (by decide)
  have scale : ':' ∉ display s.scale := h.scale.not_mem (by decide)
  have big : ':' ≠ (if s.isBigEndian then '0' else '1') := by cases s.isBigEndian <;> decide
  have sign : ':' ≠ (if s.isSigned then '-' else '+') := by cases s.isSigned <;> decide
  simp [beforeUnitText, number, scale, signed h.offset, signed h.min, signed h.max, big, sign]

theorem first_signalPattern (h : PrintableSignal qt display s) :
    First signalPattern (sgText display s) ⟨sgText display s, [], sgCaptures display s⟩ := by
  have receiver : '"' ∉ s.receiver := h.receiver.not_mem (by decide)
  have unit : '"' ∉ s.unit := fun inside => (h.unit _ inside).1 rfl
  have one : (s.unit ++ (['"'] ++ ([' '] ++ (s.receiver ++ [])))).count '"' = 1 := by
    simp [List.count_eq_zero.mpr receiver, List.count_eq_zero.mpr unit]
  have dotName : ∀ c ∈ s.name, isDot c = true := isDot_of_not_mem (h.name.not_mem (by decide))
  have dotUnit : ∀ c ∈ s.unit, isDot c = true := isDot_of_not_mem fun inside => (h.unit _ inside).2 rfl
  unfold sgText
  simp only [List.flatten_cons, List.flatten_nil]
  apply first_cat (first_lit _ _)
  refine first_greedy 1 h.name.nonempty dotName (fun x y pos whole => ?_) ?_
  · apply name_reaches (noColon_beforeUnit h) one pos
    rw [← whole, beforeUnitText]
    simp only [List.flatten_cons, List.flatten_nil, List.append_assoc, List.nil_append]
  apply first_cat (first_lit _ _)
  apply first_cat (first_showNat _ 2 (by simp [isDigit]))
  apply first_cat (first_char '|' _)
  apply first_cat (first_showNat _ 3 (by simp [isDigit]))
  apply first_cat (first_char '@' _)
  apply first_cat (first_endian s.isBigEndian _)
  apply first_cat (first_sign s.isSigned _)
  apply first_cat (first_lit _ _)
  apply first_cat (first_exact h.scale 6 (by simp [isDecimal, isDigit]))
  apply first_cat (first_char ',' _)
  apply first_cat (first_exact h.offset 7 (by simp [isSignedDecimal, isDecimal, isDigit]))
  apply first_cat (first_lit _ _)
  apply first_cat (first_exact h.min 8 (by simp [isSignedDecimal, isDecimal, isDigit]))
  apply first_cat (first_char '|' _)
  apply first_cat (first_exact h.max 9 (by simp [isSignedDecimal, isDecimal, isDigit]))
  apply first_cat (first_lit _ _)
  refine first_greedyStar 10 dotUnit (fun x y pos whole => unit_reaches receiver pos ?_) (first_afterUnit h.receiver)
  · simpa using whole

/-! ### What the lines say -/

theorem removeExtMask_of_le {id : UInt32} (h : id ≤ 0x1FFFFFFF) : removeExtMask id.toNat = id := by
  have le : id.toNat ≤ 0x1FFFFFFF := UInt32.le_iff_toNat_le.mp h
  apply UInt32.toNat_inj.mp
  rw [removeExtMask_toNat, Nat.mod_eq_of_lt (by omega)]

theorem toULong_showNat (qt : Qt) (id : UInt32) : toULong qt (showNat id.toNat) 10 = some id.toNat := by
  apply toUnsigned_showNat
  have width : 2 ^ 32 ≤ 2 ^ qt.ulongBits := Nat.pow_le_pow_right (by decide) qt.ulongBits_ge
  have lt := id.toNat_lt
  omega

theorem boHeader_boLine (h : PrintableMessage qt display m) :
    boHeader qt (boLine m) = some (headerOf m) := by
  have found := search_of_first (first_messagePattern h.name h.sender)
  have dlc : toShort (showNat m.dlc.toNat) = some m.dlc.toNat := toUnsigned_showNat (by have := m.dlc.toNat_lt; omega)
  simp [boHeader, found, Match.captured, List.lookup_cons, toULong_showNat, dlc, removeExtMask_of_le h.id, headerOf]

theorem sgSignal_sgLine (h : PrintableSignal qt display s) (indent : Nat) :
    sgSignal qt (sgLine display indent s) = some s.bare := by
  have skip : search signalPattern (sgLine display indent s) = search signalPattern (sgText display s) := by
    apply search_skip
    intro c hc t
    obtain rfl := List.eq_of_mem_replicate hc
    exact run_cat_nil (run_lit_ne (by decide))
  have found := search_of_first (first_signalPattern h)
  have startBit : toUInt (showNat s.startBit.toNat) 10 = some s.startBit.toNat :=
    toUnsigned_showNat (by have := s.startBit.toNat_lt; omega)
  have len : toUInt (showNat s.len.toNat) 10 = some s.len.toNat := toUnsigned_showNat (by have := s.len.toNat_lt; omega)
  have endian : toUInt [if s.isBigEndian then '0' else '1'] 10 = some (if s.isBigEndian then 0 else 1) := by
    cases s.isBigEndian <;> decide
  simp [sgSignal, skip, found, readSignal, sgCaptures, Match.captured, List.lookup_cons, startBit, len, endian,
    h.scale.reads, h.offset.reads,
    h.min.reads, h.max.reads, CanSignal.bare]
  constructor
  · cases s.isBigEndian <;> rfl
  · cases s.isSigned <;> rfl

/-! ### The line of a value table -/

/-- A part of the line that holds a colon and no quote lies in one of the texts. -/
theorem infix_text {front : QString} {values : List (ℚ × QString)}
    (h : u <:+: front ++ (values.flatMap pairText ++ t))
    (colon : ':' ∈ u) (quote : '"' ∉ u) (hf : ':' ∉ front) (ht : ':' ∉ t) : ∃ v ∈ values, u <:+: v.2 := by
  induction values generalizing front with
  | nil =>
    have among := h.subset colon
    simp [hf, ht] at among
  | cons v values ih =>
    have key : ':' ∉ showKey v.1 := not_mem_showNat (by decide) _
    have whole : front ++ ((v :: values).flatMap pairText ++ t) =
        (front ++ ' ' :: (showKey v.1 ++ [' '])) ++ '"' :: (v.2 ++ '"' :: ([] ++ (values.flatMap pairText ++ t))) := by
      simp [pairText]
    rw [whole] at h
    rcases infix_split h quote with before | behind
    · have among := before.subset colon
      simp [hf, key] at among
    · rcases infix_split behind quote with text | later
      · exact ⟨v, List.mem_cons_self, text⟩
      · obtain ⟨w, hw, inside⟩ := ih later List.not_mem_nil
        exact ⟨w, List.mem_cons_of_mem _ hw, inside⟩

theorem class_ne {c : Char} (h : p c = false) : ∀ d, p d = true → ¬d = c := by
  rintro d hd rfl
  rw [h] at hd
  cases hd

theorem messagePattern_noQuote : messagePattern.Within (· ≠ '"') := by
  have space : ∀ c, isSpace c = true → ¬c = '"' := class_ne (by decide)
  have digit : ∀ c, isDigit c = true → ¬c = '"' := class_ne (by decide)
  have word : ∀ c, isWord c = true → ¬c = '"' := class_ne (by decide)
  simp [messagePattern, Re.cat, Re.lit, Re.plus, Re.char, Re.Within]
  exact ⟨space, digit, space, word, space, digit, word⟩

theorem search_message_valLine (id : UInt32) (name : Word s.name)
    (values : ∀ v ∈ s.values, search messagePattern v.2 = none) :
    search messagePattern (valLine id s) = none := by
  apply search_eq_none
  intro u inside hu
  have colon : ':' ∈ u := mem_of_mem_char hu (by simp)
  have quote : '"' ∉ u := fun quote => language_within messagePattern messagePattern_noQuote u hu _ quote rfl
  have number : ':' ∉ showNat id.toNat := not_mem_showNat (by decide) _
  have word : ':' ∉ s.name := name.not_mem (by decide)
  have whole : valLine id s =
      ["VAL_".toList, [' '], showNat id.toNat, [' '], s.name].flatten ++ (s.values.flatMap pairText ++ " ;".toList) := by
    simp [valLine]
  rw [whole] at inside
  obtain ⟨v, hv, text⟩ := infix_text inside colon quote (by simp [number, word]) (by decide)
  exact search_none_iff.mp (values v hv) u text hu

end CanTracer.Dbc
