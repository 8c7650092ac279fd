import CanTracer.Dbc.Patterns

/-!
# Lines of value tables

The `VAL_` lines of the grammar, with white space of any kind between the parts and keys of either
sign, and what the patterns make of them. When no key is below zero and at most one white space
stands in front of the semicolon, every pair is read.
-/

namespace CanTracer.Dbc

open Regex

/-! ### The grammar -/

structure White (s : QString) : Prop where
  nonempty : s ≠ []
  chars : ∀ c ∈ s, isSpace c = true

def showInt : Int → QString
  | .ofNat n => showNat n
  | .negSucc n => '-' :: showNat (n + 1)

/-- `<key> "<text>"` behind white space. -/
structure Entry where
  gap : QString
  key : Int
  space : QString
  text : QString
  gap_white : White gap
  space_white : White space
  quotable : Quotable text

def Entry.written (e : Entry) : QString := [e.gap, showInt e.key, e.space, ['"'], e.text, ['"']].flatten

/-- `VAL_ <id> <name> <key> "<text>" ... ;` between white space -/
structure ValueLine where
  indent : QString
  gap : QString
  id : UInt32
  space : QString
  name : QString
  entries : List Entry
  last : QString
  trail : QString
  indent_white : ∀ c ∈ indent, isSpace c = true
  gap_white : White gap
  space_white : White space
  word : Word name
  nonempty : entries ≠ []
  last_white : ∀ c ∈ last, isSpace c = true
  trail_white : ∀ c ∈ trail, isSpace c = true

def ValueLine.statement (l : ValueLine) : QString :=
  ["VAL_".toList, l.gap, showNat l.id.toNat, l.space, l.name, l.entries.flatMap Entry.written, l.last, [';']].flatten

def ValueLine.written (l : ValueLine) : QString := l.indent ++ (l.statement ++ l.trail)

/-- No key is below zero, and the semicolon is where the pattern looks for it. -/
structure ValueLine.Plain (l : ValueLine) : Prop where
  natural : ∀ e ∈ l.entries, 0 ≤ e.key
  last : l.last.length ≤ 1

variable {qt : Qt} {u t : QString} {e : Entry} {es : List Entry} {l : ValueLine}

/-! ### Pieces of a line -/

theorem white_space : White [' '] := ⟨List.cons_ne_nil _ _, by decide⟩

theorem isWord_of_isSpace {c : Char} (h : isSpace c = true) : isWord c = false := by
  rw [Bool.eq_false_iff]
  intro word
  rw [isSpace_of_isWord word] at h
  cases h

theorem White.head (h : White u) : ∀ c ∈ (u ++ t).head?, isWord c = false := by
  intro c hc
  rw [List.head?_append_of_ne_nil _ h.nonempty] at hc
  exact isWord_of_isSpace (h.chars c (List.mem_of_mem_head? hc))

theorem isDigit_of_not_isWord {c : Char} (h : isWord c = false) : isDigit c = false := by
  rw [Bool.eq_false_iff]
  intro digit
  rw [isWord_of_isDigit digit] at h
  cases h

theorem first_white (h : White u) (next : ∀ c ∈ t.head?, isSpace c = false) : First spaces (u ++ t) ⟨u, t, []⟩ :=
  first_plus_cls u h.nonempty h.chars next

theorem showInt_natural {k : Int} (h : 0 ≤ k) : showInt k = showNat k.toNat := by
  obtain ⟨n, rfl⟩ := Int.eq_ofNat_of_zero_le h
  rfl

theorem Entry.written_ne_nil (e : Entry) : e.written ≠ [] := by
  rw [written, List.flatten_cons]
  exact List.append_ne_nil_of_left_ne_nil e.gap_white.nonempty _

theorem first_entry {number text : Re} {caps caps' : List (Nat × QString)} (natural : 0 ≤ e.key)
    (key : ∀ t : QString, (∀ c ∈ t.head?, isDigit c = false) →
      First number (showNat e.key.toNat ++ t) ⟨showNat e.key.toNat, t, caps⟩)
    (quoted : First (.cat [text, .char '"']) (e.text ++ (['"'] ++ t)) ⟨e.text ++ ['"'], t, caps'⟩) :
    First (.cat [spaces, number, spaces, .char '"', text, .char '"']) (e.written ++ t) ⟨e.written, t, caps ++ caps'⟩ := by
  have behind (t : QString) : ∀ c ∈ (e.space ++ t).head?, isDigit c = false :=
    fun c hc => isDigit_of_not_isWord (e.space_white.head c hc)
  have pieces := first_cat (first_white e.gap_white (head_showNat _)) (first_cat (key _ (behind _))
    (first_cat (first_white e.space_white (by simp [isSpace])) (first_cat (first_char '"' _) quoted)))
  simpa [Entry.written, showInt_natural natural] using pieces

theorem lazy_stops (h : Quotable u) (t : QString) :
    ∃ before, Tries (.star false (.cls isDot)) (u ++ (['"'] ++ t)) before ⟨u, ['"'] ++ t, []⟩ ∧
      ∀ x ∈ before, run (.cat [.char '"']) x.rest = [] :=
  tries_lazy_fail (isDot_of_not_mem fun inside => (h _ inside).2 rfl) fun _ hc _ => run_cat_nil (run_char_ne (h _ hc).1)

theorem first_pairPattern (natural : 0 ≤ e.key) (t : QString) :
    First pairPattern (e.written ++ t) ⟨e.written, t, []⟩ := by
  obtain ⟨before, tried, fail⟩ := lazy_stops e.quotable t
  have quoted := tries_cat tried fail (first_cat (first_char '"' t) (first_nil t))
  have key (t : QString) (next : ∀ c ∈ t.head?, isDigit c = false) :
      First digits (showNat e.key.toNat ++ t) ⟨showNat e.key.toNat, t, []⟩ :=
    first_plus_cls _ (showNat_ne_nil _) (fun _ => showNat_isDigit) next
  exact first_entry natural key quoted

theorem first_valueDecodePattern (natural : 0 ≤ e.key) (t : QString) :
    First valueDecodePattern (e.written ++ t) ⟨e.written, t, [(1, showInt e.key), (2, e.text)]⟩ := by
  obtain ⟨before, tried, fail⟩ := lazy_stops e.quotable t
  rw [showInt_natural natural]
  exact first_entry natural (fun t next => first_showNat _ 1 next)
    (first_tried 2 tried fail (first_cat (first_char '"' t) (first_nil t)))

theorem first_entries (natural : ∀ e ∈ es, 0 ≤ e.key) (stop : run pairPattern t = []) :
    First (.star true pairPattern) (es.flatMap Entry.written ++ t) ⟨es.flatMap Entry.written, t, []⟩ := by
  induction es with
  | nil => exact first_star_stop stop
  | cons e es ih =>
    obtain ⟨one, others⟩ := List.forall_mem_cons.mp natural
    rw [List.flatMap_cons, List.append_assoc]
    exact first_star_more (first_pairPattern one (es.flatMap Entry.written ++ t)) e.written_ne_nil (ih others)

/-! ### The whole line -/

theorem run_pairPattern_end (none : '"' ∉ t) : run pairPattern t = [] := by
  rw [run_eq_nil_iff]
  rintro a b rfl ha
  exact none (List.mem_append_left b (mem_of_mem_char ha (by simp)))

theorem ValueLine.end_no_quote (l : ValueLine) : '"' ∉ l.last ++ ([';'] ++ l.trail) := by
  have last : '"' ∉ l.last := not_mem_of_class l.last_white (by decide)
  have trail : '"' ∉ l.trail := not_mem_of_class l.trail_white (by decide)
  simp [last, trail]

theorem first_end (white : ∀ c ∈ u, isSpace c = true) (short : u.length ≤ 1) (t : QString) :
    First (.opt (.cls isSpace)) (u ++ ([';'] ++ t)) ⟨u, [';'] ++ t, []⟩ := by
  cases u with
  | nil => exact first_altRight rfl (first_eps _)
  | cons c u =>
    rw [List.length_cons] at short
    obtain rfl := List.length_eq_zero_iff.mp (show u.length = 0 by omega)
    exact first_altLeft (first_cls (white c List.mem_cons_self))

theorem first_valuePattern (plain : l.Plain) :
    First valuePattern (l.statement ++ l.trail)
      ⟨l.statement, l.trail, [(1, showNat l.id.toNat), (2, l.name), (3, l.entries.flatMap Entry.written)]⟩ := by
  obtain ⟨e, rest, split⟩ := List.exists_cons_of_ne_nil l.nonempty
  have next (t : QString) : ∀ c ∈ (l.entries.flatMap Entry.written ++ t).head?, isWord c = false := by
    have whole : l.entries.flatMap Entry.written ++ t =
        e.gap ++ ([showInt e.key, e.space, ['"'], e.text, ['"']].flatten ++ (rest.flatMap Entry.written ++ t)) := by
      simp [split, Entry.written]
    rw [whole]
    exact e.gap_white.head
  have table : First (.group 3 (.plus pairPattern)) (l.entries.flatMap Entry.written ++ (l.last ++ ([';'] ++ l.trail)))
      ⟨l.entries.flatMap Entry.written, l.last ++ ([';'] ++ l.trail), [(3, l.entries.flatMap Entry.written)]⟩ := by
    have natural := plain.natural
    rw [split] at natural ⊢
    obtain ⟨one, others⟩ := List.forall_mem_cons.mp natural
    rw [List.flatMap_cons, List.append_assoc]
    have rounds : First (.plus pairPattern) _ _ :=
      first_seq (first_pairPattern one _) (first_entries others (run_pairPattern_end l.end_no_quote))
    exact first_group rounds
  have behind (t : QString) : ∀ c ∈ (l.space ++ t).head?, isDigit c = false :=
    fun c hc => isDigit_of_not_isWord (l.space_white.head c hc)
  have pieces : l.statement ++ l.trail = "VAL_".toList ++ (l.gap ++ (showNat l.id.toNat ++ (l.space ++ (l.name ++
      (l.entries.flatMap Entry.written ++ (l.last ++ ([';'] ++ l.trail))))))) := by
    simp [ValueLine.statement]
  rw [pieces]
  unfold valuePattern ValueLine.statement
  simp only [List.flatten_cons, List.flatten_nil]
  apply first_cat (first_lit _ _)
  apply first_cat (first_white l.gap_white (head_showNat _))
  apply first_cat (first_showNat _ 1 (behind _))
  apply first_cat (first_white l.space_white (head_isWord l.word.nonempty l.word.chars))
  apply first_cat (first_word l.word 2 (next _))
  apply first_cat table
  exact first_cat (first_end l.last_white plain.last l.trail) (first_cat (first_char ';' _) (first_nil l.trail))

theorem search_valuePattern (plain : l.Plain) :
    search valuePattern l.written = some ⟨l.statement, l.trail,
      [(1, showNat l.id.toNat), (2, l.name), (3, l.entries.flatMap Entry.written)]⟩ := by
  rw [ValueLine.written, search_skip, search_of_first (first_valuePattern plain)]
  intro c hc s
  have blank := l.indent_white c hc
  apply run_cat_nil (run_lit_ne _)
  rintro rfl
  exact absurd blank (by decide)

/-- `toDouble` reads the keys as the numbers of `double`. -/
def Reads (qt : Qt) (double : Int → ℚ) (es : List Entry) : Prop :=
  ∀ e ∈ es, qt.toDouble (showInt e.key) = some (double e.key)

def pairs (double : Int → ℚ) (es : List Entry) : List (ℚ × QString) := es.map fun e => (double e.key, e.text)

theorem readPairs_entries {double : Int → ℚ} (natural : ∀ e ∈ es, 0 ≤ e.key) (reads : Reads qt double es) :
    readPairs qt (es.flatMap Entry.written) = pairs double es := by
  have all (n : Nat) (enough : es.length ≤ n) :
      (searchAll valueDecodePattern n (es.flatMap Entry.written)).filterMap (fun m =>
        (qt.toDouble (m.captured 1)).map fun key => (key, m.captured 2)) = pairs double es := by
    induction es generalizing n with
    | nil => cases n <;> rfl
    | cons e es ih =>
      obtain ⟨n, rfl⟩ : ∃ k, n = k + 1 := ⟨n - 1, by simp only [List.length_cons] at enough; omega⟩
      obtain ⟨one, others⟩ := List.forall_mem_cons.mp natural
      obtain ⟨read, readOthers⟩ := List.forall_mem_cons.mp reads
      have found := search_of_first (first_valueDecodePattern one (es.flatMap Entry.written))
      have later := ih others readOthers n (by simp only [List.length_cons] at enough; omega)
      have key : (⟨e.written, es.flatMap Entry.written, [(1, showInt e.key), (2, e.text)]⟩ : Match).captured 1 =
          showInt e.key := rfl
      rw [List.flatMap_cons, searchAll, found]
      simp only [List.filterMap_cons, key, read, Option.map_some, later]
      rfl
  apply all
  clear natural reads all
  induction es with
  | nil => exact Nat.zero_le _
  | cons e es ih =>
    have pos := List.length_pos_iff.mpr e.written_ne_nil
    rw [List.flatMap_cons, List.length_append, List.length_cons]
    omega

theorem step_valueLine {double : Int → ℚ} (plain : l.Plain) (reads : Reads qt double l.entries)
    (noMessage : search messagePattern l.written = none) (msg : CanMessage) (db : CanDb) :
    step qt ⟨.idle, msg, db⟩ l.written =
      ⟨.idle, msg, db.modifyMessage (removeExtMask l.id.toNat) (withTable l.name (pairs double l.entries))⟩ := by
  have found := search_valuePattern plain
  simp only [step, noMessage, found]
  simp [readValues, Match.captured, List.lookup_cons, toULong_showNat, readPairs_entries plain.natural reads]
  rfl

/-! ### What a match can read -/

/-- Digits are never read as a number below zero. -/
def DigitsNatural (qt : Qt) : Prop := ∀ s q, (∀ c ∈ s, isDigit c = true) → qt.toDouble s = some q → 0 ≤ q

theorem readPairs_natural (digits : DigitsNatural qt) (text : QString) : ∀ v ∈ readPairs qt text, 0 ≤ v.1 := by
  intro v hv
  obtain ⟨m, hm, read⟩ := List.mem_filterMap.mp hv
  obtain ⟨text, found⟩ := mem_searchAll hm
  obtain ⟨key, hkey, rfl⟩ := Option.map_eq_some_iff.mp read
  have within : valueDecodePattern.GroupWithin 1 (isDigit · = true) := by
    simp [valueDecodePattern, Re.cat, Re.plus, Re.char, Re.GroupWithin, Re.Within]
  exact digits _ key (captured_within found within) hkey

theorem decode_quotes (h : u ∈ valueDecodePattern.language) : 2 ≤ u.count '"' := by
  have pieces : u ∈ (Re.cat ([spaces, .group 1 digits, spaces, .char '"'] ++
      [.group 2 (.star false (.cls isDot)), .char '"'])).language := h
  obtain ⟨a, b, rfl, ha, hb⟩ := mem_cat_append pieces
  have first := List.count_pos_iff.mpr (mem_of_mem_char (c := '"') ha (by simp))
  have second := List.count_pos_iff.mpr (mem_of_mem_char (c := '"') hb (by simp))
  rw [List.count_append]
  omega

/-- Each pair that is read takes two quotes. -/
theorem readPairs_quotes (qt : Qt) (text : QString) : 2 * (readPairs qt text).length ≤ text.count '"' := by
  have all : ∀ n text, 2 * (searchAll valueDecodePattern n text).length ≤ text.count '"' := by
    intro n
    induction n with
    | zero => intro text; exact Nat.zero_le _
    | succ n ih =>
      intro text
      rw [searchAll]
      cases found : search valueDecodePattern text with
      | none => exact Nat.zero_le _
      | some m =>
        obtain ⟨skipped, rfl, member⟩ := search_some found
        have quotes := decode_quotes (run_sound _ _ m member)
        have later := ih m.rest
        simp only [List.length_cons, List.count_append]
        omega
  have kept : (readPairs qt text).length ≤ (searchAll valueDecodePattern text.length text).length :=
    List.length_filterMap_le _ _
  have total := all text.length text
  omega

theorem White.no_quote (h : White u) : '"' ∉ u := not_mem_of_class h.chars (by decide)

theorem showInt_no_quote (k : Int) : '"' ∉ showInt k := by
  have number := not_mem_showNat (c := '"') (by decide)
  cases k with
  | ofNat n => exact number n
  | negSucc n => simp [showInt, number]

theorem count_quotes_entries (es : List Entry) : (es.flatMap Entry.written).count '"' = 2 * es.length := by
  induction es with
  | nil => rfl
  | cons e es ih =>
    have text : '"' ∉ e.text := fun inside => (e.quotable _ inside).1 rfl
    have one : e.written.count '"' = 2 := by
      simp [Entry.written, List.count_eq_zero.mpr e.gap_white.no_quote, List.count_eq_zero.mpr (showInt_no_quote e.key),
        List.count_eq_zero.mpr e.space_white.no_quote, List.count_eq_zero.mpr text]
    rw [List.flatMap_cons, List.count_append, ih, one, List.length_cons]
    omega

theorem count_quotes_written (l : ValueLine) : l.written.count '"' = 2 * l.entries.length := by
  have indent : '"' ∉ l.indent := not_mem_of_class l.indent_white (by decide)
  have number : '"' ∉ showNat l.id.toNat := not_mem_showNat (by decide) _
  have name : '"' ∉ l.name := l.word.not_mem (by decide)
  have last : '"' ∉ l.last := not_mem_of_class l.last_white (by decide)
  have trail : '"' ∉ l.trail := not_mem_of_class l.trail_white (by decide)
  simp [ValueLine.written, ValueLine.statement, count_quotes_entries, List.count_eq_zero.mpr indent,
    List.count_eq_zero.mpr l.gap_white.no_quote, List.count_eq_zero.mpr l.space_white.no_quote,
    List.count_eq_zero.mpr number, List.count_eq_zero.mpr name, List.count_eq_zero.mpr last,
    List.count_eq_zero.mpr trail]

theorem written_ends (l : ValueLine) : ∃ front, l.written = front ++ '"' :: (l.last ++ ([';'] ++ l.trail)) := by
  rcases List.eq_nil_or_concat l.entries with none | ⟨es, e, split⟩
  · exact absurd none l.nonempty
  · refine ⟨[l.indent, "VAL_".toList, l.gap, showNat l.id.toNat, l.space, l.name, es.flatMap Entry.written, e.gap,
      showInt e.key, e.space, ['"'], e.text].flatten, ?_⟩
    simp [ValueLine.written, ValueLine.statement, split, Entry.written]

theorem pairPattern_ends (h : u ∈ (Re.plus pairPattern).language) : ∃ v, u = v ++ ['"'] := by
  have pieces : pairPattern =
      .cat ([spaces, digits, spaces, .char '"', .star false (.cls isDot)] ++ [.char '"']) := rfl
  rw [pieces] at h
  exact plus_ends_with (fun _ => ends_with_char) h

/-- The table of a match ends with a quote, and at most one character stands between it and a
semicolon. -/
theorem valuePattern_table {s : QString} {m : Match} (found : search valuePattern s = some m) :
    ∃ before space after, s = before ++ (m.captured 3 ++ (space ++ ';' :: after)) ∧ space.length ≤ 1 ∧
      ∃ table, m.captured 3 = table ++ ['"'] := by
  obtain ⟨skipped, whole, member⟩ := search_some found
  have pieces : valuePattern = .cat ([.lit "VAL_".toList, spaces, .group 1 digits, spaces, .group 2 words] ++
      [.group 3 (.plus pairPattern), .opt (.cls isSpace), .char ';']) := rfl
  rw [pieces] at member
  obtain ⟨x, rest, rfl, -, hrest⟩ := mem_run_cat_append member
  obtain ⟨_, hgroup, rest, htail, rfl⟩ := mem_run_seq.mp hrest
  obtain ⟨y, hy, rfl⟩ := List.mem_map.mp hgroup
  obtain ⟨space, hspace, rest, hend, rfl⟩ := mem_run_seq.mp htail
  obtain ⟨semicolon, hsemicolon, rest, hnil, rfl⟩ := mem_run_seq.mp hend
  obtain rfl := List.mem_singleton.mp hnil
  obtain ⟨c, hc, text, caps⟩ := mem_run_cls hsemicolon
  obtain rfl := eq_of_beq hc
  have short : space.text.length ≤ 1 ∧ space.caps = [] := by
    rcases List.mem_append.mp hspace with one | none
    · obtain ⟨c, -, text, caps⟩ := mem_run_cls one
      exact ⟨by rw [text]; exact Nat.le_refl 1, caps⟩
    · obtain rfl := List.mem_singleton.mp none
      exact ⟨Nat.zero_le 1, rfl⟩
  have captured : (x.append ({ y with caps := y.caps ++ [(3, y.text)] }.append
      (space.append (semicolon.append (Match.empty semicolon.rest))))).captured 3 = y.text := by
    simp [Match.captured, short.2, caps]
  rw [captured]
  refine ⟨skipped ++ x.text, space.text, semicolon.rest, ?_, short.1, pairPattern_ends (run_sound _ _ y hy)⟩
  simp only [append_text, append_rest, empty_text, empty_rest, text] at whole
  rw [whole]
  simp

/-- A match whose table holds all the quotes of the line ends with the statement. -/
theorem last_short {m : Match} (found : search valuePattern l.written = some m)
    (all : 2 * l.entries.length ≤ (m.captured 3).count '"') : l.last.length ≤ 1 := by
  obtain ⟨before, space, after, whole, short, table, ends⟩ := valuePattern_table found
  have semicolon : ';' ∉ l.last := not_mem_of_class l.last_white (by decide)
  have none : '"' ∉ space ++ ';' :: after := by
    have total := count_quotes_written l
    rw [whole, List.count_append, List.count_append] at total
    exact List.count_eq_zero.mp (by omega)
  obtain ⟨front, line⟩ := written_ends l
  have same : front ++ '"' :: (l.last ++ ([';'] ++ l.trail)) = before ++ table ++ '"' :: (space ++ ';' :: after) := by
    rw [← line, whole, ends]
    simp
  -- Behind the last quote both readings of the line are the same.
  have tails : l.last ++ ([';'] ++ l.trail) = space ++ ';' :: after := by
    have inside := suffix_after (x := front ++ ['"']) (by rw [List.append_assoc]; exact same) l.end_no_quote
    have outside := suffix_after (x := before ++ table ++ ['"']) (by rw [List.append_assoc]; exact same.symm) none
    exact inside.eq_of_length_le outside.length_le
  have stop := (suffix_of_cons tails semicolon).length_le
  have lengths := congrArg List.length tails
  simp only [List.length_append, List.length_cons, List.length_nil] at stop lengths
  omega

end CanTracer.Dbc
