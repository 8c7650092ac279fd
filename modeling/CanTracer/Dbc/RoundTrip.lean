import CanTracer.Dbc.Messages
import CanTracer.Dbc.Entries

/-!
# A database read back from its text

The blocks store the messages without value tables; each `VAL_` line then finds its signal by id
and name and fills one table.
-/

namespace CanTracer

namespace Dbc

open Regex

variable {qt : Qt} {display : ℚ → QString} {indent : Nat} {s : CanSignal} {m : CanMessage} {d db : CanDb}

/-- A message as the format describes it: the color of its row is not part of the text. -/
def uncolored (m : CanMessage) : CanMessage := { m with color := ⟨0, 0, 0, 0⟩ }

/-! ### Blocks -/

theorem run_signals {signals : List CanSignal} (h : ∀ s ∈ signals, PrintableSignal qt display s)
    (msg : CanMessage) :
    (signals.map (sgLine display indent)).foldl (step qt) ⟨.message, msg, db⟩ =
      ⟨.message, { msg with canSignals := msg.canSignals ++ signals.map CanSignal.bare }, db⟩ := by
  induction signals generalizing msg with
  | nil => rw [List.map_nil, List.map_nil, List.foldl_nil, List.append_nil]
  | cons s signals ih =>
    obtain ⟨first, rest⟩ := List.forall_mem_cons.mp h
    rw [List.map_cons, List.foldl_cons, step_add (sgSignal_sgLine first indent), ih rest]
    simp [CanMessage.addCanSignal]

theorem run_block (h : PrintableMessage qt display m) (db : CanDb) :
    (blockLines display indent m).foldl (step qt) ⟨.idle, {}, db⟩ =
      ⟨.idle, {}, db.addMessage (bareMessage (uncolored m))⟩ := by
  have empty : search signalPattern [] = none := by decide
  rw [blockLines, List.foldl_cons, step_open (boHeader_boLine h), List.foldl_append, run_signals h.signals,
    List.foldl_cons, step_close empty]
  rfl

theorem run_blocks {messages : List CanMessage} (h : ∀ m ∈ messages, PrintableMessage qt display m)
    (db : CanDb) :
    (messages.flatMap (blockLines display indent)).foldl (step qt) ⟨.idle, {}, db⟩ =
      ⟨.idle, {}, ⟨db.db ++ messages.map fun m => bareMessage (uncolored m)⟩⟩ := by
  induction messages generalizing db with
  | nil => rw [List.map_nil, List.append_nil]; rfl
  | cons m messages ih =>
    obtain ⟨first, rest⟩ := List.forall_mem_cons.mp h
    rw [List.flatMap_cons, List.foldl_append, run_block first, ih rest, CanDb.addMessage, List.map_cons,
      List.append_assoc]
    rfl

/-! ### Value tables -/

/-- The pairs of a table as entries with single spaces. -/
theorem entries_pairs {values : List (ℚ × QString)} (h : ∀ v ∈ values, PrintablePair qt v) :
    ∃ es : List Entry, es.flatMap Entry.written = values.flatMap pairText ∧ (∀ e ∈ es, 0 ≤ e.key) ∧
      Reads qt (fun k => k) es ∧ pairs (fun k => k) es = values := by
  induction values with
  | nil => exact ⟨[], rfl, nofun, nofun, rfl⟩
  | cons v values ih =>
    obtain ⟨first, others⟩ := List.forall_mem_cons.mp h
    obtain ⟨es, written, natural, reads, same⟩ := ih others
    obtain ⟨key, text⟩ := v
    obtain ⟨⟨n, rfl⟩, read, quotable, -⟩ := first
    have number : showKey (n : ℚ) = showNat n := by rw [showKey, Rat.num_natCast, Int.toNat_natCast]
    refine ⟨⟨[' '], n, [' '], text, white_space, white_space, quotable⟩ :: es, ?_, ?_, ?_, ?_⟩
    · rw [List.flatMap_cons, List.flatMap_cons, written, Entry.written, pairText, number]
      rfl
    · exact List.forall_mem_cons.mpr ⟨Int.natCast_nonneg n, natural⟩
    · apply List.forall_mem_cons.mpr ⟨_, reads⟩
      rw [number] at read
      exact read
    · rw [pairs, List.map_cons, ← pairs, same]
      rfl

theorem step_valLine {id : UInt32} (hid : id ≤ 0x1FFFFFFF) (h : PrintableSignal qt display s)
    (pos : s.values ≠ []) (msg : CanMessage) (db : CanDb) :
    step qt ⟨.idle, msg, db⟩ (valLine id s) =
      ⟨.idle, msg, db.modifyMessage id fun m =>
        m.modifySignal s.name fun signal => { signal with values := signal.values ++ s.values }⟩ := by
  have noMessage := search_message_valLine id h.name fun v hv => (h.values v hv).noMessage
  obtain ⟨es, written, natural, reads, same⟩ := entries_pairs h.values
  have some : es ≠ [] := by
    rintro rfl
    exact pos same.symm
  let l : ValueLine :=
    { indent := [], gap := [' '], id := id, space := [' '], name := s.name, entries := es, last := [' '], trail := []
      indent_white := nofun, gap_white := white_space, space_white := white_space, word := h.name, nonempty := some
      last_white := white_space.chars, trail_white := nofun }
  have line : l.written = valLine id s := by
    rw [ValueLine.written, ValueLine.statement, written, List.nil_append, List.append_nil]
    rfl
  have plain : l.Plain := ⟨natural, Nat.le_refl 1⟩
  have table : withTable s.name s.values =
      fun m => m.modifySignal s.name fun signal => { signal with values := signal.values ++ s.values } := by
    funext m
    simp only [withTable, CanSignal.foldl_addValuePair]
  rw [← line] at noMessage ⊢
  rw [step_valueLine plain reads noMessage]
  show St.mk .idle msg (db.modifyMessage (removeExtMask id.toNat) (withTable s.name (pairs _ es))) = _
  rw [same, removeExtMask_of_le hid, table]

theorem modifyMessage_table {done rest : List CanMessage} {filled left : List CanSignal}
    (before : ∀ x ∈ done, x.id ≠ m.id) (earlier : ∀ t ∈ filled, t.name ≠ s.name) :
    (CanDb.mk (done ++ { m with canSignals := filled ++ s.bare :: left } :: rest)).modifyMessage m.id (fun m =>
        m.modifySignal s.name fun signal => { signal with values := signal.values ++ s.values }) =
      ⟨done ++ { m with canSignals := filled ++ s :: left } :: rest⟩ := by
  have message : ∀ x ∈ done, (x.id == m.id) = false := fun x hx => beq_eq_false_iff_ne.mpr (before x hx)
  have signal : ∀ t ∈ filled, (t.name == s.name) = false := fun t ht => beq_eq_false_iff_ne.mpr (earlier t ht)
  simp only [CanDb.modifyMessage, CanMessage.modifySignal]
  rw [modifyFirst_append (y := { m with canSignals := filled ++ s.bare :: left }) message (beq_self_eq_true m.id),
    modifyFirst_append (y := s.bare) signal (beq_self_eq_true s.name)]
  rfl

theorem run_tables (msg m : CanMessage) {done : List CanMessage} (rest : List CanMessage)
    (hm : m.id ≤ 0x1FFFFFFF) (before : ∀ x ∈ done, x.id ≠ m.id) (signals : List CanSignal)
    (h : ∀ s ∈ signals, PrintableSignal qt display s) (filled : List CanSignal)
    (distinct : ((filled ++ signals).map (·.name)).Nodup) :
    ((signals.filter fun s => !s.values.isEmpty).map (valLine m.id)).foldl (step qt)
        ⟨.idle, msg, ⟨done ++ { m with canSignals := filled ++ signals.map CanSignal.bare } :: rest⟩⟩ =
      ⟨.idle, msg, ⟨done ++ { m with canSignals := filled ++ signals } :: rest⟩⟩ := by
  induction signals generalizing filled with
  | nil => rfl
  | cons s signals ih =>
    obtain ⟨first, others⟩ := List.forall_mem_cons.mp h
    have next := ih others (filled ++ [s]) (by rw [List.append_assoc]; exact distinct)
    simp only [List.append_assoc, List.singleton_append] at next
    rw [List.map_cons]
    by_cases pos : s.values = []
    · have bare : s.bare = s := by rw [CanSignal.bare, ← pos]
      rw [List.filter_cons_of_neg (by simp [pos]), bare]
      exact next
    · have earlier : ∀ t ∈ filled, t.name ≠ s.name := by
        rw [List.map_append, List.nodup_append] at distinct
        exact fun t ht => distinct.2.2 _ (List.mem_map_of_mem ht) _ List.mem_cons_self
      rw [List.filter_cons_of_pos (by simpa using pos), List.map_cons, List.foldl_cons, step_valLine hm first pos,
        modifyMessage_table before earlier]
      exact next

theorem run_valLines (msg : CanMessage) {messages : List CanMessage} (done : List CanMessage)
    (h : ∀ m ∈ messages, PrintableMessage qt display m)
    (distinct : ((done ++ messages).map (·.id)).Nodup) :
    (messages.flatMap valLines).foldl (step qt)
        ⟨.idle, msg, ⟨done ++ messages.map fun m => bareMessage (uncolored m)⟩⟩ =
      ⟨.idle, msg, ⟨done ++ messages.map uncolored⟩⟩ := by
  induction messages generalizing done with
  | nil => rfl
  | cons m messages ih =>
    obtain ⟨first, others⟩ := List.forall_mem_cons.mp h
    have before : ∀ x ∈ done, x.id ≠ m.id := by
      rw [List.map_append, List.nodup_append] at distinct
      exact fun x hx => distinct.2.2 _ (List.mem_map_of_mem hx) _ List.mem_cons_self
    have tables := run_tables msg (uncolored m) (messages.map fun m => bareMessage (uncolored m))
      first.id before m.canSignals first.signals [] first.distinct
    have next := ih (done ++ [uncolored m]) others (by simpa [uncolored] using distinct)
    simp only [List.append_assoc, List.singleton_append] at next
    rw [List.flatMap_cons, List.foldl_append, List.map_cons, List.map_cons, ← next]
    exact congrArg (fun st => (messages.flatMap valLines).foldl (step qt) st) tables

/-! ### The text -/

theorem oneLine_append {front back : QString} (newline : '\n' ∉ front) (pos : back ≠ []) (h : '\n' ∉ back)
    (h' : '\r' ∉ back) :
    OneLine (front ++ back) := by
  refine ⟨by simp [newline, h], fun last => h' ?_⟩
  rw [List.getLast?_append_of_ne_nil _ pos] at last
  exact List.mem_of_getLast? last

theorem oneLine_boLine (h : PrintableMessage qt display m) : OneLine (boLine m) := by
  have number := not_mem_showNat (c := '\n') (by decide)
  have name : '\n' ∉ m.name := h.name.not_mem (by decide)
  have whole : boLine m =
      ["BO_".toList, [' '], showNat m.id.toNat, [' '], m.name, [':'], [' '], showNat m.dlc.toNat, [' ']].flatten ++
      m.sender := by
    simp [boLine]
  rw [whole]
  exact oneLine_append (by simp [number, name]) h.sender.nonempty (h.sender.not_mem (by decide)) (h.sender.not_mem (by decide))

theorem oneLine_sgLine (h : PrintableSignal qt display s) : OneLine (sgLine display indent s) := by
  have number := not_mem_showNat (c := '\n') (by decide)
  have name : '\n' ∉ s.name := h.name.not_mem (by decide)
  have signed {q : ℚ} (e : Exact qt display isSignedDecimal q) : '\n' ∉ display q := e.not_mem (by decide)
  have scale : '\n' ∉ display s.scale := h.scale.not_mem (by decide)
  have unit : '\n' ∉ s.unit := fun inside => (h.unit _ inside).2 rfl
  have big : '\n' ≠ (if s.isBigEndian then '0' else '1') := by cases s.isBigEndian <;> decide
  have sign : '\n' ≠ (if s.isSigned then '-' else '+') := by cases s.isSigned <;> decide
  have whole : sgLine display indent s =
      (List.replicate indent ' ' ++
        ("SG_ ".toList ++ (s.name ++ (" : ".toList ++ (beforeUnitText display s ++ (s.unit ++ ['"', ' '])))))) ++
        s.receiver := by
    simp [sgLine, sgText, beforeUnitText]
  rw [whole]
  refine oneLine_append ?_ h.receiver.nonempty (h.receiver.not_mem (by decide)) (h.receiver.not_mem (by decide))
  simp [beforeUnitText, number, name, scale, signed h.offset, signed h.min, signed h.max, unit, big, sign]

theorem oneLine_valLine {id : UInt32} (h : PrintableSignal qt display s) : OneLine (valLine id s) := by
  have number := not_mem_showNat (c := '\n') (by decide)
  have name : '\n' ∉ s.name := h.name.not_mem (by decide)
  have pairs : '\n' ∉ s.values.flatMap pairText := fun inside => by
    obtain ⟨v, hv, inside⟩ := List.mem_flatMap.mp inside
    have text : '\n' ∉ v.2 := fun inside => ((h.values v hv).text _ inside).2 rfl
    simp [pairText, showKey, number, text] at inside
  have whole : valLine id s =
      ["VAL_".toList, [' '], showNat id.toNat, [' '], s.name, s.values.flatMap pairText, [' ']].flatten ++ [';'] := by
    simp [valLine]
  rw [whole]
  exact oneLine_append (by simp [number, name, pairs]) (List.cons_ne_nil _ _) (by decide) (by decide)

theorem oneLine_renderLines (h : Printable qt display d) :
    ∀ line ∈ renderLines display indent d, OneLine line := by
  intro line hline
  rcases List.mem_append.mp hline with block | table
  · obtain ⟨m, hm, block⟩ := List.mem_flatMap.mp block
    have message := h.messages m hm
    rcases List.mem_cons.mp block with rfl | block
    · exact oneLine_boLine message
    · rcases List.mem_append.mp block with signal | closing
      · obtain ⟨s, hs, rfl⟩ := List.mem_map.mp signal
        exact oneLine_sgLine (message.signals s hs)
      · obtain rfl := List.mem_singleton.mp closing
        exact ⟨List.not_mem_nil, nofun⟩
  · obtain ⟨m, hm, table⟩ := List.mem_flatMap.mp table
    obtain ⟨s, hs, rfl⟩ := List.mem_map.mp table
    exact oneLine_valLine ((h.messages m hm).signals s (List.mem_filter.mp hs).1)

theorem parseStream_render (h : Printable qt display d) :
    parseStream qt (render display indent d) {} = ⟨d.db.map uncolored⟩ := by
  have tables := run_valLines {} [] h.messages h.distinct
  rw [parseStream, render, readLines_flatMap (oneLine_renderLines h), parseLines, renderLines, List.foldl_append,
    run_blocks h.messages]
  exact congrArg finish tables

def tenths (q : ℚ) : QString :=
  (if q < 0 then ['-'] else []) ++ showNat (q.num.natAbs / q.den) ++ ['.'] ++ showNat (10 * q.num.natAbs / q.den % 10)

def gearbox : CanDb := ⟨[
  { id := 256, dlc := 8, name := "Engine".toList, sender := "ECU".toList
    canSignals := [
      { startBit := 0, len := 8, isBigEndian := false, isSigned := true, scale := 1 / 2, offset := -40, min := -40,
        max := 215, name := "Oil".toList, unit := "deg : 1|8@1+ (C".toList, receiver := "Dash".toList },
      { startBit := 8, len := 2, isBigEndian := true, isSigned := false, scale := 1, offset := 0, min := 0, max := 3,
        name := "Mode".toList, receiver := "Dash".toList,
        values := [(0, "off ; 1".toList), (1, "VAL_ 256 Oil".toList), (10, "".toList)] }] },
  { id := 0x18FEF100, dlc := 0, name := "Empty_1".toList, sender := "ECU".toList }]⟩

theorem parseStream_render_gearbox :
    parseStream plainBuild (render tenths 1 gearbox) {} = ⟨gearbox.db.map uncolored⟩ :=
  parseStream_render (by decide +kernel)

example : renderLines tenths 1 gearbox = [
    "BO_ 256 Engine: 8 ECU".toList, " SG_ Oil : 0|8@1- (0.5,-40.0) [-40.0|215.0] \"deg : 1|8@1+ (C\" Dash".toList,
    " SG_ Mode : 8|2@0+ (1.0,0.0) [0.0|3.0] \"\" Dash".toList, [], "BO_ 419361024 Empty_1: 0 ECU".toList, [],
    "VAL_ 256 Mode 0 \"off ; 1\" 1 \"VAL_ 256 Oil\" 10 \"\" ;".toList] := by
  decide +kernel

end Dbc
end CanTracer
