import CanTracer.Dbc.Origins
import CanTracer.Dbc.Patterns

/-!
# Joined files

What two files give when the second is written behind the first. The end of a file stores the open
message and drops the signals that abandoned blocks have left over; the end of a line does neither.
-/

namespace CanTracer.Dbc

open Regex

/-- How many signals are left over behind the blocks, where `n` are left over before them. -/
def leftOver : Nat → List Block → Nat
  | n, [] => n
  | n, b :: bs => if b.stored then leftOver 0 bs else leftOver (n + b.count) bs

/-- Every block is ended by one of the lines, and no signals are left over. -/
def Finished (qt : Qt) (lines : List QString) : Prop :=
  (∀ b ∈ blocks qt lines, b.close < lines.length) ∧ leftOver 0 (blocks qt lines) = 0

instance (qt : Qt) (lines : List QString) : Decidable (Finished qt lines) := inferInstanceAs (Decidable (_ ∧ _))

variable {qt : Qt}

/-! ### The state behind the lines -/

/-- The state behind line number `stop`, where `bs` are the blocks and `left` signals are left over. -/
inductive EndsAs (st : St) (bs : List Block) (stop left : Nat) : Prop where
  | idle (state : st.state = .idle) (ended : ∀ b ∈ bs, b.close < stop) (signals : st.message.canSignals.length = left)
    (color : st.message.color = CanMessage.color {})
  | message (state : st.state = .message) (b : Block) (last : b ∈ bs) (unended : b.close = stop)

theorem EndsAs.behind {st : St} {b : Block} {bs : List Block} {stop left : Nat} (ended : b.close < stop)
    (h : EndsAs st bs stop left) : EndsAs st (b :: bs) stop left := by
  cases h with
  | idle state others signals color => exact .idle state (List.forall_mem_cons.mpr ⟨ended, others⟩) signals color
  | message state b last unended => exact .message state b (List.mem_cons_of_mem _ last) unended

theorem ends_from (qt : Qt) (lines : List QString) :
    ∀ (i : Nat) (msg : CanMessage) (db : CanDb), msg.color = CanMessage.color {} →
      EndsAs (lines.foldl (step qt) ⟨.idle, msg, db⟩) (blocksFrom qt i none lines) (i + lines.length)
          (leftOver msg.canSignals.length (blocksFrom qt i none lines)) ∧
        ∀ bo count n, i = bo + count + 1 → msg.canSignals.length = n + count →
          EndsAs (lines.foldl (step qt) ⟨.message, msg, db⟩) (blocksFrom qt i (some (bo, count)) lines) (i + lines.length)
            (leftOver n (blocksFrom qt i (some (bo, count)) lines)) := by
  induction lines with
  | nil =>
    intro i msg db color
    refine ⟨.idle rfl nofun rfl color, fun bo count n hi _ => ?_⟩
    exact .message rfl ⟨bo, count, true⟩ (List.mem_singleton.mpr rfl) hi.symm
  | cons line lines ih =>
    intro i msg db color
    have stop : i + (line :: lines).length = i + 1 + lines.length := by
      rw [List.length_cons]
      omega
    rw [stop, List.foldl_cons, List.foldl_cons]
    refine ⟨?_, fun bo count n hi signals => ?_⟩
    · rw [blocksFrom]
      cases read : boHeader qt line with
      | none =>
        obtain ⟨msg', db', stepped, same, sameColor, -⟩ := step_skip msg db read
        rw [stepped, ← same]
        exact (ih (i + 1) msg' db' (sameColor.trans color)).1
      | some h =>
        rw [step_open read]
        exact (ih (i + 1) (h.apply msg) db color).2 i 0 msg.canSignals.length rfl rfl
    · have within : bo + count + 1 < i + 1 + lines.length := by omega
      rw [blocksFrom]
      cases found : search signalPattern line with
      | none =>
        have read : sgSignal qt line = none := by rw [sgSignal, found]; rfl
        have next := (ih (i + 1) {} (db.addMessage msg) rfl).1
        rw [step_close found, read, isSgLine, found]
        exact next.behind within
      | some m =>
        cases read : sgSignal qt line with
        | none =>
          have next := (ih (i + 1) msg db color).1
          rw [step_abandon (by rw [found]; rfl) read, isSgLine, found]
          rw [signals] at next
          exact next.behind within
        | some s =>
          rw [step_add read]
          refine (ih (i + 1) (msg.addCanSignal s) db color).2 bo (count + 1) n (by omega) ?_
          rw [CanMessage.addCanSignal, List.length_append, signals]
          rfl

theorem ends_blocks (qt : Qt) (lines : List QString) (db : CanDb) :
    EndsAs (lines.foldl (step qt) { db := db }) (blocks qt lines) lines.length (leftOver 0 (blocks qt lines)) := by
  have ends := (ends_from qt lines 0 {} db rfl).1
  rwa [Nat.zero_add] at ends

/-! ### Headers that are replaced -/

/-- States that differ at most in the header of a message that is not open. -/
inductive Alike : St → St → Prop where
  | same (st : St) : Alike st st
  | idle {msg msg' : CanMessage} (db : CanDb) (signals : msg'.canSignals = msg.canSignals) (color : msg'.color = msg.color) :
    Alike ⟨.idle, msg, db⟩ ⟨.idle, msg', db⟩

theorem alike_step {st st' : St} (alike : Alike st st') (line : QString) : Alike (step qt st line) (step qt st' line) := by
  cases alike with
  | same st => exact .same _
  | @idle msg msg' db signals color =>
    unfold step
    dsimp only
    cases search messagePattern line with
    | none =>
      cases search valuePattern line with
      | none => exact .idle _ signals color
      | some m => exact .idle _ signals color
    | some m =>
      cases id : toULong qt (m.captured 1) 10 with
      | none =>
        simp only [readMessage, id]
        exact .idle _ signals color
      | some id' =>
        cases dlc : toShort (m.captured 3) with
        | none =>
          simp only [readMessage, id, dlc]
          exact .idle _ signals color
        | some dlc' =>
          simp only [readMessage, id, dlc, signals, color]
          exact .same _

theorem alike_finish {st st' : St} (alike : Alike st st') : finish st = finish st' := by
  cases alike <;> rfl

theorem alike_run (lines : List QString) :
    ∀ {st st' : St}, Alike st st' → finish (lines.foldl (step qt) st) = finish (lines.foldl (step qt) st') := by
  induction lines with
  | nil => exact alike_finish
  | cons line lines ih => exact fun alike => ih (alike_step alike line)

/-! ### Two files -/

theorem parseLines_joined {lines : List QString} (finished : Finished qt lines) (more : List QString) (db : CanDb) :
    parseLines qt (lines ++ more) db = parseLines qt more (parseLines qt lines db) := by
  obtain ⟨ended, left⟩ := finished
  have ends := ends_blocks qt lines db
  rw [parseLines, parseLines, parseLines, List.foldl_append]
  generalize lines.foldl (step qt) { db := db } = st at *
  obtain ⟨state, msg, d⟩ := st
  cases ends with
  | idle state _ signals color =>
    obtain rfl : _ = ParseState.idle := state
    rw [left, List.length_eq_zero_iff] at signals
    exact alike_run more (.idle d signals.symm color.symm)
  | message _ b last unended => exact absurd (ended b last) (Nat.not_lt.mpr (Nat.le_of_eq unended.symm))

/-- A line that opens a block wherever none is open. -/
def nextHeader : QString := "BO_ 1 A: 8 B".toList

theorem boHeader_nextHeader (qt : Qt) :
    boHeader qt nextHeader = some { id := 1, name := ['A'], dlc := 8, sender := ['B'] } := by
  have found : search messagePattern nextHeader = 
      some ⟨nextHeader, [], [(1, ['1']), (2, ['A']), (3, ['8']), (4, ['B'])]⟩ := by
    decide +kernel
  have id : toULong qt ['1'] 10 = some 1 := toULong_showNat qt 1
  have dlc : toShort ['8'] = some 8 := by decide
  have masked : removeExtMask 1 = 1 := by decide
  simp [boHeader, found, Match.captured, List.lookup_cons, id, dlc, masked]

/-- The opening line behind lines that are not finished comes to something else than in a file of its own. -/
theorem finished_of_joined {lines : List QString} {db : CanDb}
    (joined : parseLines qt (lines ++ [nextHeader]) db = parseLines qt [nextHeader] (parseLines qt lines db)) :
    Finished qt lines := by
  have ends := ends_blocks qt lines db
  rw [parseLines, parseLines, parseLines, List.foldl_append] at joined
  generalize lines.foldl (step qt) { db := db } = st at *
  obtain ⟨state, msg, d⟩ := st
  rw [List.foldl_cons, List.foldl_cons, List.foldl_nil, List.foldl_nil, step_open (boHeader_nextHeader qt)] at joined
  cases ends with
  | idle state ended signals color =>
    obtain rfl : _ = ParseState.idle := state
    refine ⟨ended, ?_⟩
    rw [step_open (boHeader_nextHeader qt)] at joined
    have last := List.append_cancel_left (congrArg CanDb.db joined)
    have none : msg.canSignals = [] := congrArg CanMessage.canSignals (List.cons.inj last).1
    rw [← signals, none]
    rfl
  | message state b last unended =>
    obtain rfl : _ = ParseState.message := state
    have notSignal : search signalPattern nextHeader = none := by decide +kernel
    rw [step_close notSignal] at joined
    have lengths := congrArg (fun d => d.db.length) joined
    simp [finish, CanDb.addMessage] at lengths

/-- A file may be cut behind some of its lines, wherever it stands among others and whatever comes next, exactly
when those lines end their blocks and leave no signals over. -/
theorem parse_joined_iff {text : QString} (whole : WholeLines text) :
    (∀ before after more, parse qt (before ++ some (text ++ more) :: after) =
        parse qt (before ++ some text :: some more :: after)) ↔
      Finished qt (readLines text) := by
  constructor
  · intro joined
    have joined := joined [] [] nextHeader
    change parseStream qt (text ++ nextHeader) {} = parseStream qt nextHeader (parseStream qt text {}) at joined
    rw [parseStream, readLines_append whole] at joined
    exact finished_of_joined joined
  · intro finished before after more
    rw [parse, parse, List.foldl_append, List.foldl_append, List.foldl_cons, List.foldl_cons, List.foldl_cons]
    refine congrArg (List.foldl _ · after) ?_
    change parseStream qt (text ++ more) _ = parseStream qt more (parseStream qt text _)
    rw [parseStream, readLines_append whole, parseLines_joined finished]
    rfl

/-- The first block is abandoned, and the second takes what it has left over. -/
def twoBlocks : QString :=
  "BO_ 1 A: 8 B\n SG_ S : 0|8@1+ (1,0) [0|1] \"\" B\n SG_ T : 0|8@1+ (1.2.3,0) [0|1] \"\" B\nBO_ 2 C: 8 B\n\n".toList

theorem parse_joined_twoBlocks :
    (∀ before after more, parse plainBuild (before ++ some (twoBlocks ++ more) :: after) =
        parse plainBuild (before ++ some twoBlocks :: some more :: after)) ↔
      Finished plainBuild (readLines twoBlocks) :=
  parse_joined_iff (.inr (by decide))

example : Finished plainBuild (readLines twoBlocks) ∧
    ∀ n ∈ [1, 2, 3, 4], ¬ Finished plainBuild ((readLines twoBlocks).take n) := by
  decide +kernel

end CanTracer.Dbc
