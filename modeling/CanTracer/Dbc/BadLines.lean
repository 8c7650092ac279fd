import Mathlib.Data.List.TakeWhile
import CanTracer.Dbc.Origins

/-!
# Bad lines in a block

A line of a block that the pattern does not match ends the block, and a line that does not convert
abandons it. A block keeps all its signals only when its bad lines come last and start with one that
does not match.
-/

namespace CanTracer.Dbc

open Regex

def BeginsSg (line : QString) : Prop := "SG_".toList <+: line.dropWhile isSpace

instance (line : QString) : Decidable (BeginsSg line) := inferInstanceAs (Decidable (_ <+: _))

def isGoodLine (qt : Qt) (line : QString) : Bool := (sgSignal qt line).isSome

/-- The line numbers of the signals of a block that starts on line `i`. -/
def goodLines (qt : Qt) : Nat → List QString → List Nat
  | _, [] => []
  | i, line :: block => if isGoodLine qt line then i :: goodLines qt (i + 1) block else goodLines qt (i + 1) block

/-- One of the messages stored has the header of the `BO_` line on line `n`, and its signals are those
of the block behind that line. -/
def BlockStored (qt : Qt) (n : Nat) (bo : QString) (block : List QString) (os : List Origin) (new : List CanMessage) :
    Prop :=
  ∃ om ∈ os.zip new, (om.1.bo = n ∧ om.1.sgs = goodLines qt (n + 1) block) ∧ boHeader qt bo = some (headerOf om.2) ∧
    om.2.canSignals.map CanSignal.bare = block.filterMap (sgSignal qt)

/-- No signal comes behind the first bad line of the block, which does not look like a signal; behind
a block without a bad line comes none either. -/
def Harmless (qt : Qt) (block post : List QString) : Prop :=
  match block.dropWhile (isGoodLine qt) with
  | [] => ∀ line ∈ post.head?, isSgLine line = false
  | line :: rest => isSgLine line = false ∧ ∀ line ∈ rest, sgSignal qt line = none

instance (qt : Qt) (block post : List QString) : Decidable (Harmless qt block post) :=
  match rest : block.dropWhile (isGoodLine qt) with
  | [] => decidable_of_iff (∀ line ∈ post.head?, isSgLine line = false) (by rw [Harmless, rest])
  | line :: _ =>
    decidable_of_iff (isSgLine line = false ∧ ∀ line ∈ _, sgSignal qt line = none) (by rw [Harmless, rest])

variable {qt : Qt}

/-! ### Lines of a block -/

theorem goodLines_append (xs ys : List QString) :
    ∀ i, goodLines qt i (xs ++ ys) = goodLines qt i xs ++ goodLines qt (i + xs.length) ys := by
  induction xs with
  | nil => intro i; rfl
  | cons x xs ih =>
    intro i
    have next : i + 1 + xs.length = i + (xs.length + 1) := by omega
    rw [List.cons_append, goodLines, goodLines, ih, List.length_cons, next]
    split <;> rfl

theorem goodLines_good {block : List QString} (good : ∀ line ∈ block, isGoodLine qt line = true) :
    ∀ i, goodLines qt i block = List.range' i block.length := by
  induction block with
  | nil => intro i; rfl
  | cons line block ih =>
    intro i
    obtain ⟨first, rest⟩ := List.forall_mem_cons.mp good
    rw [goodLines, if_pos first, ih rest, List.length_cons, List.range'_succ]

theorem mem_goodLines {block : List QString} : ∀ {i k}, k ∈ goodLines qt i block → i ≤ k := by
  induction block with
  | nil => intro i k hk; cases hk
  | cons line block ih =>
    intro i k hk
    rw [goodLines] at hk
    split at hk
    · rcases List.mem_cons.mp hk with rfl | hk
      · exact Nat.le_refl _
      · exact Nat.le_of_succ_le (ih hk)
    · exact Nat.le_of_succ_le (ih hk)

theorem goodLines_eq_nil {block : List QString} :
    ∀ {i}, goodLines qt i block = [] ↔ ∀ line ∈ block, sgSignal qt line = none := by
  induction block with
  | nil => intro i; exact iff_of_true rfl nofun
  | cons line block ih =>
    intro i
    rw [goodLines, List.forall_mem_cons, isGoodLine]
    cases read : sgSignal qt line with
    | none => simp only [Option.isSome_none, Bool.false_eq_true, if_false, true_and, ih]
    | some s => simp

theorem goodLines_read {lines post : List QString} (qt : Qt) (block : List QString) : ∀ before : List QString,
    lines = before ++ (block ++ post) →
      ((goodLines qt before.length block).map fun k => lines[k]?.bind (sgSignal qt)) =
        (block.filterMap (sgSignal qt)).map some := by
  induction block with
  | nil => intro before _; rfl
  | cons line block ih =>
    intro before whole
    have here : lines[before.length]? = some line := by
      rw [whole]
      exact getElem?_behind before line (block ++ post)
    have next := ih (before ++ [line]) (by rw [whole, List.append_assoc]; rfl)
    rw [List.length_append, List.length_singleton] at next
    rw [goodLines, List.filterMap_cons, isGoodLine]
    cases read : sgSignal qt line with
    | none => exact next
    | some s => rw [Option.isSome_some, if_pos rfl, List.map_cons, next, here, Option.bind_some, read]; rfl

/-! ### The block of a line -/

/-- How the block goes on behind its signals. -/
def endsWell (qt : Qt) (lines : List QString) : Bool :=
  match lines.dropWhile (isGoodLine qt) with
  | [] => true
  | line :: _ => !isSgLine line

theorem blocksFrom_open (qt : Qt) (lines : List QString) : ∀ i bo count, i = bo + count + 1 →
    ∃ bs, blocksFrom qt i (some (bo, count)) lines =
        ⟨bo, count + (lines.takeWhile (isGoodLine qt)).length, endsWell qt lines⟩ :: bs ∧
      ∀ b ∈ bs, i < b.bo := by
  induction lines with
  | nil => intro i bo count _; exact ⟨[], rfl, nofun⟩
  | cons line lines ih =>
    intro i bo count hi
    rw [blocksFrom, endsWell, List.takeWhile_cons, List.dropWhile_cons, isGoodLine]
    cases read : sgSignal qt line with
    | none =>
      refine ⟨blocksFrom qt (i + 1) none lines, rfl, fun b hb => ?_⟩
      exact (blocks_ordered lines (i + 1)).1.2 b hb
    | some s =>
      obtain ⟨bs, opened, behind⟩ := ih (i + 1) bo (count + 1) (by omega)
      have total : count + 1 + (lines.takeWhile (isGoodLine qt)).length =
          count + ((lines.takeWhile (isGoodLine qt)).length + 1) := by omega
      rw [total] at opened
      exact ⟨bs, opened, fun b hb => Nat.lt_of_succ_lt (behind b hb)⟩

theorem mem_originsOf {bs : List Block} : ∀ {carry : List Nat} {o : Origin},
    o ∈ originsOf carry bs → ∃ b ∈ bs, b.bo = o.bo := by
  induction bs with
  | nil => intro carry o ho; cases ho
  | cons b bs ih =>
    intro carry o ho
    rw [originsOf] at ho
    split at ho
    · rcases List.mem_cons.mp ho with rfl | ho
      · exact ⟨b, List.mem_cons_self, rfl⟩
      · obtain ⟨b', hb', same⟩ := ih ho
        exact ⟨b', List.mem_cons_of_mem _ hb', same⟩
    · obtain ⟨b', hb', same⟩ := ih ho
      exact ⟨b', List.mem_cons_of_mem _ hb', same⟩

section
variable {carry : List Nat} {n : Nat} {block post : List QString}

/-- The lines of the signals left over come before those of the block. -/
theorem carry_eq_nil {ks : List Nat} (before : ∀ k ∈ carry, k < n) (same : carry ++ ks = goodLines qt n block) :
    carry = [] := by
  apply List.eq_nil_iff_forall_not_mem.mpr
  intro k hk
  have behind := mem_goodLines (same ▸ List.mem_append_left ks hk)
  exact Nat.not_lt.mpr behind (before k hk)

theorem sgs_iff_good (before : ∀ k ∈ carry, k < n) (good : ∀ line ∈ block, isGoodLine qt line = true) :
    (endsWell qt (block ++ post) = true ∧
        carry ++ List.range' n ((block ++ post).takeWhile (isGoodLine qt)).length = goodLines qt n block) ↔
      carry = [] ∧ ∀ line ∈ post.head?, isSgLine line = false := by
  rw [endsWell, List.takeWhile_append_of_pos good, List.dropWhile_append_of_pos good, List.length_append]
  constructor
  · rintro ⟨ends, same⟩
    obtain rfl := carry_eq_nil before same
    refine ⟨rfl, ?_⟩
    have count := congrArg List.length same
    rw [goodLines_good good, List.nil_append, List.length_range', List.length_range'] at count
    intro line hline
    cases post with
    | nil => cases hline
    | cons l post =>
      cases hline
      have stop : isGoodLine qt line = false := by
        by_contra goes
        rw [List.takeWhile_cons, if_pos (Bool.of_not_eq_false goes), List.length_cons] at count
        omega
      rw [List.dropWhile_cons, stop] at ends
      simpa using ends
  · rintro ⟨rfl, stop⟩
    cases post with
    | nil => exact ⟨rfl, (goodLines_good good n).symm⟩
    | cons line post =>
      have unmatched := stop line rfl
      have bad : ¬ isGoodLine qt line = true := by rw [isGoodLine, sgSignal_unmatched unmatched]; decide
      rw [List.takeWhile_cons_of_neg bad, List.dropWhile_cons_of_neg bad, goodLines_good good]
      exact ⟨congrArg (! ·) unmatched, rfl⟩

theorem sgs_iff_bad {line : QString} {rest : List QString} (before : ∀ k ∈ carry, k < n)
    (good : ∀ line ∈ block, isGoodLine qt line = true) (bad : ¬ isGoodLine qt line = true) :
    (endsWell qt (block ++ line :: rest ++ post) = true ∧
        carry ++ List.range' n ((block ++ line :: rest ++ post).takeWhile (isGoodLine qt)).length =
          goodLines qt n (block ++ line :: rest)) ↔
      carry = [] ∧ isSgLine line = false ∧ ∀ line ∈ rest, sgSignal qt line = none := by
  rw [List.append_assoc, List.cons_append, endsWell, List.takeWhile_append_of_pos good,
    List.dropWhile_append_of_pos good, List.takeWhile_cons_of_neg bad, List.dropWhile_cons_of_neg bad, List.append_nil]
  have lines : goodLines qt n (block ++ line :: rest) =
      List.range' n block.length ++ goodLines qt (n + block.length + 1) rest := by
    rw [goodLines_append, goodLines_good good, goodLines, if_neg bad]
  constructor
  · rintro ⟨ends, same⟩
    obtain rfl := carry_eq_nil before same
    rw [List.nil_append, lines, List.self_eq_append_right] at same
    exact ⟨rfl, by simpa using ends, goodLines_eq_nil.mp same⟩
  · rintro ⟨rfl, unmatched, nothing⟩
    refine ⟨congrArg (! ·) unmatched, ?_⟩
    rw [lines, goodLines_eq_nil.mpr nothing, List.append_nil, List.nil_append]

/-- A block is stored with its own signals exactly when nothing was left over for it and its bad
lines do no harm. -/
theorem sgs_iff (qt : Qt) (block post : List QString) (before : ∀ k ∈ carry, k < n) :
    (endsWell qt (block ++ post) = true ∧
        carry ++ List.range' n ((block ++ post).takeWhile (isGoodLine qt)).length = goodLines qt n block) ↔
      carry = [] ∧ Harmless qt block post := by
  have split := List.takeWhile_append_dropWhile (p := isGoodLine qt) (l := block)
  have good : ∀ line ∈ block.takeWhile (isGoodLine qt), isGoodLine qt line = true :=
    fun line => List.mem_takeWhile_imp
  have stops := List.head?_dropWhile_not (isGoodLine qt) block
  rw [Harmless]
  generalize block.takeWhile (isGoodLine qt) = first at split good
  generalize block.dropWhile (isGoodLine qt) = rest at split stops
  subst split
  cases rest with
  | nil =>
    rw [List.append_nil]
    exact sgs_iff_good before good
  | cons line rest => exact sgs_iff_bad before good (by simpa using stops)

end

/-! ### The parser around a line -/

/-- Before line `x.lineNumber`, only earlier lines are noted. -/
structure Behind (x : Traced) : Prop where
  stored : ∀ o ∈ x.trace.stored, o.bo < x.lineNumber
  bo : x.st.state = .message → x.trace.bo < x.lineNumber
  sgs : ∀ k ∈ x.trace.sgs, k < x.lineNumber

/-- Line `n` has opened no block. -/
structure Avoids (n : Nat) (x : Traced) : Prop where
  stored : ∀ o ∈ x.trace.stored, o.bo ≠ n
  bo : x.st.state = .message → x.trace.bo ≠ n

/-- A line opens a block, leaves the blocks as they are, where it may add its number to the signals,
or closes one. -/
theorem traced_cases (qt : Qt) (x : Traced) (line : QString) :
    (x.st.state = .idle ∧ (x.step qt line).trace = { x.trace with bo := x.lineNumber }) ∨
    (((x.step qt line).st.state = .message → x.st.state = .message) ∧
      ((x.step qt line).trace = x.trace ∨ (x.step qt line).trace = { x.trace with sgs := x.trace.sgs ++ [x.lineNumber] })) ∨
    (x.st.state = .message ∧ (x.step qt line).st.state = .idle ∧ (x.step qt line).trace =
      { bo := 0, sgs := [], stored := x.trace.stored ++ [⟨x.trace.bo, x.trace.sgs, x.lineNumber⟩] }) := by
  obtain ⟨i, ⟨state, msg, db⟩, trace⟩ := x
  rw [Traced.step, traceStep]
  cases state with
  | idle =>
    cases read : boHeader qt line with
    | some h => exact .inl ⟨rfl, rfl⟩
    | none =>
      obtain ⟨msg', db', stepped, -⟩ := step_skip msg db read
      rw [stepped]
      exact .inr (.inl ⟨fun now => absurd now idle_ne_message, .inl rfl⟩)
  | message =>
    cases found : search signalPattern line with
    | none =>
      rw [step_close found]
      exact .inr (.inr ⟨rfl, rfl, rfl⟩)
    | some m =>
      refine .inr (.inl ⟨fun _ => rfl, ?_⟩)
      cases read : readSignal qt m with
      | none => exact .inl (by simp only [read, Option.isSome_none, Bool.false_eq_true, if_false])
      | some s => exact .inr (by simp only [read, Option.isSome_some, if_true])
  | signal => exact .inr (.inl ⟨fun now => absurd now.symm message_ne_signal, .inl rfl⟩)

theorem behind_step (x : Traced) (line : QString) (h : Behind x) : Behind (x.step qt line) := by
  have count : (x.step qt line).lineNumber = x.lineNumber + 1 := rfl
  have stored : ∀ o ∈ x.trace.stored, o.bo < x.lineNumber + 1 := fun o ho => Nat.lt_succ_of_lt (h.stored o ho)
  have sgs : ∀ k ∈ x.trace.sgs, k < x.lineNumber + 1 := fun k hk => Nat.lt_succ_of_lt (h.sgs k hk)
  rcases traced_cases qt x line with ⟨-, noted⟩ | ⟨opened, noted | noted⟩ | ⟨opened, closed, noted⟩
  · constructor <;> rw [noted, count]
    · exact stored
    · exact fun _ => Nat.lt_succ_self _
    · exact sgs
  · constructor <;> rw [noted, count]
    · exact stored
    · exact fun now => Nat.lt_succ_of_lt (h.bo (opened now))
    · exact sgs
  · constructor <;> rw [noted, count]
    · exact stored
    · exact fun now => Nat.lt_succ_of_lt (h.bo (opened now))
    · intro k hk
      rcases List.mem_append.mp hk with hk | hk
      · exact sgs k hk
      · rw [List.mem_singleton.mp hk]
        exact Nat.lt_succ_self _
  · constructor <;> rw [noted, count]
    · intro o ho
      rcases List.mem_append.mp ho with ho | ho
      · exact stored o ho
      · rw [List.mem_singleton.mp ho]
        exact Nat.lt_succ_of_lt (h.bo opened)
    · exact fun _ => Nat.succ_pos _
    · exact nofun

theorem Behind.avoids {x : Traced} (h : Behind x) : Avoids x.lineNumber x :=
  ⟨fun o ho => Nat.ne_of_lt (h.stored o ho), fun opened => Nat.ne_of_lt (h.bo opened)⟩

theorem avoids_step {n : Nat} {x : Traced} (qt : Qt) (line : QString) (h : Avoids n x)
    (other : x.st.state = .idle → x.lineNumber ≠ n) : Avoids n (x.step qt line) := by
  rcases traced_cases qt x line with ⟨idle, noted⟩ | ⟨opened, noted | noted⟩ | ⟨opened, closed, noted⟩
  · exact ⟨by rw [noted]; exact h.stored, fun _ => by rw [noted]; exact other idle⟩
  · exact ⟨by rw [noted]; exact h.stored, fun now => by rw [noted]; exact h.bo (opened now)⟩
  · exact ⟨by rw [noted]; exact h.stored, fun now => by rw [noted]; exact h.bo (opened now)⟩
  · refine ⟨?_, fun now => absurd (closed.symm.trans now) idle_ne_message⟩
    rw [noted]
    intro o ho
    rcases List.mem_append.mp ho with ho | ho
    · exact h.stored o ho
    · rw [List.mem_singleton.mp ho]
      exact h.bo opened

theorem avoids_run {n : Nat} {x : Traced} (lines : List QString) (read : n < x.lineNumber) (h : Avoids n x) :
    Avoids n (lines.foldl (Traced.step qt) x) := by
  induction lines generalizing x with
  | nil => exact h
  | cons line lines ih =>
    exact ih (Nat.lt_succ_of_lt read) (avoids_step qt line h fun _ => Nat.ne_of_gt read)

theorem Avoids.origins {n : Nat} {x : Traced} (h : Avoids n x) : ∀ o ∈ x.origins, o.bo ≠ n := by
  intro o ho
  rw [Traced.origins] at ho
  split at ho
  · rename_i opened
    rcases List.mem_append.mp ho with ho | ho
    · exact h.stored o ho
    · rw [List.mem_singleton.mp ho]
      exact h.bo opened
  · exact h.stored o ho

theorem origins_block {x : Traced} (behind : Behind x) (noSignal : x.st.state ≠ .signal) (bo : QString)
    (block post : List QString) :
    (∃ o ∈ ((bo :: (block ++ post)).foldl (Traced.step qt) x).origins,
        o.bo = x.lineNumber ∧ o.sgs = goodLines qt (x.lineNumber + 1) block) ↔
      (boHeader qt bo).isSome = true ∧ x.st.state = .idle ∧ x.trace.sgs = [] ∧ Harmless qt block post := by
  obtain ⟨i, ⟨state, msg, db⟩, ⟨b, carry, stored⟩⟩ := x
  cases state with
  | idle =>
    have early : ∀ k ∈ carry, k < i + 1 := fun k hk => Nat.lt_succ_of_lt (behind.sgs k hk)
    have old : ∀ o ∈ stored, o.bo < i := behind.stored
    rw [(origins_from qt (bo :: (block ++ post)) i msg db b carry stored).1, blocksFrom]
    cases read : boHeader qt bo with
    | none =>
      rw [Option.isSome_none, if_neg Bool.false_ne_true]
      apply iff_of_false _ fun h => Bool.false_ne_true h.1
      rintro ⟨o, ho, here, -⟩
      rcases List.mem_append.mp ho with ho | ho
      · exact Nat.ne_of_lt (old o ho) here
      · obtain ⟨b, hb, same⟩ := mem_originsOf ho
        have later := (blocks_ordered (block ++ post) (i + 1)).1.2 b hb
        change o.bo = i at here
        omega
    | some h =>
      obtain ⟨bs, opened, later⟩ := blocksFrom_open qt (block ++ post) (i + 1) i 0 rfl
      have rest : ∀ carry, ∀ o ∈ originsOf carry bs, i < o.bo := by
        intro carry o ho
        obtain ⟨b, hb, same⟩ := mem_originsOf ho
        exact same ▸ Nat.lt_of_succ_lt (later b hb)
      have own := sgs_iff qt block post early
      rw [Option.isSome_some, if_pos rfl, opened, Nat.zero_add, originsOf, Block.sgs]
      show (∃ o : Origin, o ∈ _ ∧ o.bo = i ∧ o.sgs = goodLines qt (i + 1) block) ↔ _ ∧ _ ∧ carry = [] ∧ _
      rw [and_iff_right rfl, and_iff_right rfl, ← own]
      constructor
      · rintro ⟨o, ho, here, sgs⟩
        rcases List.mem_append.mp ho with ho | ho
        · exact absurd here (Nat.ne_of_lt (old o ho))
        · split at ho
          · rename_i ends
            rcases List.mem_cons.mp ho with rfl | ho
            · exact ⟨ends, sgs⟩
            · exact absurd here (Nat.ne_of_gt (rest _ o ho))
          · exact absurd here (Nat.ne_of_gt (rest _ o ho))
      · rintro ⟨ends, sgs⟩
        rw [if_pos ends]
        exact ⟨_, List.mem_append_right _ List.mem_cons_self, rfl, sgs⟩
  | message =>
    apply iff_of_false _ fun h => idle_ne_message h.2.1.symm
    rintro ⟨o, ho, here, -⟩
    have first := avoids_step qt bo behind.avoids fun idle => absurd idle.symm idle_ne_message
    exact (avoids_run (block ++ post) (Nat.lt_succ_self i) first).origins o ho here
  | signal => exact absurd rfl noSignal

/-! ### The parser -/

theorem exists_zip {α β : Type} {R : α → β → Prop} {as : List α} {bs : List β} (h : List.Forall₂ R as bs) {a : α}
    (ha : a ∈ as) : ∃ b, (a, b) ∈ as.zip bs ∧ R a b := by
  induction h with
  | nil => cases ha
  | cons head _ ih =>
    rcases List.mem_cons.mp ha with rfl | ha
    · exact ⟨_, List.mem_cons_self, head⟩
    · obtain ⟨b, hb, related⟩ := ih ha
      exact ⟨b, List.mem_cons_of_mem _ hb, related⟩

theorem blockStored_iff {lines pre block post : List QString} {bo : QString} {os : List Origin} {new : List CanMessage}
    (whole : lines = pre ++ bo :: (block ++ post)) (added : List.Forall₂ (ComesFrom qt lines) os new) :
    BlockStored qt pre.length bo block os new ↔
      ∃ o ∈ os, o.bo = pre.length ∧ o.sgs = goodLines qt (pre.length + 1) block := by
  constructor
  · rintro ⟨⟨o, m⟩, hom, own, -⟩
    exact ⟨o, (List.of_mem_zip hom).1, own⟩
  · rintro ⟨o, ho, here, sgs⟩
    obtain ⟨m, hm, comes⟩ := exists_zip added ho
    have line : lines[pre.length]? = some bo := by
      rw [whole]
      exact getElem?_behind pre bo (block ++ post)
    have header := comes.header
    have signals := comes.signals
    have behind : lines = pre ++ [bo] ++ (block ++ post) := by rw [whole, List.append_assoc]; rfl
    have read := goodLines_read qt block (pre ++ [bo]) behind
    rw [List.length_append, List.length_singleton] at read
    rw [here, line, Option.bind_some] at header
    rw [sgs, read] at signals
    refine ⟨(o, m), hm, ⟨here, sgs⟩, header, ?_⟩
    apply List.map_injective_iff.mpr (Option.some_injective _)
    rw [List.map_map]
    exact signals

/-- A `BO_` line and its block are stored as one message with exactly the signals of the block when
the numbers of the line convert, the line is not used up by another block and no signals of an
abandoned one are left over for it, and the bad lines of the block do no harm; and only then. -/
theorem parseStream_block_iff (qt : Qt) (text : QString) (db : CanDb) {pre block post : List QString} {bo : QString}
    (whole : readLines text = pre ++ bo :: (block ++ post)) :
    ∃ old new, (parseStream qt text db).db = old ++ new ∧ List.Forall₂ CanMessage.Extends db.db old ∧
      List.Forall₂ (ComesFrom qt (readLines text)) (origins qt (readLines text) db) new ∧
      (BlockStored qt pre.length bo block (origins qt (readLines text) db) new ↔
        (boHeader qt bo).isSome = true ∧ (pre.foldl (step qt) { db := db }).state = .idle ∧
          (pre.foldl (step qt) { db := db }).message.canSignals = [] ∧ Harmless qt block post) := by
  obtain ⟨old, new, stored, kept, added⟩ := parseStream_comesFrom qt text db
  refine ⟨old, new, stored, kept, added, ?_⟩
  have start : Faithful qt pre db { st := { db := db } } :=
    ⟨idle_ne_signal, (absurd · idle_ne_message), rfl, db.db, [], (List.append_nil _).symm, extends_self _, .nil⟩
  have behind : Behind (pre.foldl (Traced.step qt) { st := { db := db } }) :=
    List.foldlRecOn pre (Traced.step qt) ⟨nofun, (absurd · idle_ne_message), nofun⟩
      fun x h line _ => behind_step x line h
  obtain ⟨⟨noSignal, -, signals, -⟩, count⟩ := faithful_run pre [] _ rfl start
  rw [blockStored_iff whole added, origins, whole, List.foldl_append, ← foldl_st qt pre { st := { db := db } }]
  generalize pre.foldl (Traced.step qt) { st := { db := db } } = x at *
  change x.lineNumber = pre.length at count
  have left : x.st.message.canSignals = [] ↔ x.trace.sgs = [] := by
    have lengths := congrArg List.length signals
    rw [List.length_map, List.length_map] at lengths
    rw [← List.length_eq_zero_iff, lengths, List.length_eq_zero_iff]
  rw [left, ← count]
  exact origins_block behind noSignal bo block post

def openingLine : QString := "BO_ 1 A: 8 X".toList

def goodLine : QString := " SG_ b : 8|8@1+ (1,0) [0|255] \"\" Y".toList

/-- A scale below zero, which the pattern does not allow. -/
def negativeScaleLine : QString := " SG_ a : 0|8@1+ (-1,0) [0|255] \"\" Y".toList

def blockText (block : List QString) : QString := (openingLine :: block).flatMap (· ++ ['\n'])

theorem parseStream_block_lastLine :
    ∃ old new, (parseStream plainBuild (blockText [goodLine, negativeScaleLine]) {}).db = old ++ new ∧
      BlockStored plainBuild 0 openingLine [goodLine, negativeScaleLine]
        (origins plainBuild (readLines (blockText [goodLine, negativeScaleLine])) {}) new := by
  have whole : readLines (blockText [goodLine, negativeScaleLine]) =
      [] ++ openingLine :: ([goodLine, negativeScaleLine] ++ []) := by decide +kernel
  obtain ⟨old, new, stored, -, -, own⟩ := parseStream_block_iff plainBuild _ {} whole
  exact ⟨old, new, stored, own.mpr ⟨by decide +kernel, rfl, rfl, by decide +kernel⟩⟩

/-- In front of a good line it costs the good line. -/
theorem parseStream_block_negativeScale :
    ¬ ∀ (qt : Qt) (text : QString) (db : CanDb) (pre : List QString) (bo : QString) (block post : List QString),
      readLines text = pre ++ bo :: (block ++ post) → (boHeader qt bo).isSome = true → (∀ line ∈ block, BeginsSg line) →
      (∀ line ∈ post.head?, ¬ BeginsSg line) → ∀ old new : List CanMessage, (parseStream qt text db).db = old ++ new →
      List.Forall₂ CanMessage.Extends db.db old →
      BlockStored qt pre.length bo block (origins qt (readLines text) db) new := by
  intro h
  have whole : readLines (blockText [negativeScaleLine, goodLine]) =
      [] ++ openingLine :: ([negativeScaleLine, goodLine] ++ []) := by decide +kernel
  have stored := h plainBuild _ {} [] openingLine _ [] whole (by decide +kernel) (by decide +kernel) nofun [] _ rfl .nil
  obtain ⟨⟨o, m⟩, hom, ⟨-, sgs⟩, -⟩ := stored
  have lines : ∀ o ∈ origins plainBuild (readLines (blockText [negativeScaleLine, goodLine])) {},
      o.sgs ≠ goodLines plainBuild 1 [negativeScaleLine, goodLine] := by
    decide +kernel
  exact lines o (List.of_mem_zip hom).1 sgs

end CanTracer.Dbc
