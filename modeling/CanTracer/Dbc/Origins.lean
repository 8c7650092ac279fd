import CanTracer.Dbc.Messages

/-!
# Where signals come from

The parser with line numbers: beside every step, a trace notes the line of each assignment to the
pending message and of each message stored. An abandoned block leaves its signals to the next
message stored, and that is the only way for a signal to leave its block.
-/

namespace CanTracer.Dbc

open Regex

/-- The line numbers behind a stored message: its `BO_` line, the lines of its signals and the line
that closed its block. -/
structure Origin where
  bo : Nat
  sgs : List Nat
  close : Nat
  deriving DecidableEq

structure Trace where
  bo : Nat := 0
  sgs : List Nat := []
  stored : List Origin := []

/-- The trace of one step, taken on line number `i`. -/
def traceStep (qt : Qt) (i : Nat) (st : St) (line : QString) (t : Trace) : Trace :=
  match st.state with
  | .idle => if (boHeader qt line).isSome then { t with bo := i } else t
  | .message =>
    match search signalPattern line with
    | some m => if (readSignal qt m).isSome then { t with sgs := t.sgs ++ [i] } else t
    | none => { bo := 0, sgs := [], stored := t.stored ++ [⟨t.bo, t.sgs, i⟩] }
  | .signal => t

structure Traced where
  lineNumber : Nat := 0
  st : St
  trace : Trace := {}

def Traced.step (qt : Qt) (x : Traced) (line : QString) : Traced :=
  { lineNumber := x.lineNumber + 1
    st := Dbc.step qt x.st line
    trace := traceStep qt x.lineNumber x.st line x.trace }

def Traced.origins (x : Traced) : List Origin :=
  if x.st.state = .message then x.trace.stored ++ [⟨x.trace.bo, x.trace.sgs, x.lineNumber⟩] else x.trace.stored

def origins (qt : Qt) (lines : List QString) (db : CanDb) : List Origin :=
  (lines.foldl (Traced.step qt) { st := { db := db } }).origins

/-- The signals of a message come from its own block. -/
def Origin.Own (o : Origin) : Prop := ∀ k ∈ o.sgs, o.bo < k ∧ k < o.close

instance (o : Origin) : Decidable o.Own := inferInstanceAs (Decidable (∀ k ∈ o.sgs, _ ∧ _))

/-! ### Blocks -/

/-- A block of the text: the line of its `BO_`, how many `SG_` lines with a signal follow it, and
whether it ends without an `SG_` line that does not convert. -/
structure Block where
  bo : Nat
  count : Nat
  stored : Bool
  deriving DecidableEq

def blocksFrom (qt : Qt) : Nat → Option (Nat × Nat) → List QString → List Block
  | _, none, [] => []
  | i, none, line :: lines => blocksFrom qt (i + 1) (if (boHeader qt line).isSome then some (i, 0) else none) lines
  | _, some (bo, count), [] => [⟨bo, count, true⟩]
  | i, some (bo, count), line :: lines =>
    if (sgSignal qt line).isSome then blocksFrom qt (i + 1) (some (bo, count + 1)) lines
    else ⟨bo, count, !isSgLine line⟩ :: blocksFrom qt (i + 1) none lines

def blocks (qt : Qt) (lines : List QString) : List Block := blocksFrom qt 0 none lines

def Block.sgs (b : Block) : List Nat := List.range' (b.bo + 1) b.count

def Block.close (b : Block) : Nat := b.bo + b.count + 1

def Block.Abandoned (b : Block) : Prop := b.stored = false ∧ b.count ≠ 0

/-- The origins of the messages of the blocks, where `carry` are the lines of the signals left over. -/
def originsOf : List Nat → List Block → List Origin
  | _, [] => []
  | carry, b :: bs =>
    if b.stored then ⟨b.bo, carry ++ b.sgs, b.close⟩ :: originsOf [] bs else originsOf (carry ++ b.sgs) bs

variable {qt : Qt}

theorem origins_from (qt : Qt) (lines : List QString) :
    ∀ (i : Nat) (msg : CanMessage) (db : CanDb) (bo : Nat) (carry : List Nat)
    (stored : List Origin),
    (lines.foldl (Traced.step qt) ⟨i, ⟨.idle, msg, db⟩, ⟨bo, carry, stored⟩⟩).origins =
      stored ++ originsOf carry (blocksFrom qt i none lines) ∧
    ∀ count, i = bo + count + 1 →
      (lines.foldl (Traced.step qt) ⟨i, ⟨.message, msg, db⟩, ⟨bo, carry ++ List.range' (bo + 1) count, stored⟩⟩).origins =
        stored ++ originsOf carry (blocksFrom qt i (some (bo, count)) lines) := by
  induction lines with
  | nil =>
    intro i msg db bo carry stored
    refine ⟨(List.append_nil _).symm, fun count hi => ?_⟩
    subst hi
    rfl
  | cons line lines ih =>
    intro i msg db bo carry stored
    constructor
    · rw [List.foldl_cons, blocksFrom, Traced.step, traceStep]
      cases read : boHeader qt line with
      | none =>
        obtain ⟨msg', db', stepped, -⟩ := step_skip msg db read
        rw [stepped]
        exact (ih (i + 1) msg' db' bo carry stored).1
      | some h =>
        rw [step_open read]
        have next := (ih (i + 1) (h.apply msg) db i carry stored).2 0 rfl
        rw [List.range'_zero, List.append_nil] at next
        exact next
    · intro count hi
      rw [List.foldl_cons, blocksFrom, Traced.step]
      cases found : search signalPattern line with
      | none =>
        have read : sgSignal qt line = none := by rw [sgSignal, found]; rfl
        rw [step_close found, read, isSgLine, found]
        simp only [traceStep, found]
        have next := (ih (i + 1) {} (db.addMessage msg) 0 []
          (stored ++ [({ bo := bo, sgs := carry ++ List.range' (bo + 1) count, close := i } : Origin)])).1
        rw [List.append_assoc] at next
        apply next.trans
        rw [hi]
        rfl
      | some m =>
        cases read : sgSignal qt line with
        | none =>
          have unread : readSignal qt m = none := by rw [sgSignal, found] at read; exact read
          rw [step_abandon (by rw [found]; rfl) read, isSgLine, found]
          simp only [traceStep, found, unread]
          exact (ih (i + 1) msg db bo (carry ++ List.range' (bo + 1) count) stored).1
        | some s =>
          have was : readSignal qt m = some s := by rw [sgSignal, found] at read; exact read
          rw [step_add read]
          simp only [traceStep, found, was]
          have next := (ih (i + 1) (msg.addCanSignal s) db bo carry stored).2 (count + 1) (by omega)
          rw [List.range'_concat, ← List.append_assoc] at next
          have here : i = bo + 1 + 1 * count := by omega
          rw [← here] at next
          exact next

theorem origins_blocks (qt : Qt) (lines : List QString) (db : CanDb) :
    origins qt lines db = originsOf [] (blocks qt lines) := by
  have stored := (origins_from qt lines 0 {} db 0 [] []).1
  rw [List.nil_append] at stored
  exact stored

/-! ### Signals that leave their block -/

theorem blocks_ordered (lines : List QString) : ∀ i,
    ((blocksFrom qt i none lines).Pairwise (fun a b => a.close ≤ b.bo) ∧ ∀ b ∈ blocksFrom qt i none lines, i ≤ b.bo) ∧
    ∀ bo count, i = bo + count + 1 →
      (blocksFrom qt i (some (bo, count)) lines).Pairwise (fun a b => a.close ≤ b.bo) ∧
        ∀ b ∈ blocksFrom qt i (some (bo, count)) lines, bo ≤ b.bo := by
  induction lines with
  | nil =>
    intro i
    refine ⟨⟨.nil, nofun⟩, fun bo count _ => ⟨List.pairwise_singleton _ _, fun b hb => ?_⟩⟩
    rw [List.mem_singleton.mp hb]
  | cons line lines ih =>
    intro i
    obtain ⟨⟨idle, above⟩, opened⟩ := ih (i + 1)
    refine ⟨?_, fun bo count hi => ?_⟩
    · rw [blocksFrom]
      split
      · obtain ⟨ordered, above⟩ := opened i 0 rfl
        exact ⟨ordered, above⟩
      · exact ⟨idle, fun b hb => Nat.le_of_succ_le (above b hb)⟩
    · rw [blocksFrom]
      split
      · exact opened bo (count + 1) (by omega)
      · refine ⟨List.pairwise_cons.mpr ⟨fun b hb => ?_, idle⟩, fun b hb => ?_⟩
        · have := above b hb
          unfold Block.close
          dsimp only
          omega
        · rcases List.mem_cons.mp hb with rfl | hb
          · exact Nat.le_refl _
          · have := above b hb
            omega

def NoneAbandoned (bs : List Block) : Prop := bs.Pairwise fun a b => a.Abandoned → b.stored = false

instance (b : Block) : Decidable b.Abandoned := inferInstanceAs (Decidable (_ ∧ _))

instance (bs : List Block) : Decidable (NoneAbandoned bs) := inferInstanceAs (Decidable (bs.Pairwise _))

theorem own_iff {b : Block} {carry : List Nat} (before : ∀ k ∈ carry, k < b.bo) :
    Origin.Own ⟨b.bo, carry ++ b.sgs, b.close⟩ ↔ carry = [] := by
  constructor
  · intro own
    apply List.eq_nil_iff_forall_not_mem.mpr
    intro k hk
    exact Nat.lt_asymm (before k hk) (own k (List.mem_append_left _ hk)).1
  · rintro rfl k hk
    rw [List.nil_append, Block.sgs, List.mem_range'_1] at hk
    unfold Block.close
    dsimp only
    omega

/-- Stored messages keep to their blocks exactly when nothing that is left over meets a stored
block. -/
theorem originsOf_own_iff (bs : List Block) : ∀ carry : List Nat, (∀ k ∈ carry, ∀ b ∈ bs, k < b.bo) →
    bs.Pairwise (fun a b => a.close ≤ b.bo) →
    ((∀ o ∈ originsOf carry bs, o.Own) ↔ (carry ≠ [] → ∀ b ∈ bs, b.stored = false) ∧ NoneAbandoned bs) := by
  induction bs with
  | nil => intro carry _ _; exact iff_of_true nofun ⟨fun _ => nofun, .nil⟩
  | cons b bs ih =>
    intro carry before ordered
    obtain ⟨behind, ordered⟩ := List.pairwise_cons.mp ordered
    rw [originsOf, NoneAbandoned, List.pairwise_cons, List.forall_mem_cons]
    by_cases stored : b.stored = true
    · have rest := ih [] nofun ordered
      have keeps : ¬ b.Abandoned := fun h => absurd (stored.symm.trans h.1) (by decide)
      rw [if_pos stored, List.forall_mem_cons, own_iff fun k hk => before k hk b List.mem_cons_self, rest, stored]
      simp only [ne_eq, not_true_eq_false, false_imp_iff, true_and, reduceCtorEq, false_and, imp_false, not_not, keeps,
        implies_true, NoneAbandoned]
    · have unstored : b.stored = false := Bool.of_not_eq_true stored
      have early : ∀ k ∈ carry ++ b.sgs, ∀ b' ∈ bs, k < b'.bo := by
        intro k hk b' hb'
        rcases List.mem_append.mp hk with hk | hk
        · exact before k hk b' (List.mem_cons_of_mem _ hb')
        · rw [Block.sgs, List.mem_range'_1] at hk
          have := behind b' hb'
          unfold Block.close at this
          omega
      have left : carry ++ b.sgs ≠ [] ↔ carry ≠ [] ∨ b.Abandoned := by
        rw [Block.Abandoned, unstored, Block.sgs, ne_eq, List.append_eq_nil_iff, List.range'_eq_nil_iff]
        tauto
      rw [if_neg stored, ih (carry ++ b.sgs) early ordered, left, NoneAbandoned, unstored]
      tauto

/-! ### The trace tells the truth -/

structure ComesFrom (qt : Qt) (lines : List QString) (o : Origin) (m : CanMessage) : Prop where
  header : lines[o.bo]?.bind (boHeader qt) = some (headerOf m)
  signals : (m.canSignals.map fun s => some s.bare) = o.sgs.map fun k => lines[k]?.bind (sgSignal qt)
  closed : ∀ line ∈ lines[o.close]?, isSgLine line = false

theorem ComesFrom.extends {lines : List QString} {o : Origin} {m m' : CanMessage}
    (h : ComesFrom qt lines o m) (grown : m.Extends m') : ComesFrom qt lines o m' where
  header := by rw [h.header, headerOf, headerOf, grown.id, grown.name, grown.dlc, grown.sender]
  signals := by
    have same := congrArg (List.map some) (Extends.signals grown)
    rw [List.map_map, List.map_map] at same
    exact same.trans h.signals
  closed := h.closed

def Faithful (qt : Qt) (lines : List QString) (start : CanDb) (x : Traced) : Prop :=
  x.st.state ≠ .signal ∧
  (x.st.state = .message → lines[x.trace.bo]?.bind (boHeader qt) = some (headerOf x.st.message)) ∧
  ((x.st.message.canSignals.map fun s => some s.bare) = x.trace.sgs.map fun k => lines[k]?.bind (sgSignal qt)) ∧
  ∃ old new, x.st.db.db = old ++ new ∧ List.Forall₂ CanMessage.Extends start.db old ∧
    List.Forall₂ (ComesFrom qt lines) x.trace.stored new

theorem forall₂_extends {lines : List QString} {os : List Origin} {ms ms' : List CanMessage}
    (h : List.Forall₂ (ComesFrom qt lines) os ms) (grown : List.Forall₂ CanMessage.Extends ms ms') :
    List.Forall₂ (ComesFrom qt lines) os ms' := by
  induction h generalizing ms' with
  | nil => cases grown; exact .nil
  | cons head _ ih =>
    cases grown with
    | cons grown rest => exact .cons (head.extends grown) (ih rest)

theorem faithful_step {lines : List QString} {start : CanDb} {x : Traced} {line : QString}
    (here : lines[x.lineNumber]? = some line) (faithful : Faithful qt lines start x) :
    Faithful qt lines start (x.step qt line) := by
  obtain ⟨i, ⟨state, msg, db⟩, ⟨bo, sgs, stored⟩⟩ := x
  obtain ⟨noSignal, header, signals, old, new, whole, kept, added⟩ := faithful
  cases state with
  | idle =>
    rw [Traced.step, traceStep]
    cases read : boHeader qt line with
    | some h =>
      rw [step_open read]
      refine ⟨message_ne_signal, fun _ => ?_, signals, old, new, whole, kept, added⟩
      change lines[i]?.bind (boHeader qt) = _
      change lines[i]? = some line at here
      rw [here]
      exact read
    | none =>
      obtain ⟨msg', db', stepped, same, -, grown⟩ := step_skip msg db read
      change db.db = _ at whole
      rw [whole] at grown
      obtain ⟨old', new', whole', kept', added'⟩ := forall₂_split grown
      rw [stepped]
      refine ⟨idle_ne_signal, (absurd · idle_ne_message), ?_, old', new', whole',
        forall₂_trans CanMessage.extends_trans kept kept',
        forall₂_extends added added'⟩
      dsimp only
      rw [same]
      exact signals
  | message =>
    rw [Traced.step]
    cases found : search signalPattern line with
    | none =>
      rw [step_close found]
      simp only [traceStep, found]
      refine ⟨idle_ne_signal, (absurd · idle_ne_message), rfl, old, new ++ [msg], ?_, kept,
        List.rel_append added (.cons ⟨header rfl, signals, ?_⟩ .nil)⟩
      · change db.db ++ [msg] = old ++ (new ++ [msg])
        rw [← List.append_assoc]
        exact congrArg (· ++ [msg]) whole
      · intro line' h
        change lines[i]? = some line at here
        change lines[i]? = some line' at h
        rw [here] at h
        rw [← Option.some.inj h, isSgLine, found]
        rfl
    | some m =>
      cases read : readSignal qt m with
      | none =>
        have unread : sgSignal qt line = none := by rw [sgSignal, found]; exact read
        rw [step_abandon (by rw [found]; rfl) unread]
        simp only [traceStep, found, read]
        exact ⟨idle_ne_signal, (absurd · idle_ne_message), signals, old, new, whole, kept, added⟩
      | some s =>
        have was : sgSignal qt line = some s := by rw [sgSignal, found]; exact read
        rw [step_add was]
        simp only [traceStep, found, read]
        refine ⟨message_ne_signal, header, ?_, old, new, whole, kept, added⟩
        change lines[i]? = some line at here
        change (msg.canSignals ++ [s]).map (fun s => some s.bare) = (sgs ++ [i]).map fun k => lines[k]?.bind (sgSignal qt)
        rw [List.map_append, List.map_append, List.map_singleton, List.map_singleton, here, sgSignal_bare was]
        exact congrArg₂ (· ++ ·) signals (by rw [Option.bind_some, was])
  | signal => exact absurd rfl noSignal

theorem getElem?_behind {α : Type} (before : List α) (a : α) (behind : List α) :
    (before ++ a :: behind)[before.length]? = some a := by
  rw [List.getElem?_append_right (Nat.le_refl _), Nat.sub_self]
  rfl

theorem faithful_run {start : CanDb} (rest : List QString) : ∀ (read : List QString) (x : Traced),
    x.lineNumber = read.length → Faithful qt (read ++ rest) start x →
      Faithful qt (read ++ rest) start (rest.foldl (Traced.step qt) x) ∧
        (rest.foldl (Traced.step qt) x).lineNumber = (read ++ rest).length := by
  induction rest with
  | nil => intro read x count faithful; exact ⟨faithful, by rw [List.append_nil]; exact count⟩
  | cons line rest ih =>
    intro read x count faithful
    have here : (read ++ line :: rest)[x.lineNumber]? = some line := by
      rw [count]
      exact getElem?_behind read line rest
    have next := ih (read ++ [line]) (x.step qt line) (by rw [List.length_append, ← count]; rfl)
    rw [List.append_assoc, List.singleton_append] at next
    exact next (faithful_step here faithful)

theorem foldl_st (qt : Qt) (lines : List QString) (x : Traced) :
    (lines.foldl (Traced.step qt) x).st = lines.foldl (step qt) x.st := by
  induction lines generalizing x with
  | nil => rfl
  | cons line lines ih => exact ih (x.step qt line)

theorem parseStream_comesFrom (qt : Qt) (text : QString) (db : CanDb) :
    ∃ old new, (parseStream qt text db).db = old ++ new ∧ List.Forall₂ CanMessage.Extends db.db old ∧
      List.Forall₂ (ComesFrom qt (readLines text)) (origins qt (readLines text) db) new := by
  have start : Faithful qt (readLines text) db { st := { db := db } } :=
    ⟨idle_ne_signal, (absurd · idle_ne_message), rfl, db.db, [], (List.append_nil _).symm,
      extends_self _, .nil⟩
  obtain ⟨⟨-, header, signals, old, new, whole, kept, added⟩, count⟩ := faithful_run (readLines text) [] _ rfl start
  rw [List.nil_append] at header signals added count
  have erased := foldl_st qt (readLines text) { st := { db := db } }
  rw [parseStream, parseLines, origins, ← erased]
  generalize (readLines text).foldl (Traced.step qt) { st := { db := db } } = x at *
  rw [finish, Traced.origins]
  split
  · rename_i opened
    refine ⟨old, new ++ [x.st.message], ?_, kept, List.rel_append added (.cons ⟨header opened, signals, ?_⟩ .nil)⟩
    · rw [CanDb.addMessage, whole, List.append_assoc]
    · intro line h
      rw [count, List.getElem?_eq_none (Nat.le_refl _)] at h
      cases h
  · exact ⟨old, new, whole, kept, added⟩

/-- Every signal stored comes from the block of its message exactly when no block is stored behind
one that was abandoned with a signal. -/
theorem parseStream_own_iff (qt : Qt) (text : QString) (db : CanDb) :
    (∃ old new, (parseStream qt text db).db = old ++ new ∧ List.Forall₂ CanMessage.Extends db.db old ∧
      List.Forall₂ (ComesFrom qt (readLines text)) (origins qt (readLines text) db) new) ∧
    ((∀ o ∈ origins qt (readLines text) db, o.Own) ↔ NoneAbandoned (blocks qt (readLines text))) := by
  refine ⟨parseStream_comesFrom qt text db, ?_⟩
  rw [origins_blocks]
  exact (originsOf_own_iff (blocks qt (readLines text)) [] nofun (blocks_ordered _ 0).1.1).trans
    (and_iff_right fun h => absurd rfl h)

def abandonedText : QString :=
  "BO_ 1 A: 8 X\n SG_ a : 0|8@1+ (1,0) [0|255] \"\" Y\n SG_ b : 8|8@1+ (1.2.3,0) [0|255] \"\" Y\nBO_ 2 B: 8 X\n".toList

theorem parseStream_own_abandoned :
    ¬ ∀ (qt : Qt) (text : QString) (db : CanDb), ∀ o ∈ origins qt (readLines text) db, o.Own := by
  intro h
  have foreign : ¬ ∀ o ∈ origins plainBuild (readLines abandonedText) {}, o.Own := by decide +kernel
  exact foreign (h plainBuild abandonedText {})

/-- The signal of the first block ends up in the second message. -/
example : (parseStream plainBuild abandonedText {}).db.map (fun m => (m.id, m.canSignals.map (·.name))) =
    [(2, ["a".toList])] := by decide +kernel

end CanTracer.Dbc
