import Mathlib.Tactic.MkIffOfInductiveProp
import CanTracer.Dbc.Basic

/-!
# The documented text of a database

The lines that the comments of `dbcparser.cpp` describe: a block for each message, then the value
tables. `display` is how a `double` is written; `Printable` says which databases can be written
at all.
-/

namespace CanTracer.Dbc

open Regex

/-! ### Lines -/

def showNat (n : Nat) : QString := Nat.toDigits 10 n

def showKey (key : ℚ) : QString := showNat key.num.toNat

def boLine (m : CanMessage) : QString :=
  ["BO_".toList, [' '], showNat m.id.toNat, [' '], m.name, [':'], [' '], showNat m.dlc.toNat, [' '], m.sender].flatten

/-- `SG_ <name> : <start bit>|<length>@<endian><signed> (<scale>,<offset>) [<min>|<max>] "<unit>" <receiver>` -/
def sgText (display : ℚ → QString) (s : CanSignal) : QString :=
  ["SG_ ".toList, s.name, " : ".toList, showNat s.startBit.toNat, ['|'], showNat s.len.toNat, ['@'],
    [if s.isBigEndian then '0' else '1'], [if s.isSigned then '-' else '+'], " (".toList, display s.scale, [','],
    display s.offset, ") [".toList, display s.min, ['|'], display s.max, "] \"".toList, s.unit, ['"'], [' '],
    s.receiver].flatten

def sgLine (display : ℚ → QString) (indent : Nat) (s : CanSignal) : QString :=
  List.replicate indent ' ' ++ sgText display s

def pairText (v : ℚ × QString) : QString := [[' '], showKey v.1, [' '], ['"'], v.2, ['"']].flatten

/-- `VAL_ <id> <name> <key> "<text>" ... ;` -/
def valLine (id : UInt32) (s : CanSignal) : QString :=
  ["VAL_".toList, [' '], showNat id.toNat, [' '], s.name, s.values.flatMap pairText, [' '], [';']].flatten

/-! ### Text -/

def blockLines (display : ℚ → QString) (indent : Nat) (m : CanMessage) : List QString :=
  boLine m :: (m.canSignals.map (sgLine display indent) ++ [[]])

def valLines (m : CanMessage) : List QString :=
  (m.canSignals.filter fun s => !s.values.isEmpty).map (valLine m.id)

def renderLines (display : ℚ → QString) (indent : Nat) (d : CanDb) : List QString :=
  d.db.flatMap (blockLines display indent) ++ d.db.flatMap valLines

def render (display : ℚ → QString) (indent : Nat) (d : CanDb) : QString :=
  (renderLines display indent d).flatMap (· ++ ['\n'])

/-! ### What can be written -/

@[mk_iff] structure Word (s : QString) : Prop where
  nonempty : s ≠ []
  chars : ∀ c ∈ s, isWord c = true

def Quotable (s : QString) : Prop := ∀ c ∈ s, c ≠ '"' ∧ c ≠ '\n'

/-- A number written in the characters of `p` and read back as itself. -/
@[mk_iff] structure Exact (qt : Qt) (display : ℚ → QString) (p : Char → Bool) (q : ℚ) : Prop where
  nonempty : display q ≠ []
  chars : ∀ c ∈ display q, p c = true
  reads : qt.toDouble (display q) = some q

@[mk_iff] structure PrintablePair (qt : Qt) (v : ℚ × QString) : Prop where
  key : ∃ n : Nat, v.1 = n
  reads : qt.toDouble (showKey v.1) = some v.1
  text : Quotable v.2
  noMessage : search messagePattern v.2 = none

@[mk_iff] structure PrintableSignal (qt : Qt) (display : ℚ → QString) (s : CanSignal) : Prop where
  name : Word s.name
  scale : Exact qt display isDecimal s.scale
  offset : Exact qt display isSignedDecimal s.offset
  min : Exact qt display isSignedDecimal s.min
  max : Exact qt display isSignedDecimal s.max
  unit : Quotable s.unit
  receiver : Word s.receiver
  values : ∀ v ∈ s.values, PrintablePair qt v

@[mk_iff] structure PrintableMessage (qt : Qt) (display : ℚ → QString) (m : CanMessage) : Prop where
  id : m.id ≤ 0x1FFFFFFF
  name : Word m.name
  sender : Word m.sender
  signals : ∀ s ∈ m.canSignals, PrintableSignal qt display s
  distinct : (m.canSignals.map (·.name)).Nodup

@[mk_iff] structure Printable (qt : Qt) (display : ℚ → QString) (d : CanDb) : Prop where
  messages : ∀ m ∈ d.db, PrintableMessage qt display m
  distinct : (d.db.map (·.id)).Nodup

/-- Decided over the characters of the text, not over all characters. -/
instance (p : Char → Prop) [DecidablePred p] (s : QString) : Decidable (∀ c ∈ s, p c) := List.decidableBAll p s

instance (s : QString) : Decidable (Word s) := decidable_of_iff _ (word_iff s).symm

instance (s : QString) : Decidable (Quotable s) := inferInstanceAs (Decidable (∀ c ∈ s, _))

instance (qt : Qt) (display : ℚ → QString) (p : Char → Bool) (q : ℚ) : Decidable (Exact qt display p q) :=
  decidable_of_iff _ (exact_iff qt display p q).symm

theorem natural_iff (q : ℚ) : q = (q.num.toNat : ℚ) ↔ ∃ n : Nat, q = n := by
  refine ⟨fun h => ⟨_, h⟩, ?_⟩
  rintro ⟨n, rfl⟩
  rw [Rat.num_natCast, Int.toNat_natCast]

instance (qt : Qt) (v : ℚ × QString) : Decidable (PrintablePair qt v) :=
  haveI : Decidable (∃ n : Nat, v.1 = n) := decidable_of_iff _ (natural_iff v.1)
  decidable_of_iff _ (printablePair_iff qt v).symm

instance (qt : Qt) (display : ℚ → QString) (s : CanSignal) : Decidable (PrintableSignal qt display s) :=
  decidable_of_iff _ (printableSignal_iff qt display s).symm

instance (qt : Qt) (display : ℚ → QString) (m : CanMessage) : Decidable (PrintableMessage qt display m) :=
  decidable_of_iff _ (printableMessage_iff qt display m).symm

instance (qt : Qt) (display : ℚ → QString) (d : CanDb) : Decidable (Printable qt display d) :=
  decidable_of_iff _ (printable_iff qt display d).symm

/-! ### Numbers -/

theorem showNat_ne_nil (n : Nat) : showNat n ≠ [] := Nat.toDigits_ne_nil

theorem showNat_isDigit {n : Nat} {c : Char} (h : c ∈ showNat n) : isDigit c = true := by
  have digit : c.isDigit = true := Nat.isDigit_of_mem_toDigits (by decide) (by decide) h
  exact digit

theorem numeral_eq_ofDigitChars {s : QString} (h : ∀ c ∈ s, isDigit c = true) :
    numeral 10 s = Nat.ofDigitChars 10 s 0 := by
  rw [numeral, Nat.ofDigitChars_eq_foldl]
  apply List.foldl_ext
  intro n c hc
  rw [digitValue_of_isDigit (h c hc), Option.getD_some]

theorem toUnsigned_showNat {n max : Nat} (h : n ≤ max) : toUnsigned 10 max (showNat n) = some n := by
  have value : numeral 10 (showNat n) = n := by
    rw [numeral_eq_ofDigitChars fun c => showNat_isDigit]
    exact Nat.ofDigitChars_toDigits (by decide) (by decide)
  exact toUnsigned_some.mpr ⟨⟨showNat_ne_nil n, all_digits fun c => showNat_isDigit, by rw [value]; exact h⟩, value⟩

/-! ### Lines read back -/

structure OneLine (line : QString) : Prop where
  noNewline : '\n' ∉ line
  noReturn : line.getLast? ≠ some '\r'

theorem splitLines_line {line : QString} (h : '\n' ∉ line) (text : QString) :
    splitLines (line ++ '\n' :: text) = line :: splitLines text := by
  induction line with
  | nil => rw [List.nil_append, splitLines, if_pos rfl]
  | cons c line ih =>
    have hc : c ≠ '\n' := fun e => h (e ▸ List.mem_cons_self)
    rw [List.cons_append, splitLines, if_neg hc, ih fun inside => h (List.mem_cons_of_mem _ inside)]

theorem readLines_flatMap {lines : List QString} (h : ∀ line ∈ lines, OneLine line) :
    readLines (lines.flatMap (· ++ ['\n'])) = lines := by
  induction lines with
  | nil => rfl
  | cons line lines ih =>
    obtain ⟨first, rest⟩ := List.forall_mem_cons.mp h
    have later := ih rest
    rw [readLines] at later
    rw [List.flatMap_cons, List.append_assoc, List.singleton_append, readLines, splitLines_line first.noNewline,
      List.map_cons, later, dropCarriageReturn, if_neg first.noReturn]

end CanTracer.Dbc
