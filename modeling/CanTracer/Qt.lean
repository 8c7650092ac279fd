import Mathlib.Algebra.Field.Rat
import CanTracer.Regex.Basic

/-!
# Strings, bytes and conversions

The part of Qt and of the C++ library that the parsers call: number conversions with their
success flag, `QByteArray` operations, `QTextStream::readLine`, and what an operation without a
defined result is called. `Qt` holds what differs between builds or lies outside the sources.
-/

namespace CanTracer

abbrev QString := List Char

abbrev Bytes := List UInt8

/-- Operations that C++ or Qt leaves undefined. -/
inductive Undefined where
  | shift
  | emptyLine
  | overflow
  | arrayIndex
  | nullDriver
  | nullMessage
  deriving DecidableEq, Repr

inductive Failure where
  | outOfRange
  | runtimeError (what : String)
  | undefined (op : Undefined)
  deriving DecidableEq, Repr

theorem ok_bind {α β : Type} (a : α) (f : α → Except Failure β) : (Except.ok a >>= f) = f a := rfl

theorem ok_ne_error {α : Type} {a : α} {e : Failure} : Except.ok a ≠ .error e := by simp

theorem bind_ok {α β : Type} {x : Except Failure α} {f : α → Except Failure β} {b : β} (h : (x >>= f) = .ok b) :
    ∃ a, x = .ok a ∧ f a = .ok b := by
  cases x with
  | error e => cases h
  | ok a => exact ⟨a, rfl, h⟩

theorem map_ok {α β : Type} {x : Except Failure α} {f : α → β} {b : β} (h : x.map f = .ok b) :
    ∃ a, x = .ok a ∧ f a = b := by
  cases x with
  | error e => cases h
  | ok a => exact ⟨a, rfl, Except.ok.inj h⟩

theorem isOk_ok {α : Type} {x : Except Failure α} (h : x.isOk = true) : ∃ a, x = .ok a := by
  cases x with
  | error e => cases h
  | ok a => exact ⟨a, rfl⟩

theorem bind_ne_error {α β : Type} {x : Except Failure α} {f : α → Except Failure β} {e : Failure}
    (hx : x ≠ .error e) (hf : ∀ a, f a ≠ .error e) : x >>= f ≠ .error e := by
  cases x with
  | error e' => exact fun h => hx (congrArg Except.error (Except.error.inj h))
  | ok a => exact hf a

/-- What the build and the library fix: the width of `unsigned long` (32 on Windows, 64 on
Linux), `QString::toDouble` with its success flag, and `qUncompress`. -/
structure Qt where
  ulongBits : Nat
  ulongBits_ge : 32 ≤ ulongBits
  toDouble : QString → Option ℚ
  qUncompress : Bytes → Bytes

/-! ### Numbers -/

def digitValue (c : Char) : Option Nat :=
  if Regex.isDigit c then some (c.toNat - '0'.toNat)
  else if 'A'.val ≤ c.val ∧ c.val ≤ 'F'.val then some (c.toNat - 'A'.toNat + 10)
  else if 'a'.val ≤ c.val ∧ c.val ≤ 'f'.val then some (c.toNat - 'a'.toNat + 10)
  else none

def numeral (base : Nat) (s : QString) : Nat :=
  s.foldl (fun n c => base * n + (digitValue c).getD 0) 0

/-- A conversion to an unsigned value of at most `max`, `none` when the success flag is false.
The patterns hand over digits only, so signs and white space do not arise. -/
def toUnsigned (base max : Nat) (s : QString) : Option Nat :=
  if s ≠ [] ∧ s.all (fun c => (digitValue c).any (· < base)) ∧ numeral base s ≤ max then some (numeral base s)
  else none

def toInt (s : QString) : Option Nat := toUnsigned 10 (2 ^ 31 - 1) s

def toShort (s : QString) : Option Nat := toUnsigned 10 (2 ^ 15 - 1) s

def toUInt (s : QString) (base : Nat) : Option Nat := toUnsigned base (2 ^ 32 - 1) s

def toULong (qt : Qt) (s : QString) (base : Nat) : Option Nat := toUnsigned base (2 ^ qt.ulongBits - 1) s

/-! ### Decimals -/

/-- Digits with at most one point among them, and at least one digit. -/
def unsignedDecimal (s : QString) : Option ℚ :=
  let whole := s.takeWhile Regex.isDigit
  match s.dropWhile Regex.isDigit with
  | [] => if whole = [] then none else some (numeral 10 whole)
  | point :: fraction =>
    if point = '.' ∧ fraction.all Regex.isDigit ∧ whole ++ fraction ≠ [] then
      some (numeral 10 (whole ++ fraction) / 10 ^ fraction.length)
    else none

def decimal : QString → Option ℚ
  | '-' :: s => (unsignedDecimal s).map (-·)
  | s => unsignedDecimal s

def plainBuild : Qt where
  ulongBits := 64
  ulongBits_ge := by decide
  toDouble := decimal
  qUncompress := fun _ => []

/-! ### Bytes -/

def hexPairs : List Nat → Bytes
  | hi :: lo :: rest => (16 * hi + lo).toUInt8 :: hexPairs rest
  | _ => []

/-- `QByteArray::fromHex`: other characters are skipped, and a first digit without a partner
stands alone. -/
def fromHex (s : QString) : Bytes :=
  let digits := s.filterMap digitValue
  if digits.length % 2 = 1 then (digits.headD 0).toUInt8 :: hexPairs digits.tail else hexPairs digits

/-- `QByteArray::indexOf` from position 0, `none` for -1. -/
def indexOf (pattern : Bytes) : Bytes → Option Nat
  | [] => if pattern = [] then some 0 else none
  | b :: bytes => if pattern <+: b :: bytes then some 0 else (indexOf pattern bytes).map (· + 1)

def indexOfFrom (pattern bytes : Bytes) (start : Nat) : Option Nat :=
  (indexOf pattern (bytes.drop start)).map (start + ·)

def narrowInt (n : Int) : Int := n.bmod (2 ^ 32)

/-! ### Lists -/

/-- `QList::at`, undefined for an index outside the list, like `QList::remove`. -/
def QList.at {α : Type} (list : List α) (i : Nat) : Except Failure α :=
  if h : i < list.length then .ok list[i] else .error (.undefined .arrayIndex)

/-- The same for a signed index. -/
def QList.atInt {α : Type} (list : List α) (i : Int) : Except Failure α :=
  if 0 ≤ i then QList.at list i.toNat else .error (.undefined .arrayIndex)

def QList.remove {α : Type} (list : List α) (i : Nat) : Except Failure (List α) :=
  if i < list.length then .ok (list.eraseIdx i) else .error (.undefined .arrayIndex)

theorem at_inside {α : Type} {list : List α} {i : Nat} (inside : i < list.length) : QList.at list i = .ok list[i] :=
  dif_pos inside

theorem at_some {α : Type} {list : List α} {i : Nat} {a : α} (here : list[i]? = some a) : QList.at list i = .ok a := by
  obtain ⟨inside, rfl⟩ := List.getElem?_eq_some_iff.mp here
  exact at_inside inside

theorem at_none {α : Type} {list : List α} {i : Nat} (outside : list.length ≤ i) :
    QList.at list i = .error (.undefined .arrayIndex) :=
  dif_neg (Nat.not_lt_of_le outside)

theorem at_ok {α : Type} {list : List α} {i : Nat} {a : α} (read : QList.at list i = .ok a) : list[i]? = some a := by
  by_cases inside : i < list.length
  · rw [at_inside inside] at read
    rw [List.getElem?_eq_getElem inside, Except.ok.inj read]
  · rw [at_none (not_lt.mp inside)] at read
    cases read

theorem atInt_natCast {α : Type} (list : List α) (i : Nat) : QList.atInt list (i : Int) = QList.at list i := by
  rw [QList.atInt, if_pos (Int.natCast_nonneg i), Int.toNat_natCast]

theorem atInt_cases {α : Type} (list : List α) (i : Int) :
    (∃ (row : Nat) (a : α), i = row ∧ list[row]? = some a) ∨ QList.atInt list i = .error (.undefined .arrayIndex) := by
  by_cases sign : 0 ≤ i
  · obtain ⟨row, rfl⟩ := Int.eq_ofNat_of_zero_le sign
    rw [atInt_natCast]
    cases here : list[row]? with
    | none => exact .inr (at_none (List.getElem?_eq_none_iff.mp here))
    | some a => exact .inl ⟨row, a, rfl, here⟩
  · exact .inr (if_neg sign)

theorem atInt_ok {α : Type} {list : List α} {i : Int} {a : α} (read : QList.atInt list i = .ok a) :
    ∃ row : Nat, i = row ∧ list[row]? = some a := by
  rcases atInt_cases list i with ⟨row, b, rfl, here⟩ | outside
  · rw [atInt_natCast, at_some here] at read
    exact ⟨row, rfl, here.trans (congrArg some (Except.ok.inj read))⟩
  · rw [outside] at read
    cases read

/-! ### Lines -/

def splitLines : QString → List QString
  | [] => []
  | c :: s =>
    if c = '\n' then [] :: splitLines s
    else match splitLines s with
      | [] => [[c]]
      | line :: lines => (c :: line) :: lines

def dropCarriageReturn (line : QString) : QString :=
  if line.getLast? = some '\r' then line.dropLast else line

/-- The lines that `QTextStream::readLine` returns until `atEnd`. -/
def readLines (text : QString) : List QString := (splitLines text).map dropCarriageReturn

/-- The text does not break off inside a line. -/
def WholeLines (text : QString) : Prop := text = [] ∨ text.getLast? = some '\n'

theorem splitLines_ne_nil {s : QString} (nonempty : s ≠ []) : splitLines s ≠ [] := by
  cases s with
  | nil => exact absurd rfl nonempty
  | cons c s =>
    rw [splitLines]
    split
    · exact List.cons_ne_nil _ _
    · split <;> exact List.cons_ne_nil _ _

theorem splitLines_append (s t : QString) :
    splitLines (s ++ '\n' :: t) = splitLines (s ++ ['\n']) ++ splitLines t := by
  induction s with
  | nil => rfl
  | cons c s ih =>
    rw [List.cons_append, List.cons_append, splitLines, splitLines, ih]
    split
    · rfl
    · cases lines : splitLines (s ++ ['\n']) with
      | nil => exact absurd lines (splitLines_ne_nil (by simp))
      | cons line lines => rfl

theorem readLines_append {s : QString} (whole : WholeLines s) (t : QString) :
    readLines (s ++ t) = readLines s ++ readLines t := by
  rcases whole with rfl | last
  · rfl
  · obtain ⟨front, rfl⟩ := List.getLast?_eq_some_iff.mp last
    rw [readLines, readLines, readLines, List.append_assoc, List.singleton_append, splitLines_append, List.map_append]

/-! ### Conversions of digits -/

theorem hexPairs_length (ds : List Nat) : (hexPairs ds).length = ds.length / 2 := by
  induction ds using hexPairs.induct with
  | case1 hi lo rest ih => rw [hexPairs, List.length_cons, ih, List.length_cons, List.length_cons]; omega
  | case2 ds short =>
    rw [hexPairs]
    · cases ds with
      | nil => rfl
      | cons d ds =>
        cases ds with
        | nil => exact (Nat.div_eq_of_lt (by simp)).symm
        | cons e ds => exact (short d e ds rfl).elim
    · exact short

theorem fromHex_length (s : QString) : (fromHex s).length = ((s.filterMap digitValue).length + 1) / 2 := by
  unfold fromHex
  dsimp only
  split
  · rename_i odd
    rw [List.length_cons, hexPairs_length, List.length_tail]
    omega
  · rw [hexPairs_length]
    omega

theorem digitValue_of_isDigit {c : Char} (h : Regex.isDigit c = true) :
    digitValue c = some (c.toNat - '0'.toNat) := by
  rw [digitValue, if_pos h]

theorem digitValue_lt {c : Char} (h : Regex.isDigit c = true) : c.toNat - '0'.toNat < 10 := by
  have upper : c.val ≤ '9'.val := by simpa [Regex.isDigit] using (Bool.and_eq_true_iff.mp h).2
  have bound : c.toNat ≤ '9'.toNat := upper
  have zero : '0'.toNat = 48 := rfl
  have nine : '9'.toNat = 57 := rfl
  omega

theorem all_digits {s : QString} (h : ∀ c ∈ s, Regex.isDigit c = true) :
    s.all (fun c => (digitValue c).any (· < 10)) = true := by
  rw [List.all_eq_true]
  intro c hc
  rw [digitValue_of_isDigit (h c hc), Option.any_some, decide_eq_true_iff]
  exact digitValue_lt (h c hc)

theorem toUnsigned_some {base max n : Nat} {s : QString} :
    toUnsigned base max s = some n ↔
      (s ≠ [] ∧ s.all (fun c => (digitValue c).any (· < base)) ∧ numeral base s ≤ max) ∧ numeral base s = n := by
  unfold toUnsigned
  split
  · rename_i h
    rw [Option.some.injEq, and_iff_right h]
  · rename_i h
    exact ⟨fun e => (Option.some_ne_none n e.symm).elim, fun e => (h e.1).elim⟩

theorem toUnsigned_le {base max n : Nat} {s : QString} (h : toUnsigned base max s = some n) : n ≤ max := by
  obtain ⟨⟨-, -, le⟩, rfl⟩ := toUnsigned_some.mp h
  exact le

end CanTracer
