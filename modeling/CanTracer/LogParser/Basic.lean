import CanTracer.Blf.Basic

/-!
# Log files

`logparser.cpp`: the drivers for TRC and ASC lines, and `Parser::parse`, which chooses a driver by
the extension of the name.
-/

namespace CanTracer

open Regex

/-- What a file holds: its bytes, and the text that `QTextStream` makes of them. -/
structure File where
  bytes : Bytes
  text : QString

/-! ### Columns -/

def isUpperHex (c : Char) : Bool := isDigit c || ('A'.val ≤ c.val && c.val ≤ 'F'.val)

def isHexOrBlank (c : Char) : Bool := isUpperHex c || c == ' '

abbrev blanks : Re := Re.plus (.char ' ')

abbrev direction : Re := .alt (.lit "Rx".toList) (.lit "Tx".toList)

def dataBytes (column : QString) : Bytes := fromHex (column.filter (· != ' '))

/-- `std::memcpy` of the data into the array of the message. -/
def copyData (msg : CanLogMsg) (data : Bytes) : Except Failure CanLogMsg :=
  if data.length ≤ canMaxDlc then .ok { msg with data := msg.data.copy data } else .error (.undefined .overflow)

/-! ### Drivers -/

/-- A driver with the state it keeps from line to line. `parseLine` is `none` when the line is not
accepted: its caller then drops the message. -/
structure TextDriver (σ : Type) where
  start : σ
  parseLine : QString → σ → Except Failure (Option (CanLogMsg × σ))

namespace TextDriver

variable {σ : Type} (driver : TextDriver σ)

def parseLines : List QString → σ → Except Failure (List CanLogMsg)
  | [], _ => .ok []
  | line :: lines, s => do
    match ← driver.parseLine line s with
    | none => parseLines lines s
    | some (msg, s) => return msg :: (← parseLines lines s)

def parse (file : Option File) : Except Failure (List CanLogMsg) :=
  match file with
  | none => .error (.runtimeError "Cannot open file")
  | some file => driver.parseLines (readLines file.text) driver.start

end TextDriver

namespace TrcDriver

/-- `([0-9]+)\)\s+([0-9\.]+)\s+(Rx|Tx)\s+([0-9A-F]+)\s+([0-9]+)\s+([0-9 A-F]+)` -/
def pattern : Re :=
  .cat [.group 1 digits, .char ')', spaces, .group 2 (.plus (.cls isDecimal)), spaces, .group 3 direction, spaces,
    .group 4 (.plus (.cls isUpperHex)), spaces, .group 5 digits, spaces, .group 6 (.plus (.cls isHexOrBlank))]

def commentChar : Char := ';'

def timeScale : ℚ := 1000

/-- A matched line up to the copy: the message, and the bytes to be copied into it. -/
def fields (qt : Qt) (m : Match) : Option (CanLogMsg × Bytes) := do
  let number ← toInt (m.captured 1)
  let time ← qt.toDouble (m.captured 2)
  let (ok, msg) := { number := number.toUInt32, time := time / timeScale : CanLogMsg }.setDir (m.captured 3)
  guard ok
  let id ← toUInt (m.captured 4) 16
  let dlc ← toUInt (m.captured 5) 10
  guard (dlc.toUInt8.toNat ≤ canMaxDlc)
  return ({ msg with id := id.toUInt32, dlc := dlc.toUInt8, channel := 0 }, dataBytes (m.captured 6))

def accepted (qt : Qt) (line : QString) : Option (CanLogMsg × Bytes) := do
  guard (line.head? ≠ some commentChar)
  let m ← search pattern line
  fields qt m

def parseLine (qt : Qt) (line : QString) : Except Failure (Option CanLogMsg) :=
  if line = [] then .error (.undefined .emptyLine)
  else
    match accepted qt line with
    | none => .ok none
    | some (msg, data) => (copyData msg data).map some

def driver (qt : Qt) : TextDriver Unit where
  start := ()
  parseLine line _ := (parseLine qt line).map fun r => r.map fun msg => (msg, ())

end TrcDriver

namespace AscDriver

/-- `([\d.]+) +([\d]+)? +([0-9A-F]+)x? +(Rx|Tx) +d +([\d]+) +([0-9A-F ]+)` -/
def pattern : Re :=
  .cat [.group 1 (.plus (.cls isDecimal)), blanks, .opt (.group 2 digits), blanks, .group 3 (.plus (.cls isUpperHex)),
    .opt (.char 'x'), blanks, .group 4 direction, blanks, .char 'd', blanks, .group 5 digits, blanks,
    .group 6 (.plus (.cls isHexOrBlank))]

/-- A matched line up to the copy. The channel and the DLC are converted without a look at the
success flag: a number that does not fit counts as 0. -/
def fields (qt : Qt) (number : UInt32) (m : Match) : Option (CanLogMsg × Bytes) := do
  let time ← qt.toDouble (m.captured 1)
  let channel := if m.captured 2 = [] then 0 else (toUInt (m.captured 2) 10).getD 0
  let id ← toULong qt (m.captured 3) 16
  let (ok, msg) := { number := number, time := time, channel := channel.toUInt8, id := id.toUInt32 : CanLogMsg }.setDir
    (m.captured 4)
  guard ok
  let dlc := (toUInt (m.captured 5) 10).getD 0
  guard (dlc.toUInt8.toNat ≤ canMaxDlc)
  return ({ msg with dlc := dlc.toUInt8 }, dataBytes (m.captured 6))

def accepted (qt : Qt) (number : UInt32) (line : QString) : Option (CanLogMsg × Bytes) := do
  let m ← search pattern line
  fields qt number m

def parseLine (qt : Qt) (line : QString) (number : UInt32) : Except Failure (Option CanLogMsg) :=
  match accepted qt number line with
  | none => .ok none
  | some (msg, data) => (copyData msg data).map some

def driver (qt : Qt) : TextDriver UInt32 where
  start := 0
  parseLine line number := (parseLine qt line number).map fun r => r.map fun msg => (msg, number + 1)

end AscDriver

/-! ### Files -/

def getExtension (name : QString) : QString :=
  if '.' ∈ name then (name.reverse.takeWhile (· != '.')).reverse else []

/-- Case folding as far as its results are ASCII: besides the capital letters only the long s and
the Kelvin sign fold to an ASCII letter. -/
def foldCase (c : Char) : Char := if c = '\u017F' then 's' else if c = '\u212A' then 'k' else c.toLower

/-- `QString::compare` with `Qt::CaseInsensitive` is 0, for an ASCII string `t` without capitals. -/
def sameFolded (s t : QString) : Bool := s.map foldCase == t

inductive Format where
  | asc
  | trc
  | blf
  deriving DecidableEq, Repr

def formatOf (name : QString) : Option Format :=
  let extension := getExtension name
  if sameFolded extension "asc".toList then some .asc
  else if sameFolded extension "trc".toList then some .trc
  else if sameFolded extension "blf".toList then some .blf
  else none

/-- `Parser::parse` on a file that could be opened, or `none`. Without a known extension the driver
pointer is null. -/
def Parser.parse (qt : Qt) (fuel : Nat) (name : QString) (file : Option File) :
    Option (Except Failure (List CanLogMsg)) :=
  match formatOf name with
  | some .asc => some ((AscDriver.driver qt).parse file)
  | some .trc => some ((TrcDriver.driver qt).parse file)
  | some .blf =>
    match file with
    | none => some (.error (.runtimeError "Cannot open file"))
    | some file => Blf.parse qt fuel file.bytes
  | none => some (.error (.undefined .nullDriver))

end CanTracer
