import CanTracer.Regex.First
import CanTracer.CanMsg.Basic

/-!
# The DBC parser

`DbcParser::parseStream` of `dbcparser.cpp`, with its patterns. A change through the pointer that
`findMessage` or `findSignal` returns is a change of the first element found.
-/

namespace CanTracer.Dbc

open Regex

/-! ### Patterns -/

def isSignedDecimal (c : Char) : Bool := c == '-' || isDecimal c

/-- `BO_\s+(\d+)\s+([\d\w]+):\s+(\d+) ([\d\w]+)` -/
def messagePattern : Re :=
  .cat [.lit "BO_".toList, spaces, .group 1 digits, spaces, .group 2 words, .char ':', spaces, .group 3 digits, .char ' ',
    .group 4 words]

/-- `SG_ (.+) : (\d+)\|(\d+)@(0|1)(\+|\-) \(([\d\.]+),([-\d\.]+)\) \[([-\d\.]+)\|([-\d\.]+)\] "(.*)"\s+([\w\d]*)` -/
def signalPattern : Re :=
  .cat [.lit "SG_ ".toList, .group 1 (.plus (.cls isDot)), .lit " : ".toList, .group 2 digits, .char '|', .group 3 digits,
    .char '@', .group 4 (.alt (.char '0') (.char '1')), .group 5 (.alt (.char '+') (.char '-')), .lit " (".toList,
    .group 6 (.plus (.cls isDecimal)), .char ',', .group 7 (.plus (.cls isSignedDecimal)), .lit ") [".toList,
    .group 8 (.plus (.cls isSignedDecimal)), .char '|', .group 9 (.plus (.cls isSignedDecimal)), .lit "] \"".toList,
    .group 10 (.star true (.cls isDot)), .char '"', spaces, .group 11 (.star true (.cls isWord))]

def pairPattern : Re := .cat [spaces, digits, spaces, .char '"', .star false (.cls isDot), .char '"']

/-- `VAL_\s+(\d+)\s+([\d\w]+)((?:\s+[\d]+\s+".*?")+)\s?;` -/
def valuePattern : Re :=
  .cat [.lit "VAL_".toList, spaces, .group 1 digits, spaces, .group 2 words, .group 3 (.plus pairPattern),
    .opt (.cls isSpace), .char ';']

/-- `\s+([\d]+)\s+"(.*?)"` -/
def valueDecodePattern : Re :=
  .cat [spaces, .group 1 digits, spaces, .char '"', .group 2 (.star false (.cls isDot)), .char '"']

/-! ### The state machine -/

inductive ParseState where
  | idle
  | message
  | signal
  deriving DecidableEq, Repr

structure St where
  state : ParseState := .idle
  message : CanMessage := {}
  db : CanDb := {}

structure Header where
  id : UInt32
  name : QString
  dlc : UInt8
  sender : QString
  deriving DecidableEq

/-- A matched `BO_` line. The fields are assigned one after the other, and a conversion that fails
leaves those before it. -/
def readMessage (qt : Qt) (m : Match) (st : St) : St :=
  match toULong qt (m.captured 1) 10 with
  | none => { st with state := .idle }
  | some id =>
    let message := { st.message with id := removeExtMask id, name := m.captured 2 }
    match toShort (m.captured 3) with
    | none => { st with state := .idle, message := { message with dlc := 0 } }
    | some dlc => { st with state := .message, message := { message with dlc := dlc.toUInt8, sender := m.captured 4 } }

/-- The pairs of a value table; a key without a `double` is passed over. -/
def readPairs (qt : Qt) (text : QString) : List (ℚ × QString) :=
  (searchAll valueDecodePattern text.length text).filterMap fun m =>
    (qt.toDouble (m.captured 1)).map fun key => (key, m.captured 2)

def readValues (qt : Qt) (m : Match) (db : CanDb) : CanDb :=
  match toULong qt (m.captured 1) 10 with
  | none => db
  | some id =>
    db.modifyMessage (removeExtMask id) fun msg =>
      msg.modifySignal (m.captured 2) fun signal =>
        (readPairs qt (m.captured 3)).foldl CanSignal.addValuePair signal

def readSignal (qt : Qt) (m : Match) : Option CanSignal := do
  let startBit ← toUInt (m.captured 2) 10
  let len ← toUInt (m.captured 3) 10
  let endian ← toUInt (m.captured 4) 10
  let scale ← qt.toDouble (m.captured 6)
  let offset ← qt.toDouble (m.captured 7)
  let min ← qt.toDouble (m.captured 8)
  let max ← qt.toDouble (m.captured 9)
  return { name := m.captured 1
           startBit := startBit.toUInt8
           len := len.toUInt8
           isBigEndian := endian == 0
           isSigned := m.captured 5 == "-".toList
           scale := scale
           offset := offset
           min := min
           max := max
           unit := m.captured 10
           receiver := m.captured 11 }

def step (qt : Qt) (st : St) (line : QString) : St :=
  match st.state with
  | .idle =>
    match search messagePattern line with
    | some m => readMessage qt m st
    | none =>
      match search valuePattern line with
      | some m => { st with db := readValues qt m st.db }
      | none => st
  | .message =>
    match search signalPattern line with
    | some m =>
      match readSignal qt m with
      | some signal => { st with message := st.message.addCanSignal signal }
      | none => { st with state := .idle }
    | none => { state := .idle, message := {}, db := st.db.addMessage st.message }
  | .signal => st

def finish (st : St) : CanDb := if st.state = .message then st.db.addMessage st.message else st.db

def parseLines (qt : Qt) (lines : List QString) (db : CanDb) : CanDb := finish (lines.foldl (step qt) { db := db })

def parseStream (qt : Qt) (text : QString) (db : CanDb) : CanDb := parseLines qt (readLines text) db

/-! ### Files -/

/-- The text of a file, `none` when the file cannot be opened. -/
def parseFile (qt : Qt) (file : Option QString) (db : CanDb) : CanDb :=
  match file with
  | none => db
  | some text => parseStream qt text db

def parse (qt : Qt) (files : List (Option QString)) : CanDb := files.foldl (fun db file => parseFile qt file db) {}

end CanTracer.Dbc
