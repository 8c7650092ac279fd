import Mathlib.Algebra.Field.Rat
import CanTracer.ByteOrder
import CanTracer.Loop
import CanTracer.CanMsg.Basic

/-!
# The BLF parser

`BlfParser` of `blfparser.cpp`. A `QDataStream` is the list of bytes still to be read; reading
past its end gives zero and leaves it empty.
-/

namespace CanTracer.Blf

def lobj : Bytes := "LOBJ".toList.map (·.toNat.toUInt8)

def logg : Bytes := "LOGG".toList.map (·.toNat.toUInt8)

def signatureSize : Nat := 4
def headerDataSize : Nat := 72
def objHeaderSize : Nat := 16
def containerHeaderSize : Nat := 16
def logContainer : Nat := 10
def noCompress : Nat := 0
def zlibDeflate : Nat := 2
def canMsg : Nat := 1
def canMsg2 : Nat := 86

/-- `in >> x` for a little-endian field of `width` bytes. -/
def read (width : Nat) (s : Bytes) : Nat × Bytes :=
  if width ≤ s.length then (ByteOrder.decode (s.take width), s.drop width) else (0, [])

structure ObjectHeader where
  headerVersion : Nat
  objSize : Nat
  objType : Nat

def ObjectHeader.isCan (header : ObjectHeader) : Prop := header.objType = canMsg ∨ header.objType = canMsg2

instance (header : ObjectHeader) : Decidable header.isCan := inferInstanceAs (Decidable (_ ∨ _))

/-- The fields after the signature, up to the object type. -/
def readHeader (s : Bytes) : ObjectHeader × Bytes :=
  let (_headerSize, s) := read 2 s
  let (headerVersion, s) := read 2 s
  let (objSize, s) := read 4 s
  let (objType, s) := read 4 s
  (⟨headerVersion, objSize, objType⟩, s)

def readStamp (headerVersion : Nat) (s : Bytes) : Nat × Nat × Bytes :=
  let (flags, s) := read 4 s
  let s :=
    if headerVersion = 1 then
      let (_clientIndex, s) := read 2 s
      let (_objectVersion, s) := read 2 s
      s
    else if headerVersion = 2 then
      let (_timestampStatus, s) := read 1 s
      let (_reserved, s) := read 1 s
      let (_objectVersion, s) := read 2 s
      s
    else s
  let (timestamp, s) := read 8 s
  let s := if headerVersion = 2 then (List.range 8).foldl (fun s _ => (read 1 s).2) s else s
  (flags, timestamp, s)

def stampTime (flags timestamp : Nat) : ℚ := (if flags = 1 then 1 / 10 ^ 5 else 1 / 10 ^ 9) * timestamp

def readCan (headerVersion : Nat) (number : UInt32) (s : Bytes) : CanLogMsg :=
  let (flags, timestamp, s) := readStamp headerVersion s
  let (channel, s) := read 2 s
  let (_flags, s) := read 1 s
  let (dlc, s) := read 1 s
  let (id, s) := read 4 s
  { number := number
    time := stampTime flags timestamp
    channel := channel.toUInt8
    dlc := dlc.toUInt8
    id := id.toUInt32 &&& 0x1FFFFFFF
    data := CanData.zero.copy (s.take 8) }

structure State where
  counter : UInt32 := 0
  messages : List CanLogMsg := []
  remain : Bytes := []

def State.append (st : State) (header : ObjectHeader) (s : Bytes) : State :=
  if header.isCan then
    { st with counter := st.counter + 1, messages := st.messages ++ [readCan header.headerVersion st.counter s] }
  else st

/-- `BlfParser::parseObject`: the returned `int` and the state after. -/
def parseObject (bytes : Bytes) (st : State) : Int × State :=
  if bytes.length < 16 then (narrowInt bytes.length, { st with remain := bytes })
  else
    match indexOf lobj bytes with
    | none => (-1, st)
    | some index =>
      let (header, s) := readHeader (bytes.drop (index + 4))
      let nextPos := index + header.objSize
      if nextPos > bytes.length then (narrowInt bytes.length, { st with remain := bytes })
      else
        let st := { st with remain := [] }.append header s
        match indexOfFrom lobj bytes nextPos with
        | some index => (narrowInt index, st)
        | none => (narrowInt (nextPos + nextPos % 4 : Nat), st)

def buffer (containerData : Bytes) (st : State) : Bytes :=
  if st.remain.length ≠ 0 then st.remain ++ containerData else containerData

def innerBody : Bytes × State → Option (Loop.Next (Bytes × State))
  | (containerData, st) =>
    if containerData.length = 0 then some (.stop (containerData, st))
    else
      let bytes := buffer containerData st
      let (ret, st) := parseObject bytes st
      if ret > 0 then some (.next (bytes.drop ret.toNat, st)) else some (.stop (bytes, st))

def innerLoop (fuel : Nat) (containerData : Bytes) (st : State) : Option State :=
  (Loop.run innerBody fuel (containerData, st)).map (·.2)

/-- The four bytes that `qUncompress` expects in front: the size, most significant first. -/
def zlibHeader (uncompressSize : Nat) : Bytes := (ByteOrder.encode 4 uncompressSize).reverse

def containerData (qt : Qt) (objData : Bytes) : Option Bytes :=
  let (method, s) := read 2 objData
  let (uncompressSize, _) := read 4 (s.drop 6)
  let payload := objData.drop containerHeaderSize
  if method = noCompress then some payload
  else if method = zlibDeflate then some (qt.qUncompress (zlibHeader uncompressSize ++ payload))
  else none

/-- `readRawData` with an `int` length: a length that does not fit reads nothing. -/
def readRaw (len : Nat) (s : Bytes) : Bytes × Bytes :=
  if len < 2 ^ 31 then (s.take len, s.drop len) else ([], s)

/-- `objSize - objHeaderSize` in `quint32`. -/
def dataSizeOf (objSize : Nat) : Nat :=
  if objSize < objHeaderSize then objSize + 2 ^ 32 - objHeaderSize else objSize - objHeaderSize

/-- The data of an object, zero where the file ends before it, and the bytes left after the padding. -/
def readData (dataSize : Nat) (s : Bytes) : Bytes × Bytes :=
  let (data, s) := readRaw dataSize s
  (data ++ List.replicate (dataSize - data.length) 0, s.drop (dataSize % 4))

/-- `BlfParser::getObject`: the returned `int`, the bytes left and the state after. -/
def getObject (qt : Qt) (fuel : Nat) (s : Bytes) (st : State) : Option (Int × Bytes × State) :=
  let (signature, s) := readRaw signatureSize s
  if signature ≠ lobj then some (-1, s, st)
  else
    let (_headerSize, s) := read 2 s
    let (_headerVersion, s) := read 2 s
    let (objSize, s) := read 4 s
    let (objType, s) := read 4 s
    let (objData, s) := readData (dataSizeOf objSize) s
    if objType ≠ logContainer then some (0, s, st)
    else
      match containerData qt objData with
      | none => some (0, s, st)
      | some bytes => (innerLoop fuel bytes st).map fun st => (0, s, st)

def outerBody (qt : Qt) (fuel : Nat) : Bytes × State → Option (Loop.Next (Bytes × State))
  | (s, st) =>
    if s.length = 0 then some (.stop (s, st))
    else
      (getObject qt fuel s st).map fun (ret, s, st) => if ret ≠ 0 then .stop (s, st) else .next (s, st)

/-- The fields of the file header after its size: application and log versions, sizes, object
counts and the two times, 64 bytes of which nothing is kept. -/
def fileHeaderRest : Nat := 8 + 8 + 8 + 4 + 4 + 16 + 16

/-- `BlfParser::parse` on the content of a file that could be opened. -/
def parse (qt : Qt) (fuel : Nat) (file : Bytes) : Option (Except Failure (List CanLogMsg)) :=
  let (signature, s) := readRaw signatureSize file
  if signature ≠ logg then some (.error (.runtimeError "Unexpected format"))
  else
    let (headerSize, s) := read 4 s
    let s := s.drop fileHeaderRest
    let skip := narrowInt ((headerSize : Int) - headerDataSize)
    (Loop.run (outerBody qt fuel) fuel (s.drop skip.toNat, {})).map fun (_, st) => .ok st.messages

end CanTracer.Blf
