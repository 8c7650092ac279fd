import CanTracer.LogParser.Columns

/-!
# The layouts of text logs

The line of a frame as the header comment of `TrcDriver` lays it out, and the line of a frame in
an ASC log, with any number of blanks between the columns. A column keeps the proof that it can be
read.
-/

namespace CanTracer

open Regex

/-! ### Columns -/

/-- The digits of a number of at most `max`, with leading zeros or without. -/
structure Written (digit : Char → Bool) (base max : Nat) where
  text : QString
  nonempty : text ≠ []
  chars : ∀ c ∈ text, digit c = true
  bounded : numeral base text ≤ max

def Written.value {digit : Char → Bool} {base max : Nat} (w : Written digit base max) : Nat := numeral base w.text

/-- A plain unsigned decimal that `toDouble` converts. -/
structure WrittenTime (qt : Qt) where
  text : QString
  plain : (unsignedDecimal text).isSome
  reads : (qt.toDouble text).isSome

def gap (n : Nat) : QString := List.replicate (n + 1) ' '

def hexDigit (n : Nat) : Char := if n < 10 then Char.ofNat ('0'.toNat + n) else Char.ofNat ('A'.toNat + (n - 10))

def hexByte (b : UInt8) : QString := [hexDigit (b.toNat / 16), hexDigit (b.toNat % 16)]

def bytesText : Bytes → QString
  | [] => []
  | b :: bytes => hexByte b ++ bytes.flatMap fun b => ' ' :: hexByte b

/-! ### Lines -/

/-- What both layouts hold of a frame. -/
structure Frame where
  id : Written isUpperHex 16 0x1FFFFFFF
  sent : Bool
  dlc : Written isDigit 10 canMaxDlc
  bytes : Bytes
  nonempty : bytes ≠ []
  length : bytes.length = dlc.value

def Frame.direction (f : Frame) : QString := if f.sent then "Tx".toList else "Rx".toList

structure TrcFrame (qt : Qt) extends Frame where
  number : Written isDigit 10 (2 ^ 31 - 1)
  time : WrittenTime qt
  indent : Nat
  gaps : Vector Nat 5

def TrcFrame.text {qt : Qt} (f : TrcFrame qt) : QString :=
  [f.number.text, [')'], gap f.gaps[0], f.time.text, gap f.gaps[1], f.direction, gap f.gaps[2], f.id.text, gap f.gaps[3],
    f.dlc.text, gap f.gaps[4], bytesText f.bytes].flatten

def TrcFrame.line {qt : Qt} (f : TrcFrame qt) : QString := List.replicate f.indent ' ' ++ f.text

/-- What may stand behind the data of an ASC line. -/
structure Trailer where
  head : Char
  tail : QString
  notData : isHexOrBlank head = false

structure AscFrame (qt : Qt) extends Frame where
  time : WrittenTime qt
  channel : Option (Written isDigit 10 255)
  suffix : Bool
  trailer : Option Trailer
  indent : Nat
  gaps : Vector Nat 6

namespace AscFrame

variable {qt : Qt}

def channelText (f : AscFrame qt) : QString := f.channel.elim [] (·.text)

def channelValue (f : AscFrame qt) : Nat := f.channel.elim 0 (·.value)

def suffixText (f : AscFrame qt) : QString := if f.suffix then ['x'] else []

def trailerText (f : AscFrame qt) : QString := f.trailer.elim [] fun t => ' ' :: t.head :: t.tail

/-- The columns from the identifier to the data. -/
def lead (f : AscFrame qt) : QString :=
  [f.id.text, f.suffixText, gap f.gaps[2], f.direction, gap f.gaps[3], ['d'], gap f.gaps[4], f.dlc.text,
    gap f.gaps[5]].flatten

def idText (f : AscFrame qt) : QString := f.lead ++ (bytesText f.bytes ++ f.trailerText)

/-- Without a channel its two gaps stand side by side. -/
def text (f : AscFrame qt) : QString :=
  [f.time.text, gap f.gaps[0], f.channelText, gap f.gaps[1], f.idText].flatten

def line (f : AscFrame qt) : QString := List.replicate f.indent ' ' ++ f.text

end AscFrame

/-! ### Logs -/

/-- A line of a log: a frame, or a line that the driver passes over. -/
inductive Entry (F : Type) (Noise : QString → Prop) where
  | frame (f : F)
  | noise (line : QString) (h : Noise line)

namespace Entry

variable {F : Type} {Noise : QString → Prop}

def line (text : F → QString) : Entry F Noise → QString
  | .frame f => text f
  | .noise line _ => line

def frame? : Entry F Noise → Option F
  | .frame f => some f
  | .noise _ _ => none

end Entry

def frames {F : Type} {Noise : QString → Prop} (entries : List (Entry F Noise)) : List F := entries.filterMap Entry.frame?

def TrcDriver.Noise (line : QString) : Prop :=
  line ≠ [] ∧ (line.head? = some commentChar ∨ search pattern line = none)

def AscDriver.Noise (line : QString) : Prop := search pattern line = none

/-- The message holds the frame, apart from direction and time. -/
structure Frame.ReadAs (f : Frame) (number channel : Nat) (msg : CanLogMsg) : Prop where
  number : msg.number = number.toUInt32
  channel : msg.channel.toNat = channel
  id : msg.id.toNat = f.id.value
  dlc : msg.dlc.toNat = f.dlc.value
  data : msg.data.toList = f.bytes ++ List.replicate (canMaxDlc - f.bytes.length) 0

/-! ### Columns read back -/

theorem digitValue_hexDigit {n : Nat} (h : n < 16) : digitValue (hexDigit n) = some n := by
  have all : ∀ n < 16, digitValue (hexDigit n) = some n := by decide
  exact all n h

theorem isUpperHex_hexDigit {n : Nat} (h : n < 16) : isUpperHex (hexDigit n) = true := by
  have all : ∀ n < 16, isUpperHex (hexDigit n) = true := by decide
  exact all n h

theorem hexPairs_bytes (bytes : Bytes) :
    hexPairs (bytes.flatMap fun b => [b.toNat / 16, b.toNat % 16]) = bytes := by
  induction bytes with
  | nil => rfl
  | cons b bytes ih =>
    have whole : 16 * (b.toNat / 16) + b.toNat % 16 = b.toNat := Nat.div_add_mod b.toNat 16
    rw [List.flatMap_cons, List.cons_append, List.cons_append, List.nil_append, hexPairs, ih, whole, Nat.toUInt8_eq,
      UInt8.ofNat_toNat]

theorem filterMap_hexByte (b : UInt8) :
    (hexByte b).filterMap digitValue = [b.toNat / 16, b.toNat % 16] := by
  have lt := b.toNat_lt
  simp [hexByte, digitValue_hexDigit (n := b.toNat / 16) (by omega), digitValue_hexDigit (n := b.toNat % 16) (by omega)]

theorem fromHex_hexBytes (bytes : Bytes) : fromHex (bytes.flatMap hexByte) = bytes := by
  have digits : (bytes.flatMap hexByte).filterMap digitValue = bytes.flatMap fun b => [b.toNat / 16, b.toNat % 16] := by
    rw [List.filterMap_flatMap]
    exact List.flatMap_congr fun b _ => filterMap_hexByte b
  have twice : (bytes.flatMap fun b => [b.toNat / 16, b.toNat % 16]).length = 2 * bytes.length := by
    simp [List.length_flatMap, Nat.mul_comm]
  unfold fromHex
  dsimp only
  rw [digits, if_neg (by omega), hexPairs_bytes]

theorem hexByte_chars (b : UInt8) : ∀ c ∈ hexByte b, isUpperHex c = true := by
  have lt := b.toNat_lt
  simp [hexByte, isUpperHex_hexDigit (n := b.toNat / 16) (by omega), isUpperHex_hexDigit (n := b.toNat % 16) (by omega)]

theorem not_blank_of_isUpperHex {c : Char} (h : isUpperHex c = true) : c ≠ ' ' := by
  rintro rfl
  exact absurd h (by decide)

theorem filter_hexByte (b : UInt8) : (hexByte b).filter (· != ' ') = hexByte b :=
  List.filter_eq_self.mpr fun c hc => bne_iff_ne.mpr (not_blank_of_isUpperHex (hexByte_chars b c hc))

theorem filter_bytesText (bytes : Bytes) : (bytesText bytes).filter (· != ' ') = bytes.flatMap hexByte := by
  cases bytes with
  | nil => rfl
  | cons b bytes =>
    have rest : (bytes.flatMap fun b => ' ' :: hexByte b).filter (· != ' ') = bytes.flatMap hexByte := by
      rw [List.filter_flatMap]
      exact List.flatMap_congr fun b _ => by rw [List.filter_cons_of_neg (by simp), filter_hexByte]
    rw [bytesText, List.filter_append, filter_hexByte, rest, List.flatMap_cons]

theorem dataBytes_bytesText (bytes : Bytes) (blank : QString) (h : ∀ c ∈ blank, c = ' ') :
    dataBytes (bytesText bytes ++ blank) = bytes := by
  have nothing : blank.filter (· != ' ') = [] := List.filter_eq_nil_iff.mpr fun c hc => by simp [h c hc]
  rw [dataBytes, List.filter_append, nothing, List.append_nil, filter_bytesText, fromHex_hexBytes]

theorem bytesText_chars (bytes : Bytes) : ∀ c ∈ bytesText bytes, isHexOrBlank c = true := by
  have byte (b : UInt8) : ∀ c ∈ hexByte b, isHexOrBlank c = true := fun c hc => by
    rw [isHexOrBlank, hexByte_chars b c hc, Bool.true_or]
  have blank : isHexOrBlank ' ' = true := by decide
  cases bytes with
  | nil => nofun
  | cons b bytes =>
    refine List.forall_mem_append.mpr ⟨byte b, fun c hc => ?_⟩
    obtain ⟨b', -, hc⟩ := List.mem_flatMap.mp hc
    rcases List.mem_cons.mp hc with rfl | hc
    · exact blank
    · exact byte b' c hc

theorem bytesText_ne_nil {bytes : Bytes} (pos : bytes ≠ []) : bytesText bytes ≠ [] := by
  obtain ⟨b, bytes, rfl⟩ := List.exists_cons_of_ne_nil pos
  exact List.cons_ne_nil _ _

theorem head_bytesText {bytes : Bytes} (pos : bytes ≠ []) (t : QString) :
    ∀ c ∈ (bytesText bytes ++ t).head?, isUpperHex c = true := by
  obtain ⟨b, bytes, rfl⟩ := List.exists_cons_of_ne_nil pos
  intro c hc
  exact hexByte_chars b c (List.mem_of_mem_head? hc)

theorem unsignedDecimal_chars {s : QString} (h : (unsignedDecimal s).isSome) :
    s ≠ [] ∧ ∀ c ∈ s, isDecimal c = true := by
  have split := List.takeWhile_append_dropWhile (p := isDigit) (l := s)
  have decimal {c : Char} (digit : isDigit c = true) : isDecimal c = true := by rw [isDecimal, digit, Bool.true_or]
  have whole : ∀ c ∈ s.takeWhile isDigit, isDecimal c = true :=
    fun c hc => decimal (List.all_eq_true.mp List.all_takeWhile c hc)
  unfold unsignedDecimal at h
  dsimp only at h
  cases rest : s.dropWhile isDigit with
  | nil =>
    rw [rest, List.append_nil] at split
    rw [rest, ← split] at h
    rw [split] at whole
    refine ⟨?_, whole⟩
    rintro rfl
    cases h
  | cons point fraction =>
    rw [rest] at split h
    dsimp only at h
    split at h
    · rename_i shape
      obtain ⟨rfl, digits, -⟩ := shape
      rw [← split]
      refine ⟨by simp, List.forall_mem_append.mpr ⟨whole, List.forall_mem_cons.mpr ⟨by decide, fun c hc => ?_⟩⟩⟩
      exact decimal (List.all_eq_true.mp digits c hc)
    · cases h

end CanTracer
