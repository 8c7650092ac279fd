import CanTracer.Blf.Basic

/-!
# Objects of a BLF stream

What `parseObject` does with a buffer that starts, after some zero bytes of padding, with a
well-formed object.
-/

namespace CanTracer.Blf

/-! ### Fields by offset -/

/-- The little-endian field of `width` bytes at `offset`, zero when it does not fit. -/
def field (offset width : Nat) (s : Bytes) : Nat := (read width (s.drop offset)).1

theorem read_snd (width : Nat) (s : Bytes) : (read width s).2 = s.drop width := by
  unfold read
  split
  · rfl
  · exact (List.drop_eq_nil_of_le (by omega)).symm

theorem field_eq {offset width : Nat} {s : Bytes} (h : offset + width ≤ s.length) :
    field offset width s = ByteOrder.decode ((s.drop offset).take width) := by
  rw [field, read, if_pos (by rw [List.length_drop]; omega)]

theorem field_append {offset width : Nat} {s : Bytes} (h : offset + width ≤ s.length) (post : Bytes) :
    field offset width (s ++ post) = field offset width s := by
  have longer : offset + width ≤ (s ++ post).length := by rw [List.length_append]; omega
  have inside : width ≤ (s.drop offset).length := by rw [List.length_drop]; omega
  rw [field_eq h, field_eq longer, List.drop_append_of_le_length (by omega), List.take_append_of_le_length inside]

theorem field_drop (offset width n : Nat) (s : Bytes) :
    field offset width (s.drop n) = field (n + offset) width s := by
  rw [field, field, List.drop_drop]

theorem readHeader_eq (s : Bytes) :
    readHeader s = ({ headerVersion := field 2 2 s, objSize := field 4 4 s, objType := field 8 4 s }, s.drop 12) := by
  simp only [readHeader, field, read_snd, List.drop_drop]

def stampOffset (headerVersion : Nat) : Nat := if headerVersion = 1 ∨ headerVersion = 2 then 8 else 4

def stampEnd (headerVersion : Nat) : Nat := if headerVersion = 1 then 16 else if headerVersion = 2 then 24 else 12

theorem foldl_read_one (n : Nat) (s : Bytes) :
    (List.range n).foldl (fun s _ => (read 1 s).2) s = s.drop n := by
  induction n with
  | zero => rfl
  | succ n ih => rw [List.range_succ, List.foldl_append, ih, List.foldl_cons, List.foldl_nil, read_snd, List.drop_drop]

theorem readStamp_eq (headerVersion : Nat) (s : Bytes) :
    readStamp headerVersion s =
      (field 0 4 s, field (stampOffset headerVersion) 8 s, s.drop (stampEnd headerVersion)) := by
  unfold readStamp stampOffset stampEnd
  by_cases one : headerVersion = 1
  · subst one
    simp [field, read_snd]
  · by_cases two : headerVersion = 2
    · subst two
      simp only [foldl_read_one]
      simp [field, read_snd]
    · simp [field, read_snd, one, two]

theorem readCan_eq (headerVersion : Nat) (number : UInt32) (s : Bytes) :
    readCan headerVersion number s =
      { number := number
        time := stampTime (field 0 4 s) (field (stampOffset headerVersion) 8 s)
        channel := (field (stampEnd headerVersion) 2 s).toUInt8
        dlc := (field (stampEnd headerVersion + 3) 1 s).toUInt8
        id := (field (stampEnd headerVersion + 4) 4 s).toUInt32 &&& 0x1FFFFFFF
        data := CanData.zero.copy ((s.drop (stampEnd headerVersion + 8)).take 8) } := by
  simp only [readCan, readStamp_eq, field, read_snd, List.drop_drop, Nat.add_assoc, Nat.reduceAdd]

def canSize : Nat := 16

theorem readCan_append {headerVersion : Nat} {s : Bytes} (h : stampEnd headerVersion + canSize ≤ s.length)
    (number : UInt32) (post : Bytes) :
    readCan headerVersion number (s ++ post) = readCan headerVersion number s := by
  have stamp : stampOffset headerVersion + 8 ≤ stampEnd headerVersion := by
    unfold stampOffset stampEnd
    split_ifs <;> omega
  unfold canSize at h
  have data : ((s ++ post).drop (stampEnd headerVersion + 8)).take 8 = (s.drop (stampEnd headerVersion + 8)).take 8 := by
    rw [List.drop_append_of_le_length (by omega), List.take_append_of_le_length (by rw [List.length_drop]; omega)]
  rw [readCan_eq, readCan_eq, data, field_append (by omega), field_append (by omega), field_append (by omega),
    field_append (by omega), field_append (by omega)]

/-! ### Objects -/

/-- The header fields of an object, its signature included in `bytes`. -/
def headerOf (bytes : Bytes) : ObjectHeader :=
  { headerVersion := field 6 2 bytes, objSize := field 8 4 bytes, objType := field 12 4 bytes }

/-- A well-formed object: it starts with its signature, states its own size and, when it is a CAN
object, has room for the fields of one. -/
structure Object where
  bytes : Bytes
  signature : lobj <+: bytes
  sizeStated : (headerOf bytes).objSize = bytes.length
  headerFits : objHeaderSize ≤ bytes.length
  fieldsFit : (headerOf bytes).isCan → 16 + (stampEnd (headerOf bytes).headerVersion + canSize) ≤ bytes.length

namespace Object

def header (o : Object) : ObjectHeader := headerOf o.bytes

def size (o : Object) : Nat := o.bytes.length

def padding (o : Object) : Nat := o.size % 4

theorem sixteen_le_size (o : Object) : 16 ≤ o.size := o.headerFits

theorem padding_le (o : Object) : o.padding ≤ 3 := by
  unfold padding
  omega

def message (o : Object) (number : UInt32) : Option CanLogMsg :=
  if o.header.isCan then some (readCan o.header.headerVersion number (o.bytes.drop 16)) else none

def record (o : Object) (st : State) : State :=
  match o.message st.counter with
  | some msg => { st with counter := st.counter + 1, messages := st.messages ++ [msg] }
  | none => st

end Object

def decodeAll : List Object → UInt32 → List CanLogMsg
  | [], _ => []
  | o :: os, counter =>
    match o.message counter with
    | some msg => msg :: decodeAll os (counter + 1)
    | none => decodeAll os counter

theorem Object.record_remain (o : Object) (st : State) : (o.record st).remain = st.remain := by
  unfold record
  split <;> rfl

theorem record_decodeAll (o : Object) (os : List Object) (st : State) :
    (o.record st).messages ++ decodeAll os (o.record st).counter = st.messages ++ decodeAll (o :: os) st.counter := by
  cases h : o.message st.counter with
  | some msg =>
    simp only [Object.record, decodeAll, h]
    exact List.append_assoc _ _ _
  | none => simp only [Object.record, decodeAll, h]

/-! ### Finding a signature -/

def zeros (n : Nat) : Bytes := List.replicate n 0

theorem zeros_length (n : Nat) : (zeros n).length = n := List.length_replicate

theorem drop_zeros (n : Nat) (s : Bytes) : (zeros n ++ s).drop n = s := List.drop_left' (zeros_length n)

theorem indexOf_short {pattern s : Bytes} (h : s.length < pattern.length) : indexOf pattern s = none := by
  induction s with
  | nil => exact if_neg fun e => by simp [e] at h
  | cons b s ih =>
    rw [List.length_cons] at h
    rw [indexOf, if_neg fun hp => by have := hp.length_le; rw [List.length_cons] at this; omega, ih (by omega)]
    rfl

theorem indexOf_padding {t : Bytes} (ht : t = [] ∨ lobj <+: t) (p : Nat) {s : Bytes}
    (hs : s <+: zeros p ++ t) :
    indexOf lobj s = if p + 4 ≤ s.length then some p else none := by
  induction p generalizing s with
  | zero =>
    change s <+: t at hs
    split
    · rename_i long
      rcases ht with rfl | ht
      · rw [List.prefix_nil.mp hs] at long
        exact absurd long (by decide)
      · obtain ⟨rest, rfl⟩ : lobj <+: s := List.prefix_of_prefix_length_le ht hs (by change 4 ≤ _; omega)
        exact if_pos (List.prefix_append lobj rest)
    · exact indexOf_short (by change s.length < 4; omega)
  | succ p ih =>
    cases s with
    | nil => exact (if_neg (by simp)).symm
    | cons b s =>
      obtain ⟨rfl, tail⟩ := List.cons_prefix_cons.mp hs
      have other : ¬ lobj <+: (0 : UInt8) :: s := fun h => absurd (List.cons_prefix_cons.mp h).1 (by decide)
      rw [indexOf, if_neg other, ih tail, List.length_cons]
      split_ifs <;> first | rfl | omega

/-! ### One call of `parseObject` -/

theorem parseObject_short {b : Bytes} (h : b.length < 16) (st : State) :
    parseObject b st = (narrowInt b.length, { st with remain := b }) := by
  rw [parseObject, if_pos h]

theorem Object.signature_append (o : Object) (post : Bytes) : lobj <+: o.bytes ++ post :=
  o.signature.trans (List.prefix_append _ _)

theorem field_object {o : Object} {p offset width : Nat} {b post : Bytes}
    (hb : b <+: zeros p ++ (o.bytes ++ post))
    (inBuffer : p + offset + width ≤ b.length) (inObject : offset + width ≤ o.bytes.length) :
    field (p + offset) width b = field offset width o.bytes := by
  obtain ⟨future, h⟩ := hb
  rw [← field_append inBuffer future, h, ← field_drop, drop_zeros, field_append inObject]

theorem parseObject_incomplete {o : Object} {p : Nat} (hp : p ≤ 3) {b post : Bytes}
    (hb : b <+: zeros p ++ (o.bytes ++ post)) (short : b.length < p + o.size) (st : State) :
    parseObject b st = (narrowInt b.length, { st with remain := b }) := by
  by_cases few : b.length < 16
  · exact parseObject_short few st
  · have found : indexOf lobj b = some p := by
      rw [indexOf_padding (.inr (o.signature_append post)) p hb, if_pos (by omega)]
    have stated : field 4 4 (b.drop (p + 4)) = o.size := by
      have := o.sixteen_le_size
      rw [field_drop, Nat.add_assoc, field_object hb (by omega) (by unfold Object.size at this; omega)]
      exact o.sizeStated
    rw [parseObject, if_neg few, found]
    simp only [readHeader_eq, stated]
    rw [if_pos short]

theorem parseObject_complete (o : Object) {p : Nat} (hp : p ≤ 3) (rest : Bytes) (st : State) :
    parseObject (zeros p ++ (o.bytes ++ rest)) st =
      match indexOf lobj rest with
      | some k => (narrowInt (p + o.size + k : Nat), o.record { st with remain := [] })
      | none => (narrowInt (p + o.size + (p + o.size) % 4 : Nat), o.record { st with remain := [] }) := by
  have sixteen := o.sixteen_le_size
  have whole : (zeros p ++ (o.bytes ++ rest)).length = p + (o.size + rest.length) := by
    rw [List.length_append, List.length_append, zeros_length, Object.size]
  have found : indexOf lobj (zeros p ++ (o.bytes ++ rest)) = some p := by
    rw [indexOf_padding (.inr (o.signature_append rest)) p (List.prefix_rfl), if_pos (by omega)]
  have header : readHeader ((zeros p ++ (o.bytes ++ rest)).drop (p + 4)) = (o.header, o.bytes.drop 16 ++ rest) := by
    unfold Object.size at sixteen
    rw [readHeader_eq, ← List.drop_drop, drop_zeros, List.drop_drop, field_drop, field_drop, field_drop,
      field_append (by omega), field_append (by omega), field_append (by omega),
      List.drop_append_of_le_length (by omega)]
    rfl
  have size : o.header.objSize = o.size := o.sizeStated
  have next : (zeros p ++ (o.bytes ++ rest)).drop (p + o.size) = rest := by
    rw [← List.drop_drop, drop_zeros]
    exact List.drop_left' rfl
  have appended : ({ st with remain := [] } : State).append o.header (o.bytes.drop 16 ++ rest) =
      o.record { st with remain := [] } := by
    unfold State.append Object.record Object.message
    split
    · rename_i can
      have fits := o.fieldsFit can
      rw [readCan_append (by rw [List.length_drop]; exact Nat.le_sub_of_add_le' fits)]
    · rfl
  rw [parseObject, if_neg (by omega), found]
  simp only [header, size, appended]
  rw [if_neg (by omega), indexOfFrom, next]
  cases indexOf lobj rest <;> rfl

end CanTracer.Blf
