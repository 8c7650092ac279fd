import CanTracer.Blf.Containers

/-!
# BLF round trip

CAN frames written as objects, cut into containers and put behind a file header are read back.
-/

namespace CanTracer.Blf

open ByteOrder (encode)

/-! ### Fields of a concatenation -/

theorem field_skip {offset : Nat} {a : Bytes} (h : a.length ≤ offset) (width : Nat) (s : Bytes) :
    field offset width (a ++ s) = field (offset - a.length) width s := by
  rw [field, List.drop_append, List.drop_eq_nil_of_le h, List.nil_append, field]

theorem read_encode {width n : Nat} (h : n < 256 ^ width) (s : Bytes) :
    read width (encode width n ++ s) = (n, s) := by
  have fits : width ≤ (encode width n ++ s).length := by rw [List.length_append, ByteOrder.encode_length]; omega
  rw [read, if_pos fits, List.take_left' (ByteOrder.encode_length _ _), List.drop_left' (ByteOrder.encode_length _ _),
    ByteOrder.decode_encode _ _ h]

theorem readRaw_append {a : Bytes} {n : Nat} (length : a.length = n) (h : n < 2 ^ 31) (s : Bytes) :
    readRaw n (a ++ s) = (a, s) := by
  rw [readRaw, if_pos h, List.take_left' length, List.drop_left' length]

theorem field_encode {width n : Nat} (h : n < 256 ^ width) (s : Bytes) :
    field 0 width (encode width n ++ s) = n := by
  rw [field, List.drop_zero, read_encode h]

theorem copy_toList (data : CanData) : CanData.zero.copy data.toList = data := by
  apply Vector.ext
  intro i hi
  have bound : i < data.toList.length := by rw [Vector.length_toList]; exact hi
  rw [CanData.copy, Vector.getElem_ofFn, List.getElem?_eq_getElem bound]
  exact Vector.getElem_toList _

/-! ### Frames -/

structure Frame where
  message2 : Bool
  version2 : Bool
  flags : UInt32
  reserved : UInt32
  timestamp : UInt64
  originalTimestamp : UInt64
  channel : UInt8
  canFlags : UInt8
  dlc : UInt8
  id : UInt32
  data : CanData
  rest : Bytes
  aligned : rest.length % 4 = 0
  fits : rest.length < 2 ^ 30

namespace Frame

def objType (f : Frame) : Nat := if f.message2 then canMsg2 else canMsg

def headerVersion (f : Frame) : Nat := if f.version2 then 2 else 1

def headerSize (f : Frame) : Nat := if f.version2 then 40 else 32

def objSize (f : Frame) : Nat := f.headerSize + canSize + f.rest.length

def stamp (f : Frame) : Bytes :=
  encode 4 f.flags.toNat ++ (encode 4 f.reserved.toNat ++ (encode 8 f.timestamp.toNat ++
    if f.version2 then encode 8 f.originalTimestamp.toNat else []))

def can (f : Frame) : Bytes :=
  encode 2 f.channel.toNat ++ (encode 1 f.canFlags.toNat ++ (encode 1 f.dlc.toNat ++ (encode 4 f.id.toNat ++
    (f.data.toList ++ f.rest))))

def bytes (f : Frame) : Bytes :=
  lobj ++ (encode 2 f.headerSize ++ (encode 2 f.headerVersion ++ (encode 4 f.objSize ++ (encode 4 f.objType ++
    (f.stamp ++ f.can)))))

def message (f : Frame) (number : UInt32) : CanLogMsg :=
  { number := number
    id := f.id &&& 0x1FFFFFFF
    time := (if f.flags = 1 then 1 / 10 ^ 5 else 1 / 10 ^ 9) * f.timestamp.toNat
    channel := f.channel
    dlc := f.dlc
    data := f.data }

theorem stamp_length (f : Frame) : f.stamp.length = stampEnd f.headerVersion := by
  unfold stamp headerVersion stampEnd
  cases f.version2 <;> simp

theorem can_length (f : Frame) : f.can.length = canSize + f.rest.length := by
  simp only [can, canSize, List.length_append, ByteOrder.encode_length, Vector.length_toList, canMaxDlc]
  omega

theorem headerSize_eq (f : Frame) : f.headerSize = 16 + stampEnd f.headerVersion := by
  unfold headerSize headerVersion stampEnd
  cases f.version2 <;> rfl

theorem bytes_length (f : Frame) : f.bytes.length = f.objSize := by
  have signature : lobj.length = 4 := rfl
  simp only [bytes, List.length_append, ByteOrder.encode_length, stamp_length, can_length, signature, objSize,
    headerSize_eq]
  omega

theorem objSize_lt (f : Frame) : f.objSize < 2 ^ 31 := by
  have := f.fits
  unfold objSize headerSize canSize
  split <;> omega

theorem drop_bytes (f : Frame) : f.bytes.drop 16 = f.stamp ++ f.can := by
  have front : f.bytes = (lobj ++ (encode 2 f.headerSize ++ (encode 2 f.headerVersion ++ (encode 4 f.objSize ++
      encode 4 f.objType)))) ++ (f.stamp ++ f.can) := by
    simp only [bytes, List.append_assoc]
  rw [front]
  exact List.drop_left' (by simp only [List.length_append, ByteOrder.encode_length]; rfl)

theorem headerOf_bytes (f : Frame) :
    headerOf f.bytes = { headerVersion := f.headerVersion, objSize := f.objSize, objType := f.objType } := by
  have signature : lobj.length = 4 := rfl
  have version : f.headerVersion < 256 ^ 2 := by unfold headerVersion; split <;> decide
  have type : f.objType < 256 ^ 4 := by unfold objType; split <;> decide
  have size : f.objSize < 256 ^ 4 := Nat.lt_trans f.objSize_lt (by decide)
  simp (disch := simp [signature]) only [headerOf, bytes, field_skip, signature, ByteOrder.encode_length, Nat.reduceSub,
    field_encode version, field_encode size, field_encode type]

def object (f : Frame) : Object where
  bytes := f.bytes
  signature := List.prefix_append _ _
  sizeStated := by rw [headerOf_bytes, bytes_length]
  headerFits := by
    rw [bytes_length, objSize, headerSize_eq, Nat.add_assoc, Nat.add_assoc]
    exact Nat.le_add_right _ _
  fieldsFit := by
    intro _
    rw [headerOf_bytes, bytes_length, objSize, headerSize_eq]
    change 16 + (stampEnd f.headerVersion + canSize) ≤ _
    omega

theorem object_isCan (f : Frame) : f.object.header.isCan := by
  rw [Object.header, object, headerOf_bytes, ObjectHeader.isCan, objType]
  cases f.message2
  · exact .inl rfl
  · exact .inr rfl

theorem object_size (f : Frame) : f.object.size = f.objSize := f.bytes_length

theorem object_padding (f : Frame) : f.object.padding = 0 := by
  have := f.aligned
  rw [Object.padding, object_size, objSize, headerSize, canSize]
  split <;> omega

theorem readCan_stamp (f : Frame) (number : UInt32) :
    readCan f.headerVersion number (f.stamp ++ f.can) = f.message number := by
  have offset : stampOffset f.headerVersion = 8 := by
    unfold stampOffset headerVersion
    cases f.version2 <;> rfl
  have flags : field 0 4 (f.stamp ++ f.can) = f.flags.toNat := by
    rw [stamp, List.append_assoc, field_encode f.flags.toNat_lt]
  have timestamp : field 8 8 (f.stamp ++ f.can) = f.timestamp.toNat := by
    have fits : f.timestamp.toNat < 256 ^ 8 := f.timestamp.toNat_lt
    simp (disch := simp) only [stamp, List.append_assoc, field_skip, ByteOrder.encode_length, Nat.reduceSub,
      field_encode fits]
  have behind (offset width : Nat) :
      field (stampEnd f.headerVersion + offset) width (f.stamp ++ f.can) = field offset width f.can := by
    rw [field_skip (by rw [stamp_length]; omega), stamp_length, Nat.add_sub_cancel_left]
  have channel : field 0 2 f.can = f.channel.toNat := field_encode (Nat.lt_trans f.channel.toNat_lt (by decide)) _
  have dlc : field 3 1 f.can = f.dlc.toNat := by
    have fits : f.dlc.toNat < 256 ^ 1 := f.dlc.toNat_lt
    simp (disch := simp) only [can, field_skip, ByteOrder.encode_length, Nat.reduceSub, field_encode fits]
  have id : field 4 4 f.can = f.id.toNat := by
    have fits : f.id.toNat < 256 ^ 4 := f.id.toNat_lt
    simp (disch := simp) only [can, field_skip, ByteOrder.encode_length, Nat.reduceSub, field_encode fits]
  have data : ((f.stamp ++ f.can).drop (stampEnd f.headerVersion + 8)).take 8 = f.data.toList := by
    have front : f.can = (encode 2 f.channel.toNat ++ (encode 1 f.canFlags.toNat ++ (encode 1 f.dlc.toNat ++
        encode 4 f.id.toNat))) ++ (f.data.toList ++ f.rest) := by
      simp only [can, List.append_assoc]
    rw [← List.drop_drop, ← stamp_length, List.drop_left, front,
      List.drop_left' (by simp only [List.length_append, ByteOrder.encode_length]),
      List.take_left' Vector.length_toList]
  have first := behind 0 2
  rw [Nat.add_zero] at first
  rw [readCan_eq, offset, flags, timestamp, first, channel, behind 3, dlc, behind 4, id, data, copy_toList, message,
    stampTime]
  simp [← UInt32.toNat_inj]

theorem object_message (f : Frame) (number : UInt32) :
    f.object.message number = some (f.message number) := by
  rw [Object.message, if_pos f.object_isCan, Object.header]
  change some (readCan (headerOf f.bytes).headerVersion number (f.bytes.drop 16)) = _
  rw [headerOf_bytes, drop_bytes, readCan_stamp]

end Frame

/-! ### Frames in containers -/

def Aligned (o : Object) : Prop := o.padding = 0 ∧ o.size < 2 ^ 31

theorem stepSafe_aligned {total : Nat} {all : List CanLogMsg} {future c : Bytes} {st : State}
    (kept : Kept Aligned 0 total all future (c, st)) : StepSafe (buffer c st) := by
  obtain ⟨p, os, hp, good, -, whole, -⟩ := kept
  obtain rfl := Nat.le_zero.mp hp
  change st.remain ++ c ++ future = _ at whole
  rw [← buffer_eq] at whole
  intro long index found
  cases os with
  | nil =>
    have none := congrArg List.length whole
    change _ = 0 at none
    rw [List.length_append] at none
    omega
  | cons o os =>
    obtain ⟨padding, size⟩ := good o List.mem_cons_self
    have front : buffer c st <+: zeros 0 ++ (o.bytes ++ (zeros o.padding ++ stream os)) := by
      rw [← stream_cons]
      exact ⟨future, whole⟩
    rw [indexOf_object (Nat.zero_le 3) front long] at found
    obtain rfl := Option.some.inj found
    rw [SafeAt, objSizeAt_object (Nat.zero_le 3) front long, Nat.zero_add]
    refine ⟨fun short => Nat.lt_trans short size, fun reaches => ?_⟩
    obtain ⟨rest, split, left⟩ := split_object whole (by rw [Nat.zero_add]; exact reaches)
    have next : (buffer c st).drop o.size = rest := by
      rw [split]
      exact List.drop_left' rfl
    have search := indexOf_padding (stream_signature os) o.padding (s := rest) ⟨future, left⟩
    rw [indexOfFrom, next, search, padding]
    unfold Object.padding at padding
    rw [padding]
    refine ⟨fun position h => ?_, fun _ => ⟨size, Nat.min_le_left _ _⟩⟩
    split at h
    · rw [← Option.some.inj h]
      exact size
    · cases h

theorem feedCalls_aligned {fuel total : Nat} {all : List CanLogMsg} (enough : 1 + total < fuel) :
    ∀ (cs : List Bytes) (st : State), Kept Aligned 0 total all cs.flatten ([], st) →
      ∀ b ∈ feedCalls fuel cs st, StepSafe b := by
  intro cs
  induction cs with
  | nil => intro st _ b hb; cases hb
  | cons c cs ih =>
    intro st kept
    have pads : ∀ o, Aligned o → o.padding ≤ 0 := fun o h => Nat.le_of_eq h.1
    have fits := kept_fits (kept_next kept)
    have safe : ∀ b ∈ calls fuel c st, StepSafe b := by
      intro b hb
      obtain ⟨x, hx, rfl⟩ := List.mem_map.mp hb
      refine stepSafe_aligned (Loop.visited_keeps (fun x y kept next => ?_) fuel (c, st) (kept_next kept) x
        (List.mem_filter.mp hx).1)
      have unread : x.1 ≠ [] := by
        rintro none
        rw [innerBody, if_pos (List.length_eq_zero_iff.mpr none)] at next
        cases next
      obtain ⟨y', body, kept', -⟩ := innerBody_kept pads (Nat.zero_le 3) kept unread (stepSafe_aligned kept)
      rw [body] at next
      obtain rfl : y' = y := by injection next with h; injection h
      exact kept'
    obtain ⟨st', ran, kept'⟩ := innerLoop_kept pads (Nat.zero_le 3) (kept_next kept) (by omega) safe
    rw [feedCalls, ran]
    intro b hb
    rcases List.mem_append.mp hb with hb | hb
    · exact safe b hb
    · exact ih st' kept' b hb

theorem stream_frames (frames : List Frame) :
    stream (frames.map Frame.object) = frames.flatMap Frame.bytes := by
  induction frames with
  | nil => rfl
  | cons f frames ih =>
    rw [List.map_cons, stream_cons, ih, f.object_padding, List.flatMap_cons]
    rfl

theorem decodeAll_frames (frames : List Frame) (counter : UInt32) :
    decodeAll (frames.map Frame.object) counter = frames.mapIdx fun i f => f.message (counter + i.toUInt32) := by
  induction frames generalizing counter with
  | nil => rfl
  | cons f frames ih =>
    have shift (i : Nat) : counter + 1 + i.toUInt32 = counter + (i + 1).toUInt32 := by
      rw [UInt32.add_assoc, UInt32.add_comm 1]
      congr 1
      exact (UInt32.ofNat_add i 1).symm
    rw [List.map_cons, decodeAll, f.object_message, List.mapIdx_cons]
    simp only [ih, shift]
    rw [show (0 : Nat).toUInt32 = 0 from rfl, UInt32.add_zero]

theorem feed_frames {frames : List Frame} {chunks : List Bytes}
    (cut : chunks.flatten = frames.flatMap Frame.bytes) (fuel : Nat)
    (enough : 1 + (frames.flatMap Frame.bytes).length < fuel) :
    ∃ st, feed fuel chunks {} = some st ∧ st.messages = frames.mapIdx fun i f => f.message i.toUInt32 := by
  rw [← stream_frames] at cut enough
  have good : ∀ o ∈ frames.map Frame.object, Aligned o := by
    intro o ho
    obtain ⟨f, -, rfl⟩ := List.mem_map.mp ho
    exact ⟨f.object_padding, by rw [f.object_size]; exact f.objSize_lt⟩
  obtain ⟨st, ran, messages⟩ := feed_kept (fun o h => Nat.le_of_eq h.1) (Nat.zero_le 3) enough chunks {}
    (kept_start good cut) (feedCalls_aligned enough chunks {} (kept_start good cut))
  refine ⟨st, ran, ?_⟩
  rw [messages, decodeAll_frames]
  simp only [UInt32.zero_add]

/-! ### Containers in a file -/

inductive Packing (qt : Qt) (chunk : Bytes) where
  | stored
  | deflated (payload : Bytes) (fits : chunk.length < 2 ^ 32)
      (inflates : qt.qUncompress (zlibHeader chunk.length ++ payload) = chunk)

namespace Packing

variable {qt : Qt} {chunk : Bytes}

def method : Packing qt chunk → Nat
  | stored => noCompress
  | deflated .. => zlibDeflate

def payload : Packing qt chunk → Bytes
  | stored => chunk
  | deflated payload .. => payload

end Packing

structure Container (qt : Qt) where
  chunk : Bytes
  packing : Packing qt chunk
  headerSize : UInt16
  headerVersion : UInt16
  reserved : Vector UInt8 6
  reserved2 : Vector UInt8 4
  padding : Bytes
  padded : padding.length = (objHeaderSize + (containerHeaderSize + packing.payload.length)) % 4

namespace Container

variable {qt : Qt}

def dataSize (c : Container qt) : Nat := containerHeaderSize + c.packing.payload.length

def data (c : Container qt) : Bytes :=
  encode 2 c.packing.method ++ (c.reserved.toList ++ (encode 4 c.chunk.length ++ (c.reserved2.toList ++
    c.packing.payload)))

def bytes (c : Container qt) : Bytes :=
  lobj ++ (encode 2 c.headerSize.toNat ++ (encode 2 c.headerVersion.toNat ++ (encode 4 (objHeaderSize + c.dataSize) ++
    (encode 4 logContainer ++ (c.data ++ c.padding)))))

theorem data_length (c : Container qt) : c.data.length = c.dataSize := by
  simp only [data, dataSize, containerHeaderSize, List.length_append, ByteOrder.encode_length, Vector.length_toList]
  omega

theorem bytes_length (c : Container qt) :
    c.bytes.length = objHeaderSize + c.dataSize + c.padding.length := by
  have signature : lobj.length = 4 := rfl
  simp only [bytes, List.length_append, ByteOrder.encode_length, data_length, signature, objHeaderSize]
  omega

theorem containerData_data (c : Container qt) : containerData qt c.data = some c.chunk := by
  have payload : c.data.drop containerHeaderSize = c.packing.payload := by
    have front : c.data = (encode 2 c.packing.method ++ (c.reserved.toList ++ (encode 4 c.chunk.length ++
        c.reserved2.toList))) ++ c.packing.payload := by
      simp only [data, List.append_assoc]
    rw [front]
    exact List.drop_left' (by simp only [List.length_append, ByteOrder.encode_length, Vector.length_toList]; rfl)
  have method : c.packing.method < 256 ^ 2 := by
    cases c.packing with
    | stored => exact (by decide : noCompress < 256 ^ 2)
    | deflated => exact (by decide : zlibDeflate < 256 ^ 2)
  have reserved : c.reserved.toList.length = 6 := Vector.length_toList
  rw [containerData, payload, data, read_encode method]
  simp only [List.drop_left' reserved]
  cases h : c.packing with
  | stored => simp [Packing.method, Packing.payload]
  | deflated payload fits inflates =>
    rw [read_encode (show c.chunk.length < 256 ^ 4 from fits)]
    simp [Packing.method, Packing.payload, zlibDeflate, noCompress, inflates]

theorem readData_append {a padding : Bytes} (small : a.length < 2 ^ 31) (h : padding.length = a.length % 4)
    (s : Bytes) : readData a.length (a ++ (padding ++ s)) = (a, s) := by
  rw [readData, readRaw_append rfl small]
  simp only [Nat.sub_self, List.replicate_zero, List.append_nil, List.drop_left' h]

theorem getObject_container {fuel objSize headerSize headerVersion : Nat}
    {s s₁ s₂ s₃ s₄ s₅ s₆ objData chunk : Bytes}
    (signature : readRaw signatureSize s = (lobj, s₁)) (h₂ : read 2 s₁ = (headerSize, s₂))
    (h₃ : read 2 s₂ = (headerVersion, s₃)) (size : read 4 s₃ = (objSize, s₄))
    (type : read 4 s₄ = (logContainer, s₅)) (data : readData (dataSizeOf objSize) s₅ = (objData, s₆))
    (content : containerData qt objData = some chunk) (st : State) :
    getObject qt fuel s st = (innerLoop fuel chunk st).map fun st => (0, s₆, st) := by
  simp only [getObject, signature, h₂, h₃, size, type, data, content, ne_eq, not_true_eq_false, if_false]

theorem getObject_bytes (c : Container qt) (fuel : Nat) (s : Bytes) (st : State)
    (small : c.bytes.length < 2 ^ 31) :
    getObject qt fuel (c.bytes ++ s) st = (innerLoop fuel c.chunk st).map fun st => (0, s, st) := by
  rw [bytes_length] at small
  have four : lobj.length = signatureSize := rfl
  have headerSize : c.headerSize.toNat < 256 ^ 2 := c.headerSize.toNat_lt
  have headerVersion : c.headerVersion.toNat < 256 ^ 2 := c.headerVersion.toNat_lt
  have size : objHeaderSize + c.dataSize < 256 ^ 4 := by omega
  have type : logContainer < 256 ^ 4 := by decide
  have dataSize : dataSizeOf (objHeaderSize + c.dataSize) = c.data.length := by
    rw [data_length, dataSizeOf, if_neg (by omega), Nat.add_sub_cancel_left]
  have padding : c.padding.length = c.data.length % 4 := by
    rw [data_length, c.padded, objHeaderSize]
    unfold Container.dataSize
    omega
  have data : readData c.data.length (c.data ++ (c.padding ++ s)) = (c.data, s) :=
    readData_append (by rw [data_length]; omega) padding s
  rw [← dataSize] at data
  simp only [bytes, List.append_assoc]
  exact getObject_container (readRaw_append four (by decide) _) (read_encode headerSize _) (read_encode headerVersion _)
    (read_encode size _) (read_encode type _) data c.containerData_data st

end Container

theorem outerLoop_containers (qt : Qt) (fuel : Nat) (cs : List (Container qt)) :
    ∀ (n : Nat) (st : State), cs.length < n → (∀ c ∈ cs, c.bytes.length < 2 ^ 31) →
      Loop.run (outerBody qt fuel) n (cs.flatMap Container.bytes, st) =
        (feed fuel (cs.map Container.chunk) st).map fun st => ([], st) := by
  induction cs with
  | nil =>
    intro n st enough _
    obtain ⟨n, rfl⟩ := Nat.exists_eq_add_one_of_ne_zero (Nat.ne_of_gt enough)
    exact Loop.run_stop rfl
  | cons c cs ih =>
    intro n st enough small
    obtain ⟨n, rfl⟩ := Nat.exists_eq_add_one_of_ne_zero (Nat.ne_of_gt (Nat.zero_lt_of_lt enough))
    have unread : ¬(c.bytes ++ cs.flatMap Container.bytes).length = 0 := by
      rw [List.length_append, c.bytes_length, objHeaderSize]
      omega
    have body := c.getObject_bytes fuel (cs.flatMap Container.bytes) st (small c List.mem_cons_self)
    rw [List.flatMap_cons, List.map_cons, feed, Loop.run, outerBody, if_neg unread, body]
    cases innerLoop fuel c.chunk st with
    | none => rfl
    | some st' =>
      exact ih n st' (Nat.lt_of_succ_lt_succ enough) fun c hc => small c (List.mem_cons_of_mem _ hc)

def fileOf {qt : Qt} (header : Bytes) (cs : List (Container qt)) : Bytes :=
  logg ++ (encode 4 (8 + header.length) ++ (header ++ cs.flatMap Container.bytes))

theorem parse_logg {qt : Qt} {file s₁ s₂ : Bytes} {headerSize : Nat}
    (signature : readRaw signatureSize file = (logg, s₁))
    (size : read 4 s₁ = (headerSize, s₂)) (fuel : Nat) :
    parse qt fuel file =
      (Loop.run (outerBody qt fuel) fuel
        ((s₂.drop fileHeaderRest).drop (narrowInt ((headerSize : Int) - headerDataSize)).toNat, {})).map
        fun (_, st) => .ok st.messages := by
  simp only [parse, signature, size, ne_eq, not_true_eq_false, if_false]

/-- The frames of a file come back in order. -/
theorem parse_frames (qt : Qt) (frames : List Frame) (cs : List (Container qt)) (header : Bytes)
    (headerSize : headerDataSize ≤ 8 + header.length)
    (cut : (cs.map Container.chunk).flatten = frames.flatMap Frame.bytes) (total : (fileOf header cs).length < 2 ^ 31) :
    ∃ enough, ∀ fuel ≥ enough,
      parse qt fuel (fileOf header cs) = some (.ok (frames.mapIdx fun i f => f.message i.toUInt32)) := by
  refine ⟨2 + (frames.flatMap Frame.bytes).length + cs.length, fun fuel enough => ?_⟩
  obtain ⟨st, ran, messages⟩ := feed_frames cut fuel (by omega)
  simp only [fileOf, List.length_append, ByteOrder.encode_length] at total
  have small : ∀ c ∈ cs, c.bytes.length < 2 ^ 31 := by
    intro c hc
    have part : c.bytes.length ≤ (cs.flatMap Container.bytes).length := by
      rw [List.flatMap_def]
      exact (List.sublist_flatten_of_mem (List.mem_map.mpr ⟨c, hc, rfl⟩)).length_le
    omega
  have four : logg.length = signatureSize := rfl
  have size : 8 + header.length < 256 ^ 4 := by omega
  have skipped : fileHeaderRest + (narrowInt ((8 + header.length : Nat) - headerDataSize)).toNat = header.length := by
    have rest : fileHeaderRest = 64 := rfl
    have data : headerDataSize = 72 := rfl
    rw [data] at headerSize
    have exact : ((8 + header.length : Nat) : Int) - headerDataSize = (header.length - 64 : Nat) := by
      rw [data]
      omega
    rw [exact, narrowInt_small (by omega), Int.toNat_natCast, rest]
    omega
  rw [fileOf, parse_logg (readRaw_append four (by decide) _) (read_encode size _), List.drop_drop, skipped,
    List.drop_left, outerLoop_containers qt fuel cs fuel {} (by omega) small, ran, Option.map_some, Option.map_some]
  exact congrArg (fun messages => some (Except.ok messages)) messages

def twoFrames : List Frame :=
  [{ message2 := false, version2 := false, flags := 1, reserved := 0, timestamp := 150000, originalTimestamp := 0,
     channel := 1, canFlags := 0, dlc := 8, id := 0x123, data := #v[1, 2, 3, 4, 5, 6, 7, 8], rest := [],
     aligned := rfl, fits := by decide },
   { message2 := true, version2 := true, flags := 2, reserved := 0, timestamp := 2500000000, originalTimestamp := 7,
     channel := 2, canFlags := 1, dlc := 2, id := 0x98FEF100, data := #v[255, 0, 0, 0, 0, 0, 0, 0],
     rest := [0, 0, 0, 0, 0, 0, 0, 0], aligned := rfl, fits := by decide }]

/-- `qUncompress` where the zlib stream is one stored block: two bytes of zlib header, five of block
header and the checksum at the end stand around the data. -/
def storedBlock (s : Bytes) : Bytes := (s.drop 11).take (s.length - 15)

def storedQt : Qt := { plainBuild with qUncompress := storedBlock }

/-- Both ways to hold a chunk; the cut is inside the second signature. -/
def twoContainers : List (Container storedQt) :=
  [{ chunk := (twoFrames.flatMap Frame.bytes).take 50, packing := .stored, headerSize := 16, headerVersion := 1,
     reserved := #v[0, 0, 0, 0, 0, 0], reserved2 := #v[0, 0, 0, 0], padding := zeros 2, padded := by decide +kernel },
   { chunk := (twoFrames.flatMap Frame.bytes).drop 50,
     packing := .deflated ([0x78, 1, 1, 62, 0, 193, 255] ++ (twoFrames.flatMap Frame.bytes).drop 50 ++ [198, 99, 6, 113])
       (by decide +kernel) (by decide +kernel),
     headerSize := 16, headerVersion := 1, reserved := #v[0, 0, 0, 0, 0, 0], reserved2 := #v[0, 0, 0, 0],
     padding := zeros 1, padded := by decide +kernel }]

theorem parse_frames_twoContainers :
    ∃ enough, ∀ fuel ≥ enough, parse storedQt fuel (fileOf (zeros 136) twoContainers) =
      some (.ok (twoFrames.mapIdx fun i f => f.message i.toUInt32)) :=
  parse_frames storedQt twoFrames twoContainers (zeros 136) (by decide +kernel) (by decide +kernel) (by decide +kernel)

end CanTracer.Blf
