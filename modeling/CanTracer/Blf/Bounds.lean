import CanTracer.Blf.Calls

/-!
# Objects and the bytes behind them

`parseObject` checks that the buffer holds the declared size, and then reads the fields of the
object from the whole buffer. An object is read from its own bytes only when the declared size covers
these fields.
-/

namespace CanTracer.Blf

/-! ### The first signature -/

theorem prefix_drop_iff (pattern s : Bytes) (i : Nat) :
    pattern <+: s.drop i ↔ (s.take (i + pattern.length)).drop i = pattern := by
  rw [List.prefix_iff_eq_take, List.drop_take, Nat.add_sub_cancel_left, eq_comm]

theorem indexOf_some {pattern s : Bytes} {i : Nat} :
    indexOf pattern s = some i ↔ pattern <+: s.drop i ∧ ∀ j < i, ¬pattern <+: s.drop j := by
  induction s generalizing i with
  | nil =>
    rw [indexOf, List.drop_nil, List.prefix_nil]
    by_cases empty : pattern = []
    · rw [if_pos empty, Option.some.injEq]
      constructor
      · rintro rfl
        exact ⟨empty, fun j hj => absurd hj (Nat.not_lt_zero j)⟩
      · rintro ⟨-, before⟩
        by_contra other
        apply before 0 (Nat.pos_of_ne_zero (Ne.symm other))
        rw [List.drop_nil, List.prefix_nil]
        exact empty
    · rw [if_neg empty]
      exact iff_of_false (Option.some_ne_none i).symm fun h => empty h.1
  | cons b s ih =>
    rw [indexOf]
    by_cases here : pattern <+: b :: s
    · rw [if_pos here, Option.some.injEq]
      constructor
      · rintro rfl
        exact ⟨here, fun j hj => absurd hj (Nat.not_lt_zero j)⟩
      · rintro ⟨-, before⟩
        by_contra other
        exact before 0 (Nat.pos_of_ne_zero (Ne.symm other)) here
    · rw [if_neg here]
      cases i with
      | zero =>
        constructor
        · intro h
          obtain ⟨j, -, impossible⟩ := Option.map_eq_some_iff.mp h
          exact absurd impossible (Nat.succ_ne_zero j)
        · exact fun h => absurd h.1 here
      | succ i =>
        have tail : (indexOf pattern s).map (· + 1) = some (i + 1) ↔ indexOf pattern s = some i := by
          rw [Option.map_eq_some_iff]
          constructor
          · rintro ⟨j, found, same⟩
            rwa [← Nat.succ.inj same]
          · exact fun found => ⟨i, found, rfl⟩
        rw [tail, ih]
        constructor
        · rintro ⟨now, before⟩
          refine ⟨now, fun j hj => ?_⟩
          cases j with
          | zero => exact here
          | succ j => exact before j (Nat.lt_of_succ_lt_succ hj)
        · rintro ⟨now, before⟩
          exact ⟨now, fun j hj => before (j + 1) (Nat.succ_lt_succ hj)⟩

theorem indexOf_congr {pattern s s' : Bytes} {i n : Nat} (found : indexOf pattern s = some i)
    (reaches : i + pattern.length ≤ n) (agree : s'.take n = s.take n) : indexOf pattern s' = some i := by
  have same : ∀ j ≤ i, pattern <+: s'.drop j ↔ pattern <+: s.drop j := by
    intro j hj
    have cut : s'.take (j + pattern.length) = s.take (j + pattern.length) := by
      have short := congrArg (List.take (j + pattern.length)) agree
      rwa [List.take_take, List.take_take, Nat.min_eq_left (by omega)] at short
    rw [prefix_drop_iff, prefix_drop_iff, cut]
  obtain ⟨here, before⟩ := indexOf_some.mp found
  exact indexOf_some.mpr ⟨(same i (Nat.le_refl i)).mpr here,
    fun j hj => fun hp => before j hj ((same j (Nat.le_of_lt hj)).mp hp)⟩

theorem indexOf_fits {pattern s : Bytes} {i : Nat} (found : indexOf pattern s = some i) (nonempty : pattern ≠ []) :
    i + pattern.length ≤ s.length := by
  have here := (indexOf_some.mp found).1.length_le
  have pos := List.length_pos_iff.mpr nonempty
  rw [List.length_drop] at here
  omega

/-! ### Fields inside a common part -/

theorem field_congr {offset width n : Nat} {s s' : Bytes} (agree : s'.take n = s.take n)
    (inside : offset + width ≤ n) (long : n ≤ s.length) :
    field offset width s' = field offset width s := by
  have reaches : offset + width ≤ (s.take n).length := by
    rw [List.length_take]
    omega
  have own : field offset width s = field offset width (s.take n) := by
    rw [← field_append reaches (s.drop n), List.take_append_drop]
  have other : field offset width s' = field offset width (s.take n) := by
    rw [← agree] at reaches ⊢
    rw [← field_append reaches (s'.drop n), List.take_append_drop]
  rw [own, other]

theorem field_pos {offset width : Nat} {s : Bytes} (h : field offset width s ≠ 0) :
    width ≤ s.length - offset := by
  by_contra short
  apply h
  rw [field, read, if_neg (by rwa [List.length_drop])]

theorem headerOf_drop (b : Bytes) (index : Nat) :
    headerOf (b.drop index) =
      { headerVersion := field (index + 6) 2 b, objSize := objSizeAt b index, objType := field (index + 12) 4 b } := by
  rw [headerOf, field_drop, field_drop, field_drop]
  rfl

theorem headerOf_objSize (b : Bytes) (index : Nat) : (headerOf (b.drop index)).objSize = objSizeAt b index := by
  rw [headerOf_drop]

theorem headerOf_congr {index n : Nat} {b b' : Bytes} (agree : b'.take n = b.take n) (inside : index + 16 ≤ n)
    (long : n ≤ b.length) : headerOf (b'.drop index) = headerOf (b.drop index) := by
  rw [headerOf_drop, headerOf_drop, objSizeAt, objSizeAt, field_congr agree (by omega) long,
    field_congr agree (by omega) long, field_congr agree (by omega) long]

theorem firstCan_some {b o : Bytes} :
    firstCan b = some o ↔ ∃ index, 16 ≤ b.length ∧ indexOf lobj b = some index ∧
      index + objSizeAt b index ≤ b.length ∧ (headerOf (b.drop index)).isCan ∧ b.drop index = o := by
  rw [firstCan]
  by_cases few : b.length < 16
  · rw [if_pos few]
    apply iff_of_false (Option.some_ne_none o).symm
    rintro ⟨_, long, _⟩
    omega
  · rw [if_neg few, Option.bind_eq_some_iff]
    apply exists_congr
    intro index
    dsimp only
    rw [headerOf_objSize]
    constructor
    · rintro ⟨found, h⟩
      split_ifs at h with long can
      exact ⟨by omega, found, by omega, can, Option.some.inj h⟩
    · rintro ⟨-, found, inside, can, rfl⟩
      rw [if_neg (by omega), if_pos can]
      exact ⟨found, rfl⟩

theorem firstCan_none {b : Bytes} {index : Nat} (found : indexOf lobj b = some index)
    (notCan : ¬(headerOf (b.drop index)).isCan) : firstCan b = none := by
  rw [Option.eq_none_iff_forall_ne_some]
  intro o some
  obtain ⟨index', -, found', -, can, -⟩ := firstCan_some.mp some
  obtain rfl := Option.some.inj (found.symm.trans found')
  exact notCan can

/-! ### Contained objects -/

/-- Where the fields of a CAN object end. -/
def fieldsEnd (headerVersion : Nat) : Nat := 16 + (stampEnd headerVersion + canSize)

/-- The declared size covers the fields of a CAN object, or enough of the type to tell that the
object is none. -/
def Contained (b : Bytes) (index : Nat) : Prop :=
  let header := headerOf (b.drop index)
  if header.isCan then fieldsEnd header.headerVersion ≤ header.objSize
  else ∀ t ∈ [canMsg, canMsg2], ¬(b.drop (index + 12)).take (header.objSize - 12) <+: ByteOrder.encode 4 t

theorem lobj_length : lobj.length = 4 := rfl

theorem twelve_le_stampEnd (headerVersion : Nat) : 12 ≤ stampEnd headerVersion := by
  unfold stampEnd
  split_ifs <;> omega

theorem objectFits_of_isCan {b : Bytes} {index : Nat} (can : (headerOf (b.drop index)).isCan) : index + 16 ≤ b.length := by
  rw [headerOf_drop] at can
  have nonzero : field (index + 12) 4 b ≠ 0 := by
    rcases can with one | two
    · exact fun zero => absurd (zero.symm.trans one) (by decide)
    · exact fun zero => absurd (zero.symm.trans two) (by decide)
  have fits := field_pos nonzero
  omega

theorem readObject_congr {b b' : Bytes} {index size : Nat}
    (agree : b'.take (index + size) = b.take (index + size)) (long : index + size ≤ b.length)
    (fits : fieldsEnd (headerOf (b.drop index)).headerVersion ≤ size) (number : UInt32) :
    readObject number (b'.drop index) = readObject number (b.drop index) := by
  have stamp := twelve_le_stampEnd (headerOf (b.drop index)).headerVersion
  have header : headerOf (b'.drop index) = headerOf (b.drop index) :=
    headerOf_congr agree (by unfold fieldsEnd at fits; omega) long
  have inside : index + 16 ≤ (b.take (index + size)).length := by
    rw [List.length_take]
    unfold fieldsEnd at fits
    omega
  have own : ∀ s : Bytes, s.take (index + size) = b.take (index + size) →
      (s.drop index).drop 16 = (b.take (index + size)).drop (index + 16) ++ s.drop (index + size) := by
    intro s same
    have whole : s = b.take (index + size) ++ s.drop (index + size) := by rw [← same, List.take_append_drop]
    calc (s.drop index).drop 16
      _ = s.drop (index + 16) := List.drop_drop
      _ = (b.take (index + size) ++ s.drop (index + size)).drop (index + 16) := by rw [← whole]
      _ = (b.take (index + size)).drop (index + 16) ++ s.drop (index + size) := List.drop_append_of_le_length inside
  have room : stampEnd (headerOf (b.drop index)).headerVersion + canSize ≤
      ((b.take (index + size)).drop (index + 16)).length := by
    rw [List.length_drop, List.length_take]
    unfold fieldsEnd at fits
    omega
  rw [readObject, readObject, header, own b rfl, own b' agree, readCan_append room, readCan_append room]

theorem typeBytes_of_isCan {b : Bytes} {index : Nat} (can : (headerOf (b.drop index)).isCan) :
    ∃ t ∈ [canMsg, canMsg2], (b.drop (index + 12)).take 4 = ByteOrder.encode 4 t := by
  have fits := objectFits_of_isCan can
  have four : ((b.drop (index + 12)).take 4).length = 4 := by
    rw [List.length_take, List.length_drop]
    omega
  have roundTrip := ByteOrder.encode_decode ((b.drop (index + 12)).take 4)
  rw [four, ← field_eq (by omega)] at roundTrip
  have bytes : (b.drop (index + 12)).take 4 = ByteOrder.encode 4 (headerOf (b.drop index)).objType := by
    rw [headerOf_drop]
    exact roundTrip.symm
  refine ⟨_, ?_, bytes⟩
  rcases can with one | two
  · rw [one]
    exact List.mem_cons_self
  · rw [two]
    exact List.mem_cons_of_mem _ List.mem_cons_self

theorem firstCan_contained {b b' : Bytes} {index : Nat} (found : indexOf lobj b = some index)
    (inside : index + objSizeAt b index ≤ b.length) (contained : Contained b index)
    (agree : b'.take (index + objSizeAt b index) = b.take (index + objSizeAt b index))
    (long : index + objSizeAt b index ≤ b'.length) (number : UInt32) :
    (firstCan b').map (readObject number) = (firstCan b).map (readObject number) := by
  simp only [Contained, headerOf_objSize] at contained
  by_cases can : (headerOf (b.drop index)).isCan
  · rw [if_pos can] at contained
    have sixteen : index + 16 ≤ index + objSizeAt b index := by
      unfold fieldsEnd at contained
      omega
    have header := headerOf_congr agree sixteen inside
    have found' := indexOf_congr found (by rw [lobj_length]; omega) agree
    have size' : objSizeAt b' index = objSizeAt b index := by
      rw [← headerOf_objSize, header, headerOf_objSize]
    have own := firstCan_some.mpr ⟨index, by omega, found, inside, can, rfl⟩
    have other := firstCan_some.mpr ⟨index, by omega, found', by omega, by rw [header]; exact can, rfl⟩
    rw [own, other, Option.map_some, Option.map_some, readObject_congr agree inside contained]
  · rw [if_neg can] at contained
    have none' : firstCan b' = none := by
      rw [Option.eq_none_iff_forall_ne_some]
      intro o some
      obtain ⟨index', -, found', -, can', -⟩ := firstCan_some.mp some
      have far : 12 < objSizeAt b index := by
        by_contra near
        apply contained canMsg List.mem_cons_self
        rw [Nat.sub_eq_zero_of_le (Nat.le_of_not_lt near), List.take_zero]
        exact List.nil_prefix
      obtain rfl := Option.some.inj ((indexOf_congr found (by rw [lobj_length]; omega) agree).symm.trans found')
      by_cases whole : 16 ≤ objSizeAt b index
      · rw [headerOf_congr agree (by omega) inside] at can'
        exact can can'
      · obtain ⟨t, ht, bytes⟩ := typeBytes_of_isCan can'
        apply contained t ht
        have same := congrArg (List.drop (index + 12)) agree
        rw [List.drop_take, List.drop_take, show index + objSizeAt b index - (index + 12) = objSizeAt b index - 12 by omega]
          at same
        rw [← same, ← bytes]
        exact List.take_prefix_take_left (by omega)
    rw [firstCan_none found can, none']

/-! ### Objects that are not contained -/

theorem readObject_lastByte (number : UInt32) (o : Bytes) :
    (readObject number o).data[7] = (o[fieldsEnd (headerOf o).headerVersion - 1]?).getD 0 := by
  have place : 16 + (stampEnd (headerOf o).headerVersion + 8 + 7) = fieldsEnd (headerOf o).headerVersion - 1 := by
    unfold fieldsEnd canSize
    omega
  rw [readObject, readCan_eq]
  dsimp only
  rw [CanData.copy, Vector.getElem_ofFn, List.getElem?_take, if_pos (by decide), List.getElem?_drop,
    List.getElem?_drop, place]
  rfl

/-- The first `n` bytes of `b`, filled up with zero bytes. -/
def cut (b : Bytes) (n : Nat) : Bytes := b.take n ++ zeros (n - b.length)

theorem cut_length (b : Bytes) (n : Nat) : (cut b n).length = n := by
  rw [cut, List.length_append, List.length_take, zeros_length]
  omega

theorem take_cut {b : Bytes} {n k : Nat} (inside : k ≤ n) (long : k ≤ b.length) (rest : Bytes) :
    (cut b n ++ rest).take k = b.take k := by
  have reaches : k ≤ (b.take n).length := by
    rw [List.length_take]
    omega
  rw [cut, List.append_assoc, List.take_append_of_le_length reaches, List.take_take, Nat.min_eq_left inside]

def OwnBytes (b : Bytes) (index : Nat) : Prop :=
  ∀ b' number, b'.take (index + objSizeAt b index) = b.take (index + objSizeAt b index) →
    index + objSizeAt b index ≤ b'.length → (firstCan b').map (readObject number) = (firstCan b).map (readObject number)

theorem fieldsEnd_le_of_ownBytes {b : Bytes} {index : Nat} (found : indexOf lobj b = some index)
    (inside : index + objSizeAt b index ≤ b.length) (can : (headerOf (b.drop index)).isCan) (own : OwnBytes b index) :
    fieldsEnd (headerOf (b.drop index)).headerVersion ≤ objSizeAt b index := by
  by_contra short
  have fits := objectFits_of_isCan can
  have stamp := twelve_le_stampEnd (headerOf (b.drop index)).headerVersion
  obtain ⟨pos, place⟩ : ∃ pos, pos + 1 = fieldsEnd (headerOf (b.drop index)).headerVersion :=
    ⟨fieldsEnd (headerOf (b.drop index)).headerVersion - 1, by unfold fieldsEnd; omega⟩
  have far : 16 ≤ pos := by
    unfold fieldsEnd canSize at place
    omega
  -- The same bytes up to the last one that is read, and another one there.
  obtain ⟨x, other⟩ : ∃ x : UInt8, x ≠ ((b.drop index)[pos]?).getD 0 :=
    ⟨((b.drop index)[pos]?).getD 0 + 1, by grind⟩
  have agree : ∀ n, n ≤ index + pos → n ≤ b.length → (cut b (index + pos) ++ [x]).take n = b.take n :=
    fun n le long => take_cut le long [x]
  have length : (cut b (index + pos) ++ [x]).length = index + pos + 1 := by
    rw [List.length_append, cut_length, List.length_singleton]
  have header : headerOf ((cut b (index + pos) ++ [x]).drop index) = headerOf (b.drop index) :=
    headerOf_congr (agree (index + 16) (by omega) fits) (Nat.le_refl _) fits
  have size : objSizeAt (cut b (index + pos) ++ [x]) index = objSizeAt b index := by
    rw [← headerOf_objSize, header, headerOf_objSize]
  have found' := indexOf_congr found (by rw [lobj_length]; omega) (agree (index + 16) (by omega) fits)
  have read := firstCan_some.mpr ⟨index, by omega, found, inside, can, rfl⟩
  have read' := firstCan_some.mpr ⟨index, by omega, found', by omega, by rw [header]; exact can, rfl⟩
  have same := own (cut b (index + pos) ++ [x]) 0 (agree _ (by omega) inside) (by omega)
  rw [read, read', Option.map_some, Option.map_some, Option.some.injEq] at same
  have last : (readObject 0 ((cut b (index + pos) ++ [x]).drop index)).data[7] = (readObject 0 (b.drop index)).data[7] := by
    rw [same]
  rw [readObject_lastByte, readObject_lastByte, header, ← place, Nat.add_sub_cancel] at last
  apply other
  rw [← last, List.getElem?_drop, List.getElem?_append_right (by rw [cut_length]), cut_length, Nat.sub_self]
  rfl

/-- An object header up to its type, completed with a type of a CAN object. -/
theorem firstCan_typed {q : Bytes} {index t : Nat} (length : q.length = index + 12)
    (found : indexOf lobj q = some index) (size : objSizeAt q index ≤ 16) (ht : t ∈ [canMsg, canMsg2]) :
    firstCan (q ++ ByteOrder.encode 4 t) ≠ none := by
  have whole : (q ++ ByteOrder.encode 4 t).take (index + 12) = q.take (index + 12) := by
    rw [List.take_append_of_le_length (Nat.le_of_eq length.symm)]
  have size' : objSizeAt (q ++ ByteOrder.encode 4 t) index = objSizeAt q index :=
    field_append (by omega) (ByteOrder.encode 4 t)
  have found' := indexOf_congr found (by rw [lobj_length]; omega) whole
  have long : (q ++ ByteOrder.encode 4 t).length = index + 16 := by
    rw [List.length_append, ByteOrder.encode_length, length]
  have small : t < 256 ^ 4 := by
    rcases List.mem_cons.mp ht with rfl | ht
    · decide
    · rw [List.mem_singleton.mp ht]
      decide
  have type : (headerOf ((q ++ ByteOrder.encode 4 t).drop index)).objType = t := by
    rw [headerOf_drop]
    dsimp only
    rw [field_eq (by omega), ← length, List.drop_left, List.take_of_length_le (by rw [ByteOrder.encode_length]),
      ByteOrder.decode_encode 4 t small]
  have can : (headerOf ((q ++ ByteOrder.encode 4 t).drop index)).isCan := by
    rw [ObjectHeader.isCan, type]
    rcases List.mem_cons.mp ht with rfl | ht
    · exact Or.inl rfl
    · exact Or.inr (List.mem_singleton.mp ht)
  rw [firstCan_some.mpr ⟨index, by omega, found', by omega, can, rfl⟩]
  exact Option.some_ne_none _

theorem type_of_ownBytes {b : Bytes} {index : Nat} (found : indexOf lobj b = some index)
    (inside : index + objSizeAt b index ≤ b.length) (notCan : ¬(headerOf (b.drop index)).isCan) (own : OwnBytes b index) :
    ∀ t ∈ [canMsg, canMsg2], ¬(b.drop (index + 12)).take (objSizeAt b index - 12) <+: ByteOrder.encode 4 t := by
  have refuse : ∀ q t, q.length = index + 12 → indexOf lobj q = some index → objSizeAt q index ≤ 16 →
      t ∈ [canMsg, canMsg2] → index + objSizeAt b index ≤ index + 16 →
      (q ++ ByteOrder.encode 4 t).take (index + objSizeAt b index) = b.take (index + objSizeAt b index) → False := by
    intro q t length found' size ht short agree
    have same := own (q ++ ByteOrder.encode 4 t) 0 agree (by rw [List.length_append, ByteOrder.encode_length]; omega)
    rw [firstCan_none found notCan, Option.map_none, Option.map_eq_none_iff] at same
    exact firstCan_typed length found' size ht same
  intro t ht compatible
  have signature := indexOf_fits found (by decide)
  rw [lobj_length] at signature
  by_cases stated : index + 12 ≤ b.length
  · have few := compatible.length_le
    rw [List.length_take, List.length_drop, ByteOrder.encode_length] at few
    have length : (b.take (index + 12)).length = index + 12 := by
      rw [List.length_take]
      omega
    apply refuse (b.take (index + 12)) t length ?_ ?_ ht (by omega) ?_
    · apply indexOf_congr found (n := index + 4) (by rw [lobj_length])
      rw [List.take_take, Nat.min_eq_left (by omega)]
    · rw [objSizeAt, field_congr (s := b) (n := index + 12) (by rw [List.take_take, Nat.min_self]) (by omega) stated]
      change objSizeAt b index ≤ 16
      omega
    · have bytes := List.prefix_iff_eq_take.mp compatible
      rw [List.length_take, List.length_drop, Nat.min_eq_left (by omega)] at bytes
      calc (b.take (index + 12) ++ ByteOrder.encode 4 t).take (index + objSizeAt b index)
        _ = (b.take (index + 12)).take (index + objSizeAt b index) ++
            (ByteOrder.encode 4 t).take (objSizeAt b index - 12) := by
          rw [List.take_append, length, Nat.add_sub_add_left]
        _ = (b.take (index + 12) ++ b.drop (index + 12)).take (index + objSizeAt b index) := by
          rw [← bytes, List.take_append, length, Nat.add_sub_add_left]
        _ = b.take (index + objSizeAt b index) := by rw [List.take_append_drop]
  · -- The buffer ends before the size, which reads as zero: nothing behind the signature is fixed.
    have zero : objSizeAt b index = 0 := by
      rw [objSizeAt, field, read, if_neg (by rw [List.length_drop]; omega)]
    have front : (b.take (index + 4)).length = index + 4 := by
      rw [List.length_take]
      omega
    have agree : ∀ n ≤ index + 4, (b.take (index + 4) ++ zeros 8).take n = b.take n := by
      intro n hn
      rw [List.take_append_of_le_length (by omega), List.take_take, Nat.min_eq_left hn]
    have length : (b.take (index + 4) ++ zeros 8).length = index + 12 := by
      rw [List.length_append, front, zeros_length]
    apply refuse (b.take (index + 4) ++ zeros 8) t length ?_ ?_ ht (by omega) ?_
    · exact indexOf_congr found (by rw [lobj_length]) (agree _ (Nat.le_refl _))
    · have behind : (b.take (index + 4) ++ zeros 8).drop (index + 8) = zeros 4 := by
        rw [show index + 8 = (b.take (index + 4)).length + 4 by omega, List.drop_length_add_append]
        rfl
      rw [objSizeAt, field, behind]
      decide
    · rw [zero, List.take_append_of_le_length (by rw [length]; omega)]
      exact agree index (by omega)

/-! ### The calls -/

theorem ownBytes_iff {b : Bytes} {index : Nat} (found : indexOf lobj b = some index)
    (inside : index + objSizeAt b index ≤ b.length) : OwnBytes b index ↔ Contained b index := by
  constructor
  · intro own
    simp only [Contained, headerOf_objSize]
    by_cases can : (headerOf (b.drop index)).isCan
    · rw [if_pos can]
      exact fieldsEnd_le_of_ownBytes found inside can own
    · rw [if_neg can]
      exact type_of_ownBytes found inside can own
  · exact fun contained b' number agree long => firstCan_contained found inside contained agree long number

/-- An object is read from its own bytes, whatever follows them, exactly when it is contained in them. -/
theorem parseObject_ownBytes_iff (b : Bytes) (index : Nat) (found : indexOf lobj b = some index)
    (inside : index + objSizeAt b index ≤ b.length) :
    (∀ b' st, b'.take (index + objSizeAt b index) = b.take (index + objSizeAt b index) →
      index + objSizeAt b index ≤ b'.length →
        (parseObject b' st).2.messages = (parseObject b st).2.messages) ↔ Contained b index := by
  rw [← ownBytes_iff found inside]
  constructor
  · intro same b' number agree long
    have read := same b' { counter := number } agree long
    rw [parseObject_messages, parseObject_messages] at read
    have lists := congrArg List.head? (List.append_cancel_left read)
    rwa [Option.head?_toList, Option.head?_toList] at lists
  · intro own b' st agree long
    rw [parseObject_messages, parseObject_messages, own b' st.counter agree long]

theorem parseObject_ownBytes_text :
    (∀ b' st, b'.take 17 = textObject.bytes.take 17 → 17 ≤ b'.length →
      (parseObject b' st).2.messages = (parseObject textObject.bytes st).2.messages) ↔ Contained textObject.bytes 0 :=
  parseObject_ownBytes_iff textObject.bytes 0 (by decide) (by decide)

/-- A CAN object that declares its header alone. -/
def bareCan : Bytes := lobj ++ [16, 0, 1, 0, 16, 0, 0, 0, 1, 0, 0, 0]

/-- With another object behind it, its fields are that object's signature and header. -/
theorem parseObject_ownBytes_bareCan :
    ¬ ∀ (b : Bytes) (index : Nat), indexOf lobj b = some index → index + objSizeAt b index ≤ b.length →
      ∀ b' st, b'.take (index + objSizeAt b index) = b.take (index + objSizeAt b index) →
        index + objSizeAt b index ≤ b'.length →
          (parseObject b' st).2.messages = (parseObject b st).2.messages := by
  intro h
  have same := h bareCan 0 (by decide) (by decide) (bareCan ++ canObject.bytes) {} (by decide) (by decide)
  have alone : (parseObject bareCan {}).2.messages.map (·.channel) = [0] := by decide +kernel
  have followed : (parseObject (bareCan ++ canObject.bytes) {}).2.messages.map (·.channel) = [2] := by decide +kernel
  rw [same, alone] at followed
  exact absurd followed (by decide)

end CanTracer.Blf
