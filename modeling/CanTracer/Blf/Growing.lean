import CanTracer.Blf.Framing

/-!
# Files that grow

A BLF file is read object by object, and the messages are only ever appended to. What a file gives
while it is still being written, up to the last whole object, is how the finished file begins.
-/

namespace CanTracer.Blf

/-! ### Messages stay -/

theorem innerBody_grows {x y : Bytes × State}
    (h : innerBody x = some (.stop y) ∨ innerBody x = some (.next y)) : x.2.messages <+: y.2.messages := by
  rw [innerBody_state h]
  split
  · exact List.prefix_rfl
  · rw [parseObject_messages]
    exact List.prefix_append _ _

theorem innerLoop_grows {fuel : Nat} {c : Bytes} {st st' : State} (h : innerLoop fuel c st = some st') :
    st.messages <+: st'.messages := by
  rw [innerLoop, Option.map_eq_some_iff] at h
  obtain ⟨x, ran, rfl⟩ := h
  exact Loop.run_keeps (I := fun x => st.messages <+: x.2.messages) (Q := fun x => st.messages <+: x.2.messages)
    (fun x kept => ⟨fun y step => kept.trans (innerBody_grows (.inl step)),
      fun y step => kept.trans (innerBody_grows (.inr step))⟩)
    fuel (c, st) x List.prefix_rfl ran

/-- The state after an object is the one before it, or that of the container in it. -/
theorem outerBody_state {qt : Qt} {fuel : Nat} {x y : Bytes × State}
    (h : outerBody qt fuel x = some (.stop y) ∨ outerBody qt fuel x = some (.next y)) :
    y.2 = x.2 ∨ ∃ c, innerLoop fuel c x.2 = some y.2 := by
  obtain ⟨s, st⟩ := x
  have called : ∀ {ret s' st'}, getObject qt fuel s st = some (ret, s', st') →
      st' = st ∨ ∃ c, innerLoop fuel c st = some st' := by
    intro ret s' st' called
    rcases getObject_state called with ⟨-, same⟩ | ⟨c, -, ran⟩
    · exact .inl same
    · exact .inr ⟨c, ran⟩
  rw [outerBody] at h
  by_cases ended : s.length = 0
  · rw [if_pos ended] at h
    rcases h with h | h
    · rw [← Loop.Next.stop.inj (Option.some.inj h)]
      exact .inl rfl
    · cases h
  · rw [if_neg ended] at h
    rcases h with h | h
    all_goals
      obtain ⟨⟨ret, s', st'⟩, read, next⟩ := Option.map_eq_some_iff.mp h
      dsimp only at next
      split at next
    · rw [← Loop.Next.stop.inj next]
      exact called read
    · cases next
    · cases next
    · rw [← Loop.Next.next.inj next]
      exact called read

theorem outerLoop_grows {qt : Qt} {fuel n : Nat} {x r : Bytes × State}
    (ran : Loop.run (outerBody qt fuel) n x = some r) : x.2.messages <+: r.2.messages := by
  have round : ∀ {y z : Bytes × State}, outerBody qt fuel y = some (.stop z) ∨ outerBody qt fuel y = some (.next z) →
      y.2.messages <+: z.2.messages := by
    intro y z step
    rcases outerBody_state step with same | ⟨c, ran⟩
    · rw [same]
    · exact innerLoop_grows ran
  exact Loop.run_keeps (I := fun y => x.2.messages <+: y.2.messages) (Q := fun y => x.2.messages <+: y.2.messages)
    (fun y kept => ⟨fun z step => kept.trans (round (.inl step)), fun z step => kept.trans (round (.inr step))⟩)
    n x r List.prefix_rfl ran

/-! ### Numbers -/

/-- The counter is the number of messages, and the messages are numbered by it. -/
structure Counted (st : State) : Prop where
  counter : st.counter = UInt32.ofNat st.messages.length
  numbers : st.messages.map (·.number) = (List.range st.messages.length).map UInt32.ofNat

theorem counted_start : Counted {} := ⟨rfl, rfl⟩

theorem Counted.append {st : State} (counted : Counted st) (header : ObjectHeader) (s : Bytes) :
    Counted (st.append header s) := by
  rw [State.append]
  split
  · refine ⟨?_, ?_⟩
    · change st.counter + 1 = UInt32.ofNat (st.messages ++ [_]).length
      rw [List.length_append, List.length_singleton, UInt32.ofNat_add, counted.counter]
      rfl
    · change (st.messages ++ [_]).map _ = (List.range (st.messages ++ [_]).length).map _
      rw [List.length_append, List.length_singleton, List.range_succ, List.map_append, List.map_append, counted.numbers,
        List.map_singleton, List.map_singleton, readCan_eq, counted.counter]
  · exact counted

theorem Counted.parseObject {st : State} (counted : Counted st) (b : Bytes) : Counted (parseObject b st).2 := by
  by_cases few : b.length < 16
  · rw [parseObject_short few]
    exact ⟨counted.counter, counted.numbers⟩
  · cases found : indexOf lobj b with
    | none =>
      rw [Blf.parseObject, if_neg few, found]
      exact counted
    | some index =>
      rw [Blf.parseObject, if_neg few, found]
      simp only [readHeader_drop]
      have kept : Counted { st with remain := [] } := ⟨counted.counter, counted.numbers⟩
      split
      · exact ⟨counted.counter, counted.numbers⟩
      · split
        · exact kept.append _ _
        · exact kept.append _ _

theorem Counted.innerLoop {fuel : Nat} {c : Bytes} {st st' : State} (counted : Counted st)
    (h : innerLoop fuel c st = some st') : Counted st' := by
  rw [Blf.innerLoop, Option.map_eq_some_iff] at h
  obtain ⟨x, ran, rfl⟩ := h
  have round : ∀ {x y : Bytes × State}, innerBody x = some (.stop y) ∨ innerBody x = some (.next y) →
      Counted x.2 → Counted y.2 := by
    intro x y step counted
    rw [innerBody_state step]
    split
    · exact counted
    · exact counted.parseObject _
  exact Loop.run_keeps (I := fun x => Counted x.2) (Q := fun x => Counted x.2)
    (fun x counted => ⟨fun y step => round (.inl step) counted, fun y step => round (.inr step) counted⟩)
    fuel (c, st) x counted ran

theorem Counted.outerLoop {qt : Qt} {fuel n : Nat} {x r : Bytes × State} (counted : Counted x.2)
    (ran : Loop.run (outerBody qt fuel) n x = some r) : Counted r.2 := by
  have round : ∀ {y z : Bytes × State}, outerBody qt fuel y = some (.stop z) ∨ outerBody qt fuel y = some (.next z) →
      Counted y.2 → Counted z.2 := by
    intro y z step counted
    rcases outerBody_state step with same | ⟨c, ran⟩
    · rwa [same]
    · exact counted.innerLoop ran
  exact Loop.run_keeps (I := fun y => Counted y.2) (Q := fun y => Counted y.2)
    (fun y counted => ⟨fun z step => round (.inl step) counted, fun z step => round (.inr step) counted⟩)
    n x r counted ran

theorem parse_ok {qt : Qt} {fuel : Nat} {file : Bytes} {msgs : List CanLogMsg}
    (h : parse qt fuel file = some (.ok msgs)) :
    ∃ r, Loop.run (outerBody qt fuel) fuel (behindHeader file, {}) = some r ∧ r.2.messages = msgs := by
  simp only [parse] at h
  split at h
  · cases h
  · obtain ⟨r, ran, same⟩ := Option.map_eq_some_iff.mp h
    exact ⟨r, ran, Except.ok.inj same⟩

theorem parse_numbers {qt : Qt} {fuel : Nat} {file : Bytes} {msgs : List CanLogMsg}
    (h : parse qt fuel file = some (.ok msgs)) :
    msgs.map (·.number) = (List.range msgs.length).map UInt32.ofNat := by
  obtain ⟨r, ran, rfl⟩ := parse_ok h
  exact (counted_start.outerLoop ran).numbers

/-! ### Whole objects -/

/-- An object of the file with its padding, of a size that `getObject` reads in one piece. -/
structure Block where
  bytes : Bytes
  signed : bytes.take 4 = lobj
  covers : objHeaderSize ≤ declaredSize bytes
  fits : declaredSize bytes - objHeaderSize < 2 ^ 31
  whole : bytes.length = declaredSize bytes + declaredSize bytes % 4

namespace Block

theorem sixteen_le (b : Block) : 16 ≤ b.bytes.length := by
  have covers : 16 ≤ declaredSize b.bytes := b.covers
  have whole := b.whole
  omega

theorem field_followed (b : Block) {offset width : Nat} (h : offset + width ≤ 16) (more : Bytes) :
    field offset width (b.bytes ++ more) = field offset width b.bytes :=
  field_append (Nat.le_trans h b.sixteen_le) more

theorem objectData_followed (b : Block) (more : Bytes) :
    objectData (b.bytes ++ more) = ((objectData b.bytes).1, more) := by
  have size : declaredSize (b.bytes ++ more) = declaredSize b.bytes := b.field_followed (by decide) more
  have dataSize : dataSizeOf (declaredSize b.bytes) = declaredSize b.bytes - 16 := if_neg (Nat.not_lt.mpr b.covers)
  have covers : 16 ≤ declaredSize b.bytes := b.covers
  have whole := b.whole
  have fits : declaredSize b.bytes - 16 < 2 ^ 31 := b.fits
  have inside : declaredSize b.bytes - 16 ≤ (b.bytes.drop 16).length := by
    rw [List.length_drop]
    omega
  refine Prod.ext ?_ ?_
  · rw [objectData, objectData, size, dataSize, List.drop_append_of_le_length b.sixteen_le, readData, readData, readRaw,
      readRaw, if_pos fits, if_pos fits, List.take_append_of_le_length inside]
  · rw [objectData, readData_snd, size, dataSize, if_pos fits, List.drop_drop]
    exact List.drop_left' (by omega)

/-- What the parser does with the object. -/
def effect (qt : Qt) (fuel : Nat) (b : Block) (st : State) : Option State :=
  (containerOf b.bytes).elim (some st) fun objData => unpack qt fuel objData st

theorem getObject_followed (qt : Qt) (fuel : Nat) (b : Block) (more : Bytes) (st : State) :
    getObject qt fuel (b.bytes ++ more) st = (b.effect qt fuel st).map fun st => (0, more, st) := by
  have signature : (b.bytes ++ more).take 4 = lobj := by
    rw [List.take_append_of_le_length (Nat.le_trans (by decide) b.sixteen_le), b.signed]
  rw [getObject_eq, if_neg (not_not.mpr signature), containerOf, b.field_followed (by decide), b.objectData_followed]
  rfl

def effects (qt : Qt) (fuel : Nat) (bs : List Block) (st : State) : Option State :=
  bs.foldlM (fun st b => b.effect qt fuel st) st

def content (bs : List Block) : Bytes := bs.flatMap (·.bytes)

theorem outerBody_followed (qt : Qt) (fuel : Nat) (b : Block) (more : Bytes) (st : State) :
    outerBody qt fuel (b.bytes ++ more, st) = (b.effect qt fuel st).map fun st => .next (more, st) := by
  have unread : ¬(b.bytes ++ more).length = 0 := by
    have long := b.sixteen_le
    rw [List.length_append]
    omega
  rw [outerBody, if_neg unread, b.getObject_followed]
  cases b.effect qt fuel st <;> rfl

/-- The loop of `parse` takes one round for every object. -/
theorem run_content (qt : Qt) (fuel : Nat) (more : Bytes) (n : Nat) (bs : List Block) :
    ∀ st, Loop.run (outerBody qt fuel) (n + bs.length) (content bs ++ more, st) =
      (effects qt fuel bs st).bind fun st => Loop.run (outerBody qt fuel) n (more, st) := by
  induction bs with
  | nil => exact fun st => rfl
  | cons b bs ih =>
    intro st
    have round := outerBody_followed qt fuel b (content bs ++ more) st
    rw [effects, List.foldlM_cons, content, List.flatMap_cons, List.append_assoc, List.length_cons, ← Nat.add_assoc]
    change Loop.run _ _ (b.bytes ++ (content bs ++ more), st) = _
    cases read : b.effect qt fuel st with
    | none =>
      rw [read] at round
      rw [Loop.run, round]
      rfl
    | some st' =>
      rw [read] at round
      rw [Loop.run_next round, ih]
      rfl

theorem run_few (qt : Qt) (fuel : Nat) (more : Bytes) (bs : List Block) :
    ∀ n st, n ≤ bs.length → Loop.run (outerBody qt fuel) n (content bs ++ more, st) = none := by
  induction bs with
  | nil =>
    intro n st few
    obtain rfl := Nat.le_zero.mp few
    rfl
  | cons b bs ih =>
    intro n st few
    cases n with
    | zero => rfl
    | succ n =>
      rw [content, List.flatMap_cons, List.append_assoc, Loop.run, outerBody_followed]
      cases b.effect qt fuel st with
      | none => rfl
      | some st' => exact ih n st' (Nat.le_of_succ_le_succ few)

end Block

/-! ### Files -/

/-- How much of the file header follows the fields that `parse` reads, as its size field has it. -/
def headSkip (file : Bytes) : Nat := (narrowInt ((field 4 4 file : Int) - headerDataSize)).toNat

/-- A whole file header. -/
structure Head where
  bytes : Bytes
  signed : bytes.take 4 = logg
  whole : bytes.length = headerDataSize + headSkip bytes

theorem behindHeader_eq (file : Bytes) : behindHeader file = file.drop (headerDataSize + headSkip file) := by
  have size : (read 4 (file.drop 4)).1 = field 4 4 file := rfl
  simp only [behindHeader, readRaw_signature, read_snd, List.drop_drop, size]
  rfl

theorem Head.behind (head : Head) (more : Bytes) : behindHeader (head.bytes ++ more) = more := by
  have long : 4 + 4 ≤ head.bytes.length := by
    rw [head.whole]
    exact Nat.le_trans (by decide) (Nat.le_add_right headerDataSize _)
  have skip : headSkip (head.bytes ++ more) = headSkip head.bytes := by
    rw [headSkip, headSkip, field_append long]
  rw [behindHeader_eq, skip]
  exact List.drop_left' head.whole

theorem parse_eq (qt : Qt) (fuel : Nat) {file : Bytes} (signed : file.take 4 = logg) :
    parse qt fuel file = (Loop.run (outerBody qt fuel) fuel (behindHeader file, {})).map fun r => .ok r.2.messages := by
  have signature : ¬(readRaw signatureSize file).1 ≠ logg := by
    rw [readRaw_signature]
    exact not_not.mpr signed
  rw [parse]
  dsimp only
  rw [if_neg signature]
  rfl

theorem Head.parse_eq (head : Head) (qt : Qt) (fuel : Nat) (more : Bytes) :
    parse qt fuel (head.bytes ++ more) =
      (Loop.run (outerBody qt fuel) fuel (more, {})).map fun r => .ok r.2.messages := by
  have long : 4 ≤ head.bytes.length := by
    rw [head.whole]
    exact Nat.le_trans (by decide) (Nat.le_add_right headerDataSize _)
  rw [Blf.parse_eq qt fuel (by rw [List.take_append_of_le_length long, head.signed]), head.behind]

/-- What has been read from the whole objects of a file stays, whatever bytes follow them. -/
theorem parse_grown {qt : Qt} {fuel : Nat} (head : Head) (bs : List Block) (more : Bytes) {msgs : List CanLogMsg}
    (grown : parse qt fuel (head.bytes ++ (Block.content bs ++ more)) = some (.ok msgs)) :
    ∃ first, parse qt fuel (head.bytes ++ Block.content bs) = some (.ok first) ∧ first <+: msgs := by
  rw [head.parse_eq] at grown ⊢
  obtain ⟨r, ran, same⟩ := Option.map_eq_some_iff.mp grown
  obtain rfl := Except.ok.inj same
  have enough : bs.length < fuel := by
    by_contra few
    rw [Block.run_few qt fuel more bs fuel {} (Nat.le_of_not_lt few)] at ran
    cases ran
  obtain ⟨n, outer⟩ : ∃ n, fuel = n + 1 + bs.length := ⟨fuel - bs.length - 1, by omega⟩
  have all := Block.run_content qt fuel more (n + 1) bs {}
  have some := Block.run_content qt fuel [] (n + 1) bs {}
  rw [← outer] at all some
  rw [all] at ran
  obtain ⟨st, read, rest⟩ := Option.bind_eq_some_iff.mp ran
  rw [List.append_nil, read, Option.bind_some, Loop.run_stop rfl] at some
  refine ⟨st.messages, by rw [some]; rfl, ?_⟩
  exact outerLoop_grows rest

/-- The shortest file header. -/
def plainHead : Head where
  bytes := logg ++ [72, 0, 0, 0] ++ zeros 64
  signed := by decide
  whole := by decide

/-- A container without compression that holds one CAN object. -/
def storedObject : Block where
  bytes := lobj ++ [16, 0, 1, 0, 80, 0, 0, 0, 10, 0, 0, 0] ++ zeros 8 ++ [48, 0, 0, 0] ++ zeros 4 ++ canObject.bytes
  signed := by decide
  covers := by decide
  fits := by decide
  whole := by decide

/-- The object as it was recorded. -/
def storedMessage : CanLogMsg :=
  { id := 3, time := 5 / 10 ^ 9, channel := 1, dlc := 1, data := (Vector.replicate 8 0).set 0 255 }

/-- A file that breaks off inside an object: the bytes that are missing count as zero, and a message comes of
them, but it stands behind those of the whole objects. -/
theorem parse_grown_brokenOff :
    ∃ first, parse plainBuild 9 (plainHead.bytes ++ Block.content [storedObject]) = some (.ok first) ∧
      first <+: [storedMessage, { number := 1, time := 5 / 10 ^ 9, dlc := 0 }] :=
  parse_grown plainHead [storedObject] (storedObject.bytes.take 60) (by decide +kernel)

end CanTracer.Blf
