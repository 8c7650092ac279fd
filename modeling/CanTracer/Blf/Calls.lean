import CanTracer.Blf.Containers

/-!
# The calls of a file

Every message that `BlfParser::parse` returns comes from a call of `parseObject` with a complete
CAN object, and keeps the DLC byte of that object as it is.
-/

namespace CanTracer.Blf

/-! ### One call -/

def canDlc (b : Bytes) : Option UInt8 :=
  if b.length < 16 then none
  else
    (indexOf lobj b).bind fun index =>
      let header := headerOf (b.drop index)
      if index + header.objSize > b.length then none
      else if header.isCan then some (field (16 + (stampEnd header.headerVersion + 3)) 1 (b.drop index)).toUInt8
      else none

theorem readHeader_drop (b : Bytes) (index : Nat) :
    readHeader (b.drop (index + 4)) = (headerOf (b.drop index), (b.drop index).drop 16) := by
  rw [readHeader_eq, headerOf]
  simp only [field_drop, List.drop_drop, Nat.add_assoc, Nat.reduceAdd]

/-- The bytes from the signature on, when a complete object of a CAN type stands there. -/
def firstCan (b : Bytes) : Option Bytes :=
  if b.length < 16 then none
  else
    (indexOf lobj b).bind fun index =>
      let header := headerOf (b.drop index)
      if index + header.objSize > b.length then none
      else if header.isCan then some (b.drop index)
      else none

def readObject (number : UInt32) (o : Bytes) : CanLogMsg := readCan (headerOf o).headerVersion number (o.drop 16)

theorem canDlc_eq (b : Bytes) : canDlc b = (firstCan b).map fun o => (readObject 0 o).dlc := by
  unfold canDlc firstCan
  split
  · rfl
  · cases indexOf lobj b with
    | none => rfl
    | some index =>
      simp only [Option.bind_some, readObject, readCan_eq]
      split_ifs
      · rfl
      · rw [Option.map_some, field_drop _ 1 16]
      · rfl

theorem parseObject_messages (b : Bytes) (st : State) :
    (parseObject b st).2.messages = st.messages ++ ((firstCan b).map (readObject st.counter)).toList := by
  have nothing : st.messages = st.messages ++ ((none : Option Bytes).map (readObject st.counter)).toList :=
    (List.append_nil _).symm
  by_cases few : b.length < 16
  · rw [parseObject_short few, firstCan, if_pos few]
    exact nothing
  · cases found : indexOf lobj b with
    | none =>
      rw [parseObject, if_neg few, found, firstCan, if_neg few, found]
      exact nothing
    | some index =>
      rw [parseObject, if_neg few, found, firstCan, if_neg few, found]
      simp only [readHeader_drop, Option.bind_some]
      by_cases long : index + (headerOf (b.drop index)).objSize > b.length
      · rw [if_pos long, if_pos long]
        exact nothing
      · rw [if_neg long, if_neg long]
        have appended (s : Bytes) : ({ st with remain := [] } : State).append (headerOf (b.drop index)) s =
            if (headerOf (b.drop index)).isCan then
              { remain := [], counter := st.counter + 1,
                messages := st.messages ++ [readCan (headerOf (b.drop index)).headerVersion st.counter s] }
            else { st with remain := [] } := rfl
        rw [appended]
        cases indexOfFrom lobj b (index + (headerOf (b.drop index)).objSize) <;> split_ifs <;> first | rfl | exact nothing

theorem parseObject_new (b : Bytes) (st : State) :
    ∃ new, (parseObject b st).2.messages = st.messages ++ new ∧ (∀ msg ∈ new, msg.id ≤ 0x1FFFFFFF) ∧
      new.map (·.dlc) = (canDlc b).toList := by
  refine ⟨_, parseObject_messages b st, ?_⟩
  rw [canDlc_eq]
  cases firstCan b with
  | none => exact ⟨nofun, rfl⟩
  | some o =>
    refine ⟨fun msg hmsg => ?_,
      by simp only [Option.map_some, Option.toList_some, List.map_cons, List.map_nil, readObject, readCan_eq]⟩
    rw [Option.map_some, Option.toList_some, List.mem_singleton] at hmsg
    rw [hmsg, readObject, readCan_eq]
    exact UInt32.and_le_right

/-! ### One container -/

theorem innerBody_state {x y : Bytes × State}
    (h : innerBody x = some (.stop y) ∨ innerBody x = some (.next y)) :
    y.2 = if x.1.length = 0 then x.2 else (parseObject (buffer x.1 x.2) x.2).2 := by
  obtain ⟨c, st⟩ := x
  unfold innerBody at h
  dsimp only at h ⊢
  split
  · rename_i empty
    rw [if_pos empty] at h
    rcases h with h | h
    · obtain rfl := Loop.Next.stop.inj (Option.some.inj h)
      rfl
    · cases h
  · rename_i unread
    rw [if_neg unread] at h
    split at h
    · rcases h with h | h
      · cases h
      · rw [← Loop.Next.next.inj (Option.some.inj h)]
    · rcases h with h | h
      · rw [← Loop.Next.stop.inj (Option.some.inj h)]
      · cases h

def roundDlc (x : Bytes × State) : List UInt8 := if x.1.length = 0 then [] else (canDlc (buffer x.1 x.2)).toList

theorem calls_dlc (fuel : Nat) (c : Bytes) (st : State) :
    (calls fuel c st).filterMap canDlc = (Loop.visited innerBody fuel (c, st)).flatMap roundDlc := by
  rw [calls]
  induction Loop.visited innerBody fuel (c, st) with
  | nil => rfl
  | cons x xs ih =>
    rw [List.flatMap_cons, ← ih, roundDlc]
    by_cases unread : x.1.length = 0
    · rw [List.filter_cons_of_neg (by simpa using unread), if_pos unread, List.nil_append]
    · rw [List.filter_cons_of_pos (by simpa using unread), List.map_cons, List.filterMap_cons, if_neg unread]
      cases canDlc (buffer x.1 x.2) <;> rfl

theorem innerLoop_dlc {fuel : Nat} {c : Bytes} {st st' : State} (h : innerLoop fuel c st = some st') :
    st'.messages.map (·.dlc) = st.messages.map (·.dlc) ++ (calls fuel c st).filterMap canDlc := by
  rw [innerLoop, Option.map_eq_some_iff] at h
  obtain ⟨x, ran, rfl⟩ := h
  rw [calls_dlc]
  refine Loop.run_collect (fun x : Bytes × State => x.2.messages.map (·.dlc)) roundDlc (fun x y step => ?_) fuel (c, st) x ran
  rw [innerBody_state step, roundDlc]
  split
  · exact (List.append_nil _).symm
  · obtain ⟨new, messages, -, dlcs⟩ := parseObject_new (buffer x.1 x.2) x.2
    rw [messages, List.map_append, dlcs]

def Masked (st : State) : Prop := ∀ msg ∈ st.messages, msg.id ≤ 0x1FFFFFFF

theorem innerBody_masked {x y : Bytes × State}
    (h : innerBody x = some (.stop y) ∨ innerBody x = some (.next y))
    (masked : Masked x.2) : Masked y.2 := by
  rw [innerBody_state h]
  split
  · exact masked
  · obtain ⟨new, messages, ids, -⟩ := parseObject_new (buffer x.1 x.2) x.2
    rw [Masked, messages]
    exact List.forall_mem_append.mpr ⟨masked, ids⟩

theorem innerLoop_masked {fuel : Nat} {c : Bytes} {st st' : State} (h : innerLoop fuel c st = some st')
    (masked : Masked st) :
    Masked st' := by
  rw [innerLoop, Option.map_eq_some_iff] at h
  obtain ⟨x, ran, rfl⟩ := h
  exact Loop.run_keeps (I := fun x => Masked x.2) (Q := fun x => Masked x.2)
    (fun x inv => ⟨fun y step => innerBody_masked (.inl step) inv, fun y step => innerBody_masked (.inr step) inv⟩)
    fuel (c, st) x masked ran

/-! ### The file -/

def unpacked (qt : Qt) (s : Bytes) : Option Bytes :=
  let (signature, s) := readRaw signatureSize s
  if signature ≠ lobj then none
  else
    let (_headerSize, s) := read 2 s
    let (_headerVersion, s) := read 2 s
    let (objSize, s) := read 4 s
    let (objType, s) := read 4 s
    let (objData, _) := readData (dataSizeOf objSize) s
    if objType ≠ logContainer then none else containerData qt objData

theorem getObject_state {qt : Qt} {fuel : Nat} {s s' : Bytes} {st st' : State} {ret : Int}
    (h : getObject qt fuel s st = some (ret, s', st')) :
    (unpacked qt s = none ∧ st' = st) ∨ ∃ c, unpacked qt s = some c ∧ innerLoop fuel c st = some st' := by
  simp only [getObject] at h
  simp only [unpacked]
  split at h
  · rename_i other
    rw [if_pos other]
    exact .inl ⟨rfl, (Prod.mk.inj (Prod.mk.inj (Option.some.inj h)).2).2.symm⟩
  · rename_i signed
    rw [if_neg signed]
    split at h
    · rename_i other
      rw [if_pos other]
      exact .inl ⟨rfl, (Prod.mk.inj (Prod.mk.inj (Option.some.inj h)).2).2.symm⟩
    · rename_i container
      rw [if_neg container]
      split at h
      · rename_i unknown
        exact .inl ⟨unknown, (Prod.mk.inj (Prod.mk.inj (Option.some.inj h)).2).2.symm⟩
      · rename_i c data
        obtain ⟨st'', ran, same⟩ := Option.map_eq_some_iff.mp h
        obtain rfl := (Prod.mk.inj (Prod.mk.inj same).2).2
        exact .inr ⟨c, data, ran⟩

def objectCalls (qt : Qt) (fuel : Nat) (x : Bytes × State) : List Bytes :=
  if x.1.length = 0 then [] else (unpacked qt x.1).elim [] fun c => calls fuel c x.2

def behindHeader (file : Bytes) : Bytes :=
  let (_signature, s) := readRaw signatureSize file
  let (headerSize, s) := read 4 s
  (s.drop fileHeaderRest).drop (narrowInt ((headerSize : Int) - headerDataSize)).toNat

def fileCalls (qt : Qt) (fuel : Nat) (file : Bytes) : List Bytes :=
  (Loop.visited (outerBody qt fuel) fuel (behindHeader file, {})).flatMap (objectCalls qt fuel)

theorem getObject_new {qt : Qt} {fuel : Nat} {s s' : Bytes} {st st' : State} {ret : Int}
    (h : getObject qt fuel s st = some (ret, s', st')) :
    st'.messages.map (·.dlc) =
        st.messages.map (·.dlc) ++ ((unpacked qt s).elim [] fun c => calls fuel c st).filterMap canDlc ∧
      (Masked st → Masked st') := by
  rcases getObject_state h with ⟨none, rfl⟩ | ⟨c, data, ran⟩
  · rw [none]
    exact ⟨(List.append_nil _).symm, id⟩
  · rw [data]
    exact ⟨innerLoop_dlc ran, innerLoop_masked ran⟩

theorem outerBody_new {qt : Qt} {fuel : Nat} {x y : Bytes × State}
    (h : outerBody qt fuel x = some (.stop y) ∨ outerBody qt fuel x = some (.next y)) :
    y.2.messages.map (·.dlc) = x.2.messages.map (·.dlc) ++ (objectCalls qt fuel x).filterMap canDlc ∧
      (Masked x.2 → Masked y.2) := by
  obtain ⟨s, st⟩ := x
  unfold outerBody at h
  unfold objectCalls
  dsimp only at h ⊢
  by_cases atEnd : s.length = 0
  · rw [if_pos atEnd] at h ⊢
    rcases h with h | h
    · obtain rfl := Loop.Next.stop.inj (Option.some.inj h)
      exact ⟨(List.append_nil _).symm, id⟩
    · cases h
  · rw [if_neg atEnd] at h ⊢
    rcases h with h | h
    all_goals
      obtain ⟨⟨ret, s', st'⟩, called, ended⟩ := Option.map_eq_some_iff.mp h
      dsimp only at ended
      split at ended
    · obtain rfl := Loop.Next.stop.inj ended
      exact getObject_new called
    · cases ended
    · cases ended
    · obtain rfl := Loop.Next.next.inj ended
      exact getObject_new called

/-- The messages of a file keep the DLC bytes of its CAN objects, and their identifiers are masked. -/
theorem parse_messages {qt : Qt} {fuel : Nat} {file : Bytes} {msgs : List CanLogMsg}
    (h : parse qt fuel file = some (.ok msgs)) :
    msgs.map (·.dlc) = (fileCalls qt fuel file).filterMap canDlc ∧ ∀ msg ∈ msgs, msg.id ≤ 0x1FFFFFFF := by
  simp only [parse] at h
  split at h
  · cases h
  · obtain ⟨x, ran, same⟩ := Option.map_eq_some_iff.mp h
    obtain rfl := Except.ok.inj same
    have dlcs := Loop.run_collect (fun x : Bytes × State => x.2.messages.map (·.dlc))
      (fun x => (objectCalls qt fuel x).filterMap canDlc) (fun x y step => (outerBody_new step).1) fuel _ x ran
    have masked := Loop.run_keeps (I := fun x : Bytes × State => Masked x.2) (Q := fun x => Masked x.2)
      (fun x inv => ⟨fun y step => (outerBody_new (.inl step)).2 inv, fun y step => (outerBody_new (.inr step)).2 inv⟩)
      fuel _ x (by simp [Masked]) ran
    refine ⟨?_, masked⟩
    rw [dlcs, fileCalls, List.filterMap_flatMap]
    rfl

end CanTracer.Blf
