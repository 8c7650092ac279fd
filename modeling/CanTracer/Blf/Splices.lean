import CanTracer.Blf.Termination

/-!
# Containers that cannot be decoded

A buffer should be made of bytes that follow one another in consecutive decodable containers. The
run over a file's containers is followed with those seen since the last one that broke the chain.
-/

namespace CanTracer.Blf

def unpackAll (qt : Qt) (fuel : Nat) : List Bytes → State → Option State
  | [], st => some st
  | objData :: ds, st => (unpack qt fuel objData st).bind (unpackAll qt fuel ds)

/-! ### Broken containers -/

/-- `parseObject` returns -1 for the buffer. -/
def Lost (b : Bytes) : Prop := 16 ≤ b.length ∧ indexOf lobj b = none

/-- The compression method is unknown, or `qUncompress` returned an empty array. -/
def Unreadable (qt : Qt) (objData : Bytes) : Prop :=
  containerData qt objData = none ∨ (read 2 objData).1 ≠ noCompress ∧ containerData qt objData = some []

def contents (qt : Qt) (objData : Bytes) : Bytes := (containerData qt objData).getD []

def containerCalls (qt : Qt) (fuel : Nat) (objData : Bytes) (st : State) : List Bytes :=
  (containerData qt objData).elim [] fun c => calls fuel c st

def Broken (qt : Qt) (fuel : Nat) (objData : Bytes) (st : State) : Prop :=
  Unreadable qt objData ∨ ∃ b ∈ containerCalls qt fuel objData st, Lost b

instance (b : Bytes) : Decidable (Lost b) := inferInstanceAs (Decidable (_ ∧ _))

instance (qt : Qt) (objData : Bytes) : Decidable (Unreadable qt objData) := inferInstanceAs (Decidable (_ ∨ _))

instance (qt : Qt) (fuel : Nat) (objData : Bytes) (st : State) : Decidable (Broken qt fuel objData st) :=
  inferInstanceAs (Decidable (_ ∨ _))

/-- Each call of `parseObject` with its buffer, behind the contents `w` of the containers since the
last broken one, the container of the call included. -/
def chainCalls (qt : Qt) (fuel : Nat) : List Bytes → Bytes → State → List (Bytes × Bytes)
  | [], _, _ => []
  | objData :: ds, w, st =>
    (containerCalls qt fuel objData st).map (w ++ contents qt objData, ·) ++
      (unpack qt fuel objData st).elim []
        (chainCalls qt fuel ds (if Broken qt fuel objData st then [] else w ++ contents qt objData))

/-- Nothing is carried when a container cannot be decoded from its first call on, and the length of
the buffer does not wrap around to a positive `int`. -/
def Clean (qt : Qt) (fuel : Nat) : List Bytes → State → Prop
  | [], _ => True
  | objData :: ds, st =>
    (Unreadable qt objData ∨ contents qt objData ≠ [] ∧ Lost (buffer (contents qt objData) st) → st.remain = []) ∧
      (buffer (contents qt objData) st).length < 2 ^ 32 ∧
      ∀ st' ∈ unpack qt fuel objData st, Clean qt fuel ds st'

instance decidableClean (qt : Qt) (fuel : Nat) : ∀ ds st, Decidable (Clean qt fuel ds st)
  | [], _ => .isTrue trivial
  | _ :: ds, _ =>
    have := decidableClean qt fuel ds
    inferInstanceAs (Decidable (_ ∧ _ ∧ _))

/-- The message is read from an object whose bytes follow one another in the chain. -/
def Contiguous (chain : List (Bytes × Bytes)) (msg : CanLogMsg) : Prop :=
  ∃ x ∈ chain, ∃ o ∈ firstCan x.2, msg = readObject msg.number o ∧ o.take (headerOf o).objSize <:+: x.1

/-! ### The messages of a container -/

theorem readObject_number (number : UInt32) (o : Bytes) : (readObject number o).number = number := by
  rw [readObject, readCan_eq]

theorem innerLoop_messages {fuel : Nat} {c : Bytes} {st st' : State} (ran : innerLoop fuel c st = some st') :
    ∀ msg ∈ st'.messages, msg ∈ st.messages ∨
      ∃ b ∈ calls fuel c st, ∃ o ∈ firstCan b, msg = readObject msg.number o := by
  rw [innerLoop, Option.map_eq_some_iff] at ran
  obtain ⟨x, ran, rfl⟩ := ran
  have added := Loop.run_collect (fun x : Bytes × State => x.2.messages)
    (fun x => if x.1.length = 0 then [] else ((firstCan (buffer x.1 x.2)).map (readObject x.2.counter)).toList)
    (fun x y step => by
      rw [innerBody_state step]
      split
      · exact (List.append_nil _).symm
      · exact parseObject_messages _ _) fuel (c, st) x ran
  intro msg hmsg
  rw [added] at hmsg
  rcases List.mem_append.mp hmsg with old | new
  · exact Or.inl old
  · right
    obtain ⟨y, visited, here⟩ := List.mem_flatMap.mp new
    split at here
    · cases here
    · rename_i unread
      rw [Option.mem_toList, Option.map_eq_some_iff] at here
      obtain ⟨o, first, rfl⟩ := here
      refine ⟨buffer y.1 y.2, List.mem_map.mpr ⟨y, List.mem_filter.mpr ⟨visited, by simpa using unread⟩, rfl⟩, o, first, ?_⟩
      rw [readObject_number]

/-! ### The chain in a container -/

/-- Bytes carried and unread end the chain `w`, and the carried ones are those of the start unless
there is nothing carried or nothing unread. -/
structure Chained (w : Bytes) (start x : Bytes × State) : Prop where
  suffix : x.2.remain ++ x.1 <:+ w
  carried : x = start ∨ x.2.remain = [] ∨ x.1 = []
  short : x.1 ≠ [] → (buffer x.1 x.2).length < 2 ^ 32

theorem narrowInt_wraps {n : Nat} (fits : n < 2 ^ 32) (wraps : 2 ^ 31 ≤ n) : narrowInt n ≤ 0 := by
  rw [narrowInt, Int.bmod_def]
  omega

theorem innerBody_chained {w : Bytes} {start x : Bytes × State} (chained : Chained w start x) :
    (∀ y, innerBody x = some (.stop y) → Lost (buffer x.1 x.2) ∧ x.1 ≠ [] ∨ y.2.remain <:+ w) ∧
      ∀ y, innerBody x = some (.next y) → Chained w start y := by
  obtain ⟨c, st⟩ := x
  have suffix : buffer c st <:+ w := by
    rw [buffer_eq]
    exact chained.suffix
  by_cases unread : c = []
  · subst unread
    rw [innerBody_empty]
    refine ⟨fun y stop => Or.inr ?_, nofun⟩
    obtain rfl := Loop.Next.stop.inj (Option.some.inj stop)
    rw [buffer_eq, List.append_nil] at suffix
    exact suffix
  have short : (buffer c st).length < 2 ^ 32 := chained.short unread
  rw [innerBody_unread unread]
  rcases parseObject_cases (buffer c st) st with carried | ⟨long, none, given⟩ | ⟨index, -, -, -, nothing⟩
  · rw [carried]
    by_cases fits : (buffer c st).length < 2 ^ 31
    · have pos : narrowInt (buffer c st).length > 0 := by
        rw [narrowInt_small fits, buffer_eq, List.length_append]
        have := List.length_pos_iff.mpr unread
        omega
      rw [if_pos pos, narrowInt_small fits]
      refine ⟨nofun, fun y next => ?_⟩
      obtain rfl := Loop.Next.next.inj (Option.some.inj next)
      rw [Int.toNat_natCast, List.drop_length]
      refine ⟨?_, Or.inr (Or.inr rfl), fun more => absurd rfl more⟩
      rw [List.append_nil]
      exact suffix
    · have wraps : narrowInt (buffer c st).length ≤ 0 := narrowInt_wraps short (Nat.le_of_not_lt fits)
      rw [if_neg (show ¬narrowInt (buffer c st).length > 0 by omega)]
      refine ⟨fun y stop => Or.inr ?_, nofun⟩
      obtain rfl := Loop.Next.stop.inj (Option.some.inj stop)
      exact suffix
  · rw [given, if_neg (show ¬(-1 : Int) > 0 by decide)]
    exact ⟨fun _ _ => Or.inl ⟨⟨long, none⟩, unread⟩, nofun⟩
  · split
    · refine ⟨nofun, fun y next => ?_⟩
      obtain rfl := Loop.Next.next.inj (Option.some.inj next)
      refine ⟨?_, Or.inr (Or.inl nothing), fun _ => ?_⟩
      · rw [nothing, List.nil_append]
        exact (List.drop_suffix _ _).trans suffix
      · rw [buffer_eq, nothing, List.nil_append, List.length_drop]
        omega
    · refine ⟨fun y stop => Or.inr ?_, nofun⟩
      obtain rfl := Loop.Next.stop.inj (Option.some.inj stop)
      rw [nothing]
      exact List.nil_suffix

theorem mem_calls {fuel : Nat} {c b : Bytes} {st : State} :
    b ∈ calls fuel c st ↔ ∃ x ∈ Loop.visited innerBody fuel (c, st), x.1 ≠ [] ∧ buffer x.1 x.2 = b := by
  simp only [calls, List.mem_map, List.mem_filter, decide_eq_true_iff, ne_eq, List.length_eq_zero_iff, and_assoc]

theorem innerLoop_chained {fuel : Nat} {w c : Bytes} {st st' : State} (ran : innerLoop fuel c st = some st')
    (carried : st.remain <:+ w) (clean : c ≠ [] → Lost (buffer c st) → st.remain = [])
    (short : (buffer c st).length < 2 ^ 32) :
    (∀ b ∈ calls fuel c st, b <:+ w ++ c) ∧ st'.remain <:+ w ++ c ∧
      ((∃ b ∈ calls fuel c st, Lost b) → st'.remain = []) := by
  have start : Chained (w ++ c) (c, st) (c, st) := by
    refine ⟨?_, Or.inl rfl, fun _ => short⟩
    obtain ⟨front, rfl⟩ := carried
    exact ⟨front, (List.append_assoc _ _ _).symm⟩
  have visited := Loop.visited_keeps (fun x y chained next => (innerBody_chained chained).2 y next) fuel (c, st) start
  -- The call that finds no signature ends the loop, and nothing is carried then.
  have lost : ∀ x ∈ Loop.visited innerBody fuel (c, st), x.1 ≠ [] → Lost (buffer x.1 x.2) → st'.remain = [] := by
    intro x hx unread gone
    have given : parseObject (buffer x.1 x.2) x.2 = (-1, x.2) := by
      rw [parseObject, if_neg (Nat.not_lt.mpr gone.1), gone.2]
    have stop : innerBody x = some (.stop (buffer x.1 x.2, x.2)) := by
      have body := innerBody_unread unread x.2
      rw [given, if_neg (show ¬(-1 : Int) > 0 by decide)] at body
      exact body
    rw [innerLoop, Loop.run_of_mem_visited stop fuel (c, st) hx] at ran
    obtain rfl := Option.some.inj ran
    rcases (visited x hx).carried with rfl | nothing | empty
    · exact clean unread gone
    · exact nothing
    · exact absurd empty unread
  refine ⟨fun b hb => ?_, ?_, ?_⟩
  · obtain ⟨x, hx, -, rfl⟩ := mem_calls.mp hb
    rw [buffer_eq]
    exact (visited x hx).suffix
  · rw [innerLoop, Option.map_eq_some_iff] at ran
    obtain ⟨r, ran, rfl⟩ := ran
    obtain ⟨x, hx, stop⟩ := Loop.mem_visited_of_run fuel (c, st) ran
    rcases (innerBody_chained (visited x hx)).1 r stop with ⟨gone, unread⟩ | suffix
    · rw [lost x hx unread gone]
      exact List.nil_suffix
    · exact suffix
  · rintro ⟨b, hb, gone⟩
    obtain ⟨x, hx, unread, rfl⟩ := mem_calls.mp hb
    exact lost x hx unread gone

/-! ### The run over the containers -/

theorem innerLoop_empty {fuel : Nat} {st st' : State} (ran : innerLoop fuel [] st = some st') : st' = st := by
  cases fuel with
  | zero => cases ran
  | succ n =>
    rw [innerLoop, Loop.run_stop (innerBody_empty st)] at ran
    exact (Option.some.inj ran).symm

theorem unpack_chained {qt : Qt} {fuel : Nat} {w objData : Bytes} {st st' : State}
    (ran : unpack qt fuel objData st = some st') (carried : st.remain <:+ w)
    (clean : Unreadable qt objData ∨ contents qt objData ≠ [] ∧ Lost (buffer (contents qt objData) st) → st.remain = [])
    (short : (buffer (contents qt objData) st).length < 2 ^ 32) :
    (∀ b ∈ containerCalls qt fuel objData st, b <:+ w ++ contents qt objData) ∧
      st'.remain <:+ if Broken qt fuel objData st then [] else w ++ contents qt objData := by
  have nothing : st'.remain = [] → st'.remain <:+ if Broken qt fuel objData st then [] else w ++ contents qt objData :=
    fun none => by rw [none]; exact List.nil_suffix
  rw [unpack] at ran
  rw [containerCalls]
  cases data : containerData qt objData with
  | none =>
    rw [data] at ran
    obtain rfl := Option.some.inj ran
    refine ⟨fun b hb => ?_, nothing (clean (Or.inl (Or.inl data)))⟩
    cases hb
  | some c =>
    have own : contents qt objData = c := by rw [contents, data, Option.getD_some]
    rw [data] at ran
    rw [own] at clean short nothing ⊢
    obtain ⟨calls, suffix, lost⟩ := innerLoop_chained ran carried (fun unread gone => clean (Or.inr ⟨unread, gone⟩)) short
    refine ⟨calls, ?_⟩
    by_cases broken : Broken qt fuel objData st
    · rcases broken with (unknown | ⟨compressed, empty⟩) | gone
      · rw [data] at unknown
        cases unknown
      · -- Nothing is read from the empty array, so what is carried stays what it was.
        obtain rfl := Option.some.inj (data.symm.trans empty)
        rw [innerLoop_empty ran] at nothing ⊢
        exact nothing (clean (Or.inl (Or.inr ⟨compressed, data⟩)))
      · rw [containerCalls, data] at gone
        exact nothing (lost gone)
    · rw [if_neg broken]
      exact suffix

theorem unpackAll_suffix {qt : Qt} {fuel : Nat} (ds : List Bytes) :
    ∀ {w : Bytes} {st st' : State}, unpackAll qt fuel ds st = some st' → st.remain <:+ w → Clean qt fuel ds st →
      ∀ x ∈ chainCalls qt fuel ds w st, x.2 <:+ x.1 := by
  induction ds with
  | nil => intro w st st' _ _ _ x hx; cases hx
  | cons objData ds ih =>
    intro w st st' ran carried ⟨clean, short, rest⟩ x hx
    obtain ⟨st₁, first, ran⟩ := Option.bind_eq_some_iff.mp ran
    obtain ⟨calls, carried₁⟩ := unpack_chained first carried clean short
    rw [chainCalls, first, Option.elim_some] at hx
    rcases List.mem_append.mp hx with here | later
    · obtain ⟨b, hb, rfl⟩ := List.mem_map.mp here
      exact calls b hb
    · exact ih ran carried₁ (rest st₁ first) x later

theorem unpack_messages {qt : Qt} {fuel : Nat} {objData : Bytes} {st st' : State}
    (ran : unpack qt fuel objData st = some st') :
    ∀ msg ∈ st'.messages, msg ∈ st.messages ∨
      ∃ b ∈ containerCalls qt fuel objData st, ∃ o ∈ firstCan b, msg = readObject msg.number o := by
  rw [unpack] at ran
  rw [containerCalls]
  cases data : containerData qt objData with
  | none =>
    rw [data] at ran
    obtain rfl := Option.some.inj ran
    exact fun msg hmsg => Or.inl hmsg
  | some c =>
    rw [data] at ran
    exact innerLoop_messages ran

theorem unpackAll_messages {qt : Qt} {fuel : Nat} (ds : List Bytes) :
    ∀ (w : Bytes) {st st' : State}, unpackAll qt fuel ds st = some st' →
      ∀ msg ∈ st'.messages, msg ∈ st.messages ∨
        ∃ x ∈ chainCalls qt fuel ds w st, ∃ o ∈ firstCan x.2, msg = readObject msg.number o := by
  induction ds with
  | nil =>
    intro w st st' ran msg hmsg
    obtain rfl := Option.some.inj ran
    exact Or.inl hmsg
  | cons objData ds ih =>
    intro w st st' ran msg hmsg
    obtain ⟨st₁, first, ran⟩ := Option.bind_eq_some_iff.mp ran
    rw [chainCalls, first, Option.elim_some]
    rcases ih (if Broken qt fuel objData st then [] else w ++ contents qt objData) ran msg hmsg with old | ⟨x, hx, read⟩
    · rcases unpack_messages first msg old with old | ⟨b, hb, read⟩
      · exact Or.inl old
      · exact Or.inr ⟨_, List.mem_append_left _ (List.mem_map.mpr ⟨b, hb, rfl⟩), read⟩
    · exact Or.inr ⟨x, List.mem_append_right _ hx, read⟩

theorem unpackAll_contiguous {qt : Qt} {fuel : Nat} {ds : List Bytes} {st : State}
    (ran : unpackAll qt fuel ds {} = some st) (clean : Clean qt fuel ds {}) :
    (∀ x ∈ chainCalls qt fuel ds [] {}, x.2 <:+ x.1) ∧
      ∀ msg ∈ st.messages, Contiguous (chainCalls qt fuel ds [] {}) msg := by
  have suffix := unpackAll_suffix ds ran (w := []) List.nil_suffix clean
  refine ⟨suffix, fun msg hmsg => ?_⟩
  rcases unpackAll_messages ds [] ran msg hmsg with old | ⟨x, hx, o, first, read⟩
  · cases old
  · refine ⟨x, hx, o, first, read, ?_⟩
    obtain ⟨index, -, -, -, -, rfl⟩ := firstCan_some.mp first
    exact ((List.take_prefix _ _).isInfix.trans (List.drop_suffix index x.2).isInfix).trans (suffix x hx).isInfix

/-! ### The containers of a file -/

/-- The containers that `parse` finds in the file, one object after the other. -/
def containersIn : Nat → Bytes → List Bytes
  | 0, _ => []
  | n + 1, s => if s.take 4 = lobj then (containerOf s).toList ++ containersIn n (objectData s).2 else []

theorem unpackAll_append {qt : Qt} {fuel : Nat} (ds ds' : List Bytes) (st : State) :
    unpackAll qt fuel (ds ++ ds') st = (unpackAll qt fuel ds st).bind (unpackAll qt fuel ds') := by
  induction ds generalizing st with
  | nil => rfl
  | cons objData ds ih =>
    rw [List.cons_append, unpackAll, unpackAll, Option.bind_assoc]
    congr 1
    funext st'
    exact ih st'

/-- The loop of `parse` unpacks the containers of the file one after the other. -/
theorem outerLoop_unpack {qt : Qt} {fuel : Nat} :
    ∀ (n : Nat) (s : Bytes) (st : State) (r : Bytes × State), Loop.run (outerBody qt fuel) n (s, st) = some r →
      unpackAll qt fuel (containersIn n s) st = some r.2 := by
  intro n
  induction n with
  | zero => intro s st r ran; cases ran
  | succ n ih =>
    intro s st r ran
    rw [containersIn]
    by_cases signature : s.take 4 = lobj
    · have more : ¬s.length = 0 := by
        intro ended
        rw [List.length_eq_zero_iff.mp ended] at signature
        cases signature
      have body : outerBody qt fuel (s, st) =
          ((containerOf s).elim (some st) fun objData => unpack qt fuel objData st).map
            fun st' => .next ((objectData s).2, st') := by
        rw [outerBody, if_neg more, getObject_eq, if_neg (not_not.mpr signature), Option.map_map]
        rfl
      rw [if_pos signature, unpackAll_append]
      have own : unpackAll qt fuel (containerOf s).toList st =
          (containerOf s).elim (some st) fun objData => unpack qt fuel objData st := by
        cases containerOf s with
        | none => rfl
        | some objData => exact Option.bind_fun_some _
      rw [own]
      cases unpacked : (containerOf s).elim (some st) fun objData => unpack qt fuel objData st with
      | none =>
        rw [unpacked] at body
        rw [Loop.run, body] at ran
        cases ran
      | some st' =>
        rw [unpacked] at body
        rw [Loop.run_next body] at ran
        exact ih (objectData s).2 st' r ran
    · rw [if_neg signature]
      have stop : ∃ s', outerBody qt fuel (s, st) = some (.stop (s', st)) := by
        by_cases atEnd : s.length = 0
        · exact ⟨s, by rw [outerBody, if_pos atEnd]⟩
        · refine ⟨s.drop 4, ?_⟩
          rw [outerBody, if_neg atEnd, getObject_eq, if_pos signature]
          rfl
      obtain ⟨s', stop⟩ := stop
      rw [Loop.run_stop stop] at ran
      obtain rfl := Option.some.inj ran
      rfl

theorem parse_containers {qt : Qt} {fuel : Nat} {file : Bytes} {msgs : List CanLogMsg}
    (parsed : parse qt fuel file = some (.ok msgs)) :
    ∃ st, unpackAll qt fuel (containersIn fuel (behindHeader file)) {} = some st ∧ st.messages = msgs := by
  simp only [parse] at parsed
  split at parsed
  · cases parsed
  · obtain ⟨r, ran, same⟩ := Option.map_eq_some_iff.mp parsed
    exact ⟨r.2, outerLoop_unpack fuel _ _ r ran, Except.ok.inj same⟩

/-- When nothing is carried into a container that cannot be decoded, no buffer joins bytes across one. -/
theorem containers_contiguous (qt : Qt) (fuel : Nat) :
    (∀ ds st, unpackAll qt fuel ds {} = some st → Clean qt fuel ds {} →
      (∀ x ∈ chainCalls qt fuel ds [] {}, x.2 <:+ x.1) ∧
        ∀ msg ∈ st.messages, Contiguous (chainCalls qt fuel ds [] {}) msg) ∧
    ∀ file msgs, parse qt fuel file = some (.ok msgs) → Clean qt fuel (containersIn fuel (behindHeader file)) {} →
      ∀ msg ∈ msgs, Contiguous (chainCalls qt fuel (containersIn fuel (behindHeader file)) [] {}) msg := by
  refine ⟨fun ds st ran clean => unpackAll_contiguous ran clean, fun file msgs parsed clean => ?_⟩
  obtain ⟨st, ran, rfl⟩ := parse_containers parsed
  exact (unpackAll_contiguous ran clean).2

def containerBytes (method : UInt8) (payload : Bytes) : Bytes :=
  lobj ++ [16, 0, 1, 0] ++ ByteOrder.encode 4 (32 + payload.length) ++ [10, 0, 0, 0] ++ [method, 0] ++ zeros 14 ++ payload

/-- The middle container has a method that is not known. -/
def threeContainers (first last : Bytes) : Bytes :=
  logg ++ [72, 0, 0, 0] ++ zeros 64 ++ containerBytes 0 first ++ containerBytes 1 canObject.bytes ++ containerBytes 0 last

theorem parsed_of_toOption {r : Option (Except Failure (List CanLogMsg))} {msgs : List CanLogMsg}
    (h : (r.bind Except.toOption) = some msgs) : r = some (.ok msgs) := by
  obtain ⟨e, rfl, ok⟩ := Option.bind_eq_some_iff.mp h
  cases e with
  | error => cases ok
  | ok => rw [Option.some.inj ok]

theorem containers_contiguous_whole :
    ∃ msgs, parse plainBuild 300 (threeContainers canObject.bytes canObject.bytes) = some (.ok msgs) ∧
      ∀ msg ∈ msgs, Contiguous (chainCalls plainBuild 300
        (containersIn 300 (behindHeader (threeContainers canObject.bytes canObject.bytes))) [] {}) msg := by
  have ends : ((parse plainBuild 300 (threeContainers canObject.bytes canObject.bytes)).bind Except.toOption).isSome := by
    decide +kernel
  obtain ⟨msgs, parsed⟩ := Option.isSome_iff_exists.mp ends
  have parsed := parsed_of_toOption parsed
  exact ⟨msgs, parsed, (containers_contiguous plainBuild 300).2 _ msgs parsed (by decide +kernel)⟩

/-- The halves of an object are joined across the container between them. -/
theorem containers_contiguous_split :
    ¬ ∀ (qt : Qt) (fuel : Nat) (file : Bytes) (msgs : List CanLogMsg), parse qt fuel file = some (.ok msgs) →
      ∀ msg ∈ msgs, Contiguous (chainCalls qt fuel (containersIn fuel (behindHeader file)) [] {}) msg := by
  intro h
  have one : ((parse plainBuild 300 (threeContainers (canObject.bytes.take 24) (canObject.bytes.drop 24))).bind
      Except.toOption).map (·.length) = some 1 := by
    decide +kernel
  have chain : chainCalls plainBuild 300
      (containersIn 300 (behindHeader (threeContainers (canObject.bytes.take 24) (canObject.bytes.drop 24)))) [] {} =
      [(canObject.bytes.take 24, canObject.bytes.take 24), (canObject.bytes.drop 24, canObject.bytes)] := by
    decide +kernel
  obtain ⟨msgs, parsed, length⟩ := Option.map_eq_some_iff.mp one
  obtain ⟨msg, rfl⟩ := List.length_eq_one_iff.mp length
  obtain ⟨x, hx, o, first, -, inside⟩ := h plainBuild 300 _ [msg] (parsed_of_toOption parsed) msg List.mem_cons_self
  rw [chain] at hx
  rcases List.mem_cons.mp hx with rfl | hx
  · have none : firstCan (canObject.bytes.take 24) = none := by decide +kernel
    rw [none] at first
    cases first
  · obtain rfl := List.mem_singleton.mp hx
    have whole : firstCan canObject.bytes = some canObject.bytes := by decide +kernel
    rw [whole] at first
    obtain rfl := Option.some.inj first
    exact absurd inside.length_le (by decide +kernel)

end CanTracer.Blf
