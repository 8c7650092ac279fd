import CanTracer.Blf.Bounds
import CanTracer.Blf.Framing

/-!
# Ends of the loops

The inner loop of `getObject` puts the carried bytes in front of the container, so its buffer grows
in one round only: after it nothing is carried, or nothing is unread. The loop of `parse` takes
bytes from the file with every object.
-/

namespace CanTracer.Blf

/-! ### One call of `parseObject` -/

theorem append_remain (st : State) (header : ObjectHeader) (s : Bytes) : (st.append header s).remain = st.remain := by
  rw [State.append]
  split <;> rfl

/-- The buffer is carried over, given up, or an object at its signature has been passed. -/
theorem parseObject_cases (b : Bytes) (st : State) :
    parseObject b st = (narrowInt b.length, { st with remain := b }) ∨
      (16 ≤ b.length ∧ indexOf lobj b = none ∧ parseObject b st = (-1, st)) ∨
      (∃ index, 16 ≤ b.length ∧ indexOf lobj b = some index ∧ index + objSizeAt b index ≤ b.length ∧
        (parseObject b st).2.remain = []) := by
  by_cases few : b.length < 16
  · exact Or.inl (parseObject_short few st)
  cases found : indexOf lobj b with
  | none =>
    right; left
    refine ⟨Nat.le_of_not_lt few, rfl, ?_⟩
    rw [parseObject, if_neg few, found]
  | some index =>
    by_cases long : index + objSizeAt b index > b.length
    · left
      rw [parseObject, if_neg few, found]
      simp only [readHeader_drop, headerOf_objSize, if_pos long]
    · right; right
      refine ⟨index, Nat.le_of_not_lt few, rfl, Nat.le_of_not_lt long, ?_⟩
      rw [parseObject, if_neg few, found]
      simp only [readHeader_drop, headerOf_objSize, if_neg long]
      split <;> rw [append_remain]

/-! ### The inner loop -/

theorem innerBody_empty (st : State) : innerBody ([], st) = some (.stop ([], st)) := rfl

theorem innerBody_unread {c : Bytes} (unread : c ≠ []) (st : State) :
    innerBody (c, st) =
      if (parseObject (buffer c st) st).1 > 0 then
        some (.next ((buffer c st).drop (parseObject (buffer c st) st).1.toNat, (parseObject (buffer c st) st).2))
      else some (.stop (buffer c st, (parseObject (buffer c st) st).2)) := by
  have some : ¬c.length = 0 := fun h => unread (List.length_eq_zero_iff.mp h)
  rw [innerBody, if_neg some]

/-- Nothing is unread, or the next buffer fits an `int`. -/
def Fits (x : Bytes × State) : Prop := x.1 = [] ∨ (buffer x.1 x.2).length < 2 ^ 31

theorem innerBody_round (x : Bytes × State) (fits : Fits x) :
    (∃ y, innerBody x = some (.stop y)) ∨ ∃ y, innerBody x = some (.next y) ∧ Fits y ∧ rounds y < rounds x := by
  obtain ⟨c, st⟩ := x
  by_cases unread : c = []
  · subst unread
    exact Or.inl ⟨_, innerBody_empty st⟩
  have short : (buffer c st).length < 2 ^ 31 := fits.resolve_left unread
  have body := innerBody_unread unread st
  by_cases pos : (parseObject (buffer c st) st).1 > 0
  · rw [if_pos pos] at body
    right
    refine ⟨_, body, ?_⟩
    rcases parseObject_cases (buffer c st) st with carried | ⟨-, -, given⟩ | ⟨index, -, -, -, nothing⟩
    · -- The whole buffer is carried over, and the container is used up.
      rw [carried, narrowInt_small short]
      dsimp only
      rw [Int.toNat_natCast, List.drop_length]
      refine ⟨Or.inl rfl, ?_⟩
      rw [rounds, if_pos rfl, rounds_unread unread]
      exact Nat.lt_add_right _ Nat.one_pos
    · rw [given] at pos
      exact absurd pos (show ¬(-1 : Int) > 0 by decide)
    · -- An object has been passed: nothing is carried, and the buffer is shorter by what is removed.
      generalize (parseObject (buffer c st) st).1 = ret at *
      have removed : ret.toNat ≠ 0 := by omega
      have longer : 0 < (buffer c st).length := by
        rw [buffer_eq, List.length_append]
        have := List.length_pos_iff.mpr unread
        omega
      have next : buffer ((buffer c st).drop ret.toNat) (parseObject (buffer c st) st).2 = (buffer c st).drop ret.toNat := by
        rw [buffer_eq, nothing, List.nil_append]
      constructor
      · right
        dsimp only
        rw [next, List.length_drop]
        omega
      · rw [rounds_unread unread, rounds]
        split
        · omega
        · dsimp only
          rw [nothing, List.length_nil, List.length_drop]
          omega
  · rw [if_neg pos] at body
    exact Or.inl ⟨_, body⟩

theorem innerLoop_ends {c : Bytes} {st : State} {fuel : Nat} (fits : Fits (c, st))
    (enough : 1 + (buffer c st).length < fuel) : ∃ st', innerLoop fuel c st = some st' := by
  have measure : rounds (c, st) < fuel := by
    by_cases unread : c = []
    · rw [rounds, if_pos unread]
      omega
    · rwa [rounds_unread unread]
  obtain ⟨r, ran, -⟩ := Loop.run_total (Q := fun _ => True) (C := fun _ => True) rounds
    (fun x fits _ => (innerBody_round x fits).imp (Exists.imp fun y stop => ⟨stop, trivial⟩) id) fuel (c, st) fits measure
    fun _ _ => trivial
  exact ⟨r.2, by rw [innerLoop, ran, Option.map_some]⟩

/-! ### The loop of the file -/

theorem buffer_mem_calls {fuel : Nat} {c : Bytes} (unread : c ≠ []) (st : State) :
    buffer c st ∈ calls (fuel + 1) c st := by
  apply List.mem_map.mpr
  refine ⟨(c, st), List.mem_filter.mpr ⟨Loop.mem_visited_self fuel (c, st), ?_⟩, rfl⟩
  rw [decide_eq_true_iff]
  exact fun h => unread (List.length_eq_zero_iff.mp h)

theorem unpack_ends {qt : Qt} {fuel : Nat} {objData : Bytes} {st : State} (enough : 2 ^ 31 < fuel)
    (fits : ∀ c ∈ containerData qt objData, ∀ b ∈ calls fuel c st, b.length < 2 ^ 31) :
    ∃ st', unpack qt fuel objData st = some st' := by
  cases data : containerData qt objData with
  | none =>
    rw [unpack, data]
    exact ⟨st, rfl⟩
  | some c =>
    rw [unpack, data]
    show ∃ st', innerLoop fuel c st = some st'
    obtain ⟨n, rfl⟩ : ∃ n, fuel = n + 1 := ⟨fuel - 1, by omega⟩
    by_cases unread : c = []
    · subst unread
      exact ⟨st, by rw [innerLoop, Loop.run_stop (innerBody_empty st), Option.map_some]⟩
    · have short := fits c data (buffer c st) (buffer_mem_calls unread st)
      exact innerLoop_ends (Or.inr short) (by omega)

theorem objectData_shorter {s : Bytes} (more : s.length ≠ 0) : (objectData s).2.length < s.length := by
  rw [objectData, readData_snd, List.drop_drop, List.length_drop]
  omega

theorem outerBody_round {qt : Qt} {fuel : Nat} (enough : 2 ^ 31 < fuel) (x : Bytes × State)
    (fits : ∀ b ∈ objectCalls qt fuel x, b.length < 2 ^ 31) :
    (∃ y, outerBody qt fuel x = some (.stop y)) ∨
      ∃ y, outerBody qt fuel x = some (.next y) ∧ y.1.length < x.1.length := by
  obtain ⟨s, st⟩ := x
  by_cases atEnd : s.length = 0
  · left
    rw [outerBody, if_pos atEnd]
    exact ⟨_, rfl⟩
  rw [objectCalls, if_neg atEnd] at fits
  rw [outerBody, if_neg atEnd, getObject_eq]
  by_cases signature : s.take 4 = lobj
  · rw [unpacked_eq signature] at fits
    have ends : ∃ st', (containerOf s).elim (some st) (fun objData => unpack qt fuel objData st) = some st' := by
      cases container : containerOf s with
      | none => exact ⟨st, rfl⟩
      | some objData =>
        rw [container, Option.bind_some] at fits
        apply unpack_ends enough
        intro c data b hb
        rw [data] at fits
        exact fits b hb
    obtain ⟨st', ran⟩ := ends
    rw [if_neg (not_not.mpr signature), ran]
    exact Or.inr ⟨((objectData s).2, st'), rfl, objectData_shorter atEnd⟩
  · rw [if_pos signature]
    exact Or.inl ⟨_, rfl⟩

theorem parse_ends {qt : Qt} {fuel : Nat} {file : Bytes} (enough : 2 ^ 31 + file.length < fuel)
    (fits : ∀ b ∈ fileCalls qt fuel file, b.length < 2 ^ 31) : ∃ r, parse qt fuel file = some r := by
  by_cases signature : (readRaw signatureSize file).1 = logg
  · have measure : (behindHeader file).length < fuel := by
      rw [behindHeader, readRaw_signature]
      simp only [read_snd, List.length_drop]
      omega
    have visited : ∀ x ∈ Loop.visited (outerBody qt fuel) fuel (behindHeader file, {}),
        ∀ b ∈ objectCalls qt fuel x, b.length < 2 ^ 31 :=
      fun x hx b hb => fits b (List.mem_flatMap.mpr ⟨x, hx, hb⟩)
    obtain ⟨r, ran, -⟩ := Loop.run_total (I := fun _ => True) (Q := fun _ => True) (fun x : Bytes × State => x.1.length)
      (fun x _ short => (outerBody_round (by omega) x short).imp (fun ⟨y, stop⟩ => ⟨y, stop, trivial⟩)
        fun ⟨y, next, less⟩ => ⟨y, next, trivial, less⟩) fuel (behindHeader file, {}) trivial measure visited
    refine ⟨.ok r.2.messages, ?_⟩
    rw [parse]
    dsimp only
    rw [if_neg (not_not.mpr signature)]
    exact congrArg (Option.map fun x : Bytes × State => Except.ok x.2.messages) ran
  · exact ⟨_, by rw [parse]; exact if_pos signature⟩

/-- With buffers that fit an `int`, both loops end on every input. -/
theorem loops_end (qt : Qt) :
    (∀ (c : Bytes) (st : State) (fuel : Nat), (buffer c st).length < 2 ^ 31 → (buffer c st).length + 1 < fuel →
      ∃ st', innerLoop fuel c st = some st') ∧
    ∀ (file : Bytes) (fuel : Nat), 2 ^ 31 + file.length < fuel →
      (∀ b ∈ fileCalls qt fuel file, b.length < 2 ^ 31) → ∃ r, parse qt fuel file = some r :=
  ⟨fun _ _ _ short enough => innerLoop_ends (Or.inr short) (by rwa [Nat.add_comm]), fun _ _ => parse_ends⟩

/-- An object that declares no size at all: its own signature is found again. -/
def emptyObject : Bytes := lobj ++ [16, 0, 1, 0, 0, 0, 0, 0, 1, 0, 0, 0]

def emptyObjectFile : Bytes :=
  logg ++ [72, 0, 0, 0] ++ zeros 64 ++ (lobj ++ [16, 0, 1, 0, 48, 0, 0, 0, 10, 0, 0, 0] ++ zeros 16 ++ emptyObject)

theorem loops_end_emptyObject :
    (∃ st', innerLoop 40 emptyObject { remain := [76, 79] } = some st') ∧
      ∃ r, parse plainBuild (2 ^ 31 + 200) emptyObjectFile = some r :=
  ⟨(loops_end plainBuild).1 emptyObject { remain := [76, 79] } 40 (by decide) (by decide),
    (loops_end plainBuild).2 emptyObjectFile (2 ^ 31 + 200) (by decide) (by decide +kernel)⟩

end CanTracer.Blf
