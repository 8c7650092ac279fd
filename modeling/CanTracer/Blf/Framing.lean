import CanTracer.Blf.Calls

/-!
# The objects of the file

`getObject` reads the header of an object of the file and then its data, whose size it computes in
32 bits from the declared one. `framed_iff` says when that brings it behind the object.
-/

namespace CanTracer.Blf

/-- The size field of the object at the front of the stream. -/
def declaredSize (s : Bytes) : Nat := field 8 4 s

/-- The stream moves on from `s` to `s'` by the declared size and its padding, or to its end; a size
that does not cover the header is refused. -/
def Framed (s s' : Bytes) : Prop :=
  (12 ≤ s.length → objHeaderSize ≤ declaredSize s ∧ s' = s.drop (declaredSize s + declaredSize s % 4)) ∧
    (s.length < 12 → s' = [])

/-- The data has a size that fits an `int`, or there is none to read. -/
def Sized (s : Bytes) : Prop :=
  s.length < 12 ∨ objHeaderSize ≤ declaredSize s ∧
    (declaredSize s - objHeaderSize < 2 ^ 31 ∨ s.length ≤ objHeaderSize + declaredSize s % 4)

theorem readRaw_signature (s : Bytes) : readRaw signatureSize s = (s.take 4, s.drop 4) := if_pos (by decide)

theorem readData_snd (n : Nat) (s : Bytes) : (readData n s).2 = s.drop (if n < 2 ^ 31 then n + n % 4 else n % 4) := by
  rw [readData, readRaw]
  by_cases fits : n < 2 ^ 31
  · rw [if_pos fits, if_pos fits, ← List.drop_drop]
  · rw [if_neg fits, if_neg fits]

/-- The data of the object at the front of the stream, and the stream behind it. -/
def objectData (s : Bytes) : Bytes × Bytes := readData (dataSizeOf (declaredSize s)) (s.drop 16)

def containerOf (s : Bytes) : Option Bytes := if field 12 4 s = logContainer then some (objectData s).1 else none

/-- What `getObject` does with the data of a container. -/
def unpack (qt : Qt) (fuel : Nat) (objData : Bytes) (st : State) : Option State :=
  match containerData qt objData with
  | none => some st
  | some c => innerLoop fuel c st

theorem getObject_eq (qt : Qt) (fuel : Nat) (s : Bytes) (st : State) :
    getObject qt fuel s st =
      if s.take 4 ≠ lobj then some (-1, s.drop 4, st)
      else
        ((containerOf s).elim (some st) fun objData => unpack qt fuel objData st).map fun st => (0, (objectData s).2, st) := by
  have size : (read 4 (s.drop 8)).1 = declaredSize s := rfl
  have type : (read 4 (s.drop 12)).1 = field 12 4 s := rfl
  have data : readData (dataSizeOf (declaredSize s)) (s.drop 16) = objectData s := rfl
  simp only [getObject, readRaw_signature, read_snd, List.drop_drop, Nat.reduceAdd, size, type, data]
  by_cases signature : s.take 4 = lobj
  · rw [if_neg (not_not.mpr signature), if_neg (not_not.mpr signature)]
    rw [containerOf]
    by_cases container : field 12 4 s = logContainer
    · rw [if_neg (not_not.mpr container), if_pos container, Option.elim_some, unpack]
      cases containerData qt (objectData s).1 with
      | none => rfl
      | some c => rfl
    · rw [if_pos container, if_neg container]
      rfl
  · rw [if_pos signature, if_pos signature]

theorem unpacked_eq {qt : Qt} {s : Bytes} (signature : s.take 4 = lobj) :
    unpacked qt s = (containerOf s).bind (containerData qt) := by
  have size : (read 4 (s.drop 8)).1 = declaredSize s := rfl
  have type : (read 4 (s.drop 12)).1 = field 12 4 s := rfl
  have data : readData (dataSizeOf (declaredSize s)) (s.drop 16) = objectData s := rfl
  simp only [unpacked, readRaw_signature, read_snd, List.drop_drop, Nat.reduceAdd, size, type, data]
  rw [if_neg (not_not.mpr signature), containerOf]
  by_cases container : field 12 4 s = logContainer
  · rw [if_neg (not_not.mpr container), if_pos container, Option.bind_some]
  · rw [if_pos container, if_neg container, Option.bind_none]

theorem getObject_left {qt : Qt} {fuel : Nat} {s s' : Bytes} {st st' : State}
    (called : getObject qt fuel s st = some (0, s', st')) : s' = (objectData s).2 := by
  rw [getObject_eq] at called
  by_cases signature : s.take 4 = lobj
  · rw [if_neg (not_not.mpr signature)] at called
    obtain ⟨st'', -, same⟩ := Option.map_eq_some_iff.mp called
    exact (Prod.mk.inj (Prod.mk.inj same).2).1.symm
  · rw [if_pos signature] at called
    exact absurd (Prod.mk.inj (Option.some.inj called)).1 (by decide)

theorem drop_eq_drop_iff {s : Bytes} {a b : Nat} (h : a < b) : s.drop a = s.drop b ↔ s.length ≤ a := by
  constructor
  · intro same
    have lengths := congrArg List.length same
    rw [List.length_drop, List.length_drop] at lengths
    omega
  · intro short
    rw [List.drop_eq_nil_of_le short, List.drop_eq_nil_of_le (by omega)]

/-! ### One call -/

theorem framed_iff {qt : Qt} {fuel : Nat} {s s' : Bytes} {st st' : State}
    (called : getObject qt fuel s st = some (0, s', st')) : Framed s s' ↔ Sized s := by
  obtain rfl := getObject_left called
  rw [Framed, Sized, objectData, readData_snd, List.drop_drop]
  by_cases truncated : s.length < 12
  · have ended : ∀ n, s.drop (16 + n) = [] := fun n => List.drop_eq_nil_of_le (by omega)
    exact ⟨fun _ => Or.inl truncated, fun _ => ⟨fun h => absurd truncated (Nat.not_lt.mpr h), fun _ => ended _⟩⟩
  · have moved : ∀ {d : Nat}, 16 ≤ d →
        (s.drop (16 + (if dataSizeOf d < 2 ^ 31 then dataSizeOf d + dataSizeOf d % 4 else dataSizeOf d % 4)) =
          s.drop (d + d % 4) ↔ d - 16 < 2 ^ 31 ∨ s.length ≤ 16 + d % 4) := by
      intro d header
      have size : dataSizeOf d = d - 16 := if_neg (Nat.not_lt.mpr header)
      have padding : (d - 16) % 4 = d % 4 := by omega
      rw [size, padding]
      by_cases fits : d - 16 < 2 ^ 31
      · rw [if_pos fits, show 16 + (d - 16 + d % 4) = d + d % 4 by omega]
        exact ⟨fun _ => Or.inl fits, fun _ => rfl⟩
      · rw [if_neg fits, drop_eq_drop_iff (by omega)]
        exact ⟨Or.inr, fun h => h.resolve_left fits⟩
    constructor
    · rintro ⟨whole, -⟩
      obtain ⟨header, position⟩ := whole (Nat.le_of_not_lt truncated)
      exact Or.inr ⟨header, (moved header).mp position⟩
    · rintro (short | ⟨header, fits⟩)
      · exact absurd short truncated
      · exact ⟨fun _ => ⟨header, (moved header).mpr fits⟩, fun short => absurd short truncated⟩

/-! ### The file -/

/-- The streams and states with which the loop of `parse` comes to its body. -/
def objectsRead (qt : Qt) (fuel : Nat) (file : Bytes) : List (Bytes × State) :=
  Loop.visited (outerBody qt fuel) fuel (behindHeader file, {})

/-- The calls of a file that return 0 keep to the frames of its objects exactly when these are sized. -/
theorem parse_framed_iff (qt : Qt) (fuel : Nat) (file : Bytes) :
    (∀ x ∈ objectsRead qt fuel file, ∀ s' st', getObject qt fuel x.1 x.2 = some (0, s', st') → Framed x.1 s') ↔
      ∀ x ∈ objectsRead qt fuel file, ∀ s' st', getObject qt fuel x.1 x.2 = some (0, s', st') → Sized x.1 := by
  constructor
  · exact fun framed x hx s' st' called => (framed_iff called).mp (framed x hx s' st' called)
  · exact fun sized x hx s' st' called => (framed_iff called).mpr (sized x hx s' st' called)

/-- An object of another type that declares eight bytes, with the rest of the log behind it. -/
def underSized : Bytes := lobj ++ [16, 0, 1, 0, 8, 0, 0, 0, 1, 0, 0, 0] ++ canObject.bytes

def underSizedFile : Bytes := logg ++ [72, 0, 0, 0] ++ zeros 64 ++ underSized

theorem parse_framed_underSized :
    ¬ ∀ (qt : Qt) (fuel : Nat) (file : Bytes), ∀ x ∈ objectsRead qt fuel file, ∀ s' st',
      getObject qt fuel x.1 x.2 = some (0, s', st') → Framed x.1 s' := by
  intro h
  have behind : behindHeader underSizedFile = underSized := by decide +kernel
  have called : getObject plainBuild 1 underSized {} = some (0, (objectData underSized).2, {}) := by
    have signature : underSized.take 4 = lobj := by decide
    have type : ¬field 12 4 underSized = logContainer := by decide
    rw [getObject_eq, if_neg (not_not.mpr signature), containerOf, if_neg type]
    rfl
  have framed := h plainBuild 1 underSizedFile (underSized, {}) (by rw [objectsRead, behind]; exact Loop.mem_visited_self 0 _)
    _ _ called
  have small : ¬objHeaderSize ≤ declaredSize underSized := by decide
  exact small (framed.1 (by decide)).1

end CanTracer.Blf
