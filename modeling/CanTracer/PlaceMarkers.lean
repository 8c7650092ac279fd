import Mathlib.Data.List.Basic

/-!
# Place markers

Texts with numbered places: `%1` to `%99`, with an `L` behind the percent sign or without. `arg` fills the
places with the lowest number, so what is filled in first may bring places for what is filled in next.
-/

namespace PlaceMarkers

inductive Piece where
  | char (c : Char)
  | marker (number : Nat) (text : List Char)
  deriving DecidableEq

def digit (c : Char) : Option Nat := if c.isDigit then some (c.toNat - '0'.toNat) else none

/-- A number of one or two digits and its length. -/
def number : List Char → Option (Nat × Nat)
  | [] => none
  | c :: s => (digit c).map fun n =>
    match s.head?.bind digit with
    | none => (n, 1)
    | some m => (10 * n + m, 2)

/-- What stands behind a percent sign, if that makes a marker. -/
def marker : List Char → Option (Nat × Nat)
  | 'L' :: s => (number s).map fun m => (m.1, m.2 + 1)
  | s => number s

/-- The pieces behind the first `skip` characters. -/
def scanFrom : Nat → List Char → List Piece
  | _, [] => []
  | skip + 1, _ :: s => scanFrom skip s
  | 0, c :: s =>
    match if c = '%' then marker s else none with
    | none => .char c :: scanFrom 0 s
    | some m => .marker m.1 (c :: s.take m.2) :: scanFrom m.2 s

def scan (s : List Char) : List Piece := scanFrom 0 s

def Piece.number? : Piece → Option Nat
  | .char _ => none
  | .marker n _ => some n

/-- The numbers of the places of a text. -/
def numbers (s : List Char) : List Nat := (scan s).filterMap Piece.number?

def Piece.fill (n : Nat) (a : List Char) : Piece → List Char
  | .char c => [c]
  | .marker m text => if m = n then a else text

/-- `QString::arg` -/
def arg (s a : List Char) : List Char :=
  match (numbers s).min? with
  | none => s
  | some n => (scan s).flatMap (Piece.fill n a)

/-! ### Scanning -/

theorem scanFrom_drop (s : List Char) : ∀ k, scanFrom k s = scan (s.drop k) := by
  induction s with
  | nil => intro k; rw [List.drop_nil, scan, scanFrom, scanFrom]
  | cons c s ih =>
    intro k
    cases k with
    | zero => rfl
    | succ k => exact ih k

theorem scan_char {c : Char} (plain : c ≠ '%') (s : List Char) : scan (c :: s) = .char c :: scan s := by
  rw [scan, scanFrom, if_neg plain]
  rfl

theorem scan_marker {s : List Char} {n len : Nat} (is : marker s = some (n, len)) :
    scan ('%' :: s) = .marker n ('%' :: s.take len) :: scan (s.drop len) := by
  rw [scan, scanFrom, if_pos rfl, is]
  exact congrArg _ (scanFrom_drop s len)

theorem scan_percent {s : List Char} (none : marker s = none) : scan ('%' :: s) = .char '%' :: scan s := by
  rw [scan, scanFrom, if_pos rfl, none]
  rfl

/-- A text without percent signs has no places, whatever follows. -/
theorem scan_plain {s : List Char} (plain : '%' ∉ s) (t : List Char) : scan (s ++ t) = s.map .char ++ scan t := by
  induction s with
  | nil => rfl
  | cons c s ih =>
    rw [List.mem_cons, not_or] at plain
    rw [List.cons_append, scan_char (Ne.symm plain.1), ih plain.2]
    rfl

theorem number_le {s : List Char} {m : Nat × Nat} (is : number s = some m) : m.2 ≤ s.length := by
  cases s with
  | nil => cases is
  | cons c s =>
    obtain ⟨n, -, rfl⟩ := Option.map_eq_some_iff.mp is
    cases s with
    | nil => exact Nat.le_refl 1
    | cons d s =>
      rw [List.head?_cons, Option.bind_some, List.length_cons, List.length_cons]
      cases digit d <;> simp

theorem marker_le {s : List Char} {m : Nat × Nat} (is : marker s = some m) : m.2 ≤ s.length := by
  unfold marker at is
  split at is
  · obtain ⟨n, found, rfl⟩ := Option.map_eq_some_iff.mp is
    exact Nat.succ_le_succ (number_le found)
  · exact number_le is

/-- The first piece of a text and the rest. -/
theorem scan_cons (c : Char) (s : List Char) :
    scan (c :: s) = .char c :: scan s ∨
      c = '%' ∧ ∃ n len, len ≤ s.length ∧ scan (c :: s) = .marker n (c :: s.take len) :: scan (s.drop len) := by
  by_cases percent : c = '%'
  · subst percent
    cases is : marker s with
    | none => exact .inl (scan_percent is)
    | some m => exact .inr ⟨rfl, m.1, m.2, marker_le is, scan_marker is⟩
  · exact .inl (scan_char percent s)

theorem scan_induction {P : List Char → List Piece → Prop} (nil : P [] [])
    (char : ∀ c s, P s (scan s) → P (c :: s) (.char c :: scan s))
    (marker : ∀ n s t, P t (scan t) → P ('%' :: s ++ t) (.marker n ('%' :: s) :: scan t)) (s : List Char) :
    P s (scan s) := by
  induction fewer : s.length using Nat.strongRecOn generalizing s with
  | ind size ih =>
    cases s with
    | nil => exact nil
    | cons c s =>
      rw [List.length_cons] at fewer
      rcases scan_cons c s with plain | ⟨rfl, n, len, le, place⟩
      · rw [plain]
        exact char c s (ih s.length (by omega) s rfl)
      · rw [place]
        have rest := ih (s.drop len).length (by rw [List.length_drop]; omega) (s.drop len) rfl
        have whole := marker n (s.take len) (s.drop len) rest
        rwa [List.cons_append, List.take_append_drop] at whole

/-! ### Filling -/

/-- Where the number has no place, nothing is filled in. -/
theorem fill_absent {n : Nat} {s : List Char} (absent : n ∉ numbers s) (a : List Char) :
    (scan s).flatMap (Piece.fill n a) = s := by
  revert absent
  unfold numbers
  induction s using scan_induction with
  | nil => exact fun _ => rfl
  | char c s ih =>
    intro absent
    rw [List.flatMap_cons, ih absent]
    rfl
  | marker m s t ih =>
    intro absent
    change n ∉ m :: (scan t).filterMap Piece.number? at absent
    rw [List.mem_cons, not_or] at absent
    rw [List.flatMap_cons, ih absent.2, Piece.fill, if_neg (Ne.symm absent.1)]

theorem fill_count_le {a : List Char} (plain : '%' ∉ a) (n : Nat) (s : List Char) :
    ((scan s).flatMap (Piece.fill n a)).count '%' ≤ s.count '%' := by
  induction s using scan_induction with
  | nil => exact Nat.le_refl 0
  | char c s ih =>
    rw [List.flatMap_cons, List.count_append, ← List.singleton_append, List.count_append]
    exact Nat.add_le_add_left ih _
  | marker m s t ih =>
    rw [List.flatMap_cons, List.count_append, List.count_append, Piece.fill]
    refine Nat.add_le_add ?_ ih
    split
    · rw [List.count_eq_zero_of_not_mem plain]
      exact Nat.zero_le _
    · exact Nat.le_refl _

/-- A text without percent signs that is filled in takes the sign of its place away. -/
theorem fill_count_lt {a : List Char} (plain : '%' ∉ a) {n : Nat} {s : List Char} (present : n ∈ numbers s) :
    ((scan s).flatMap (Piece.fill n a)).count '%' < s.count '%' := by
  revert present
  unfold numbers
  induction s using scan_induction with
  | nil => exact nofun
  | char c s ih =>
    intro present
    rw [List.flatMap_cons, List.count_append, ← List.singleton_append, List.count_append]
    exact Nat.add_lt_add_left (ih present) _
  | marker m s t ih =>
    intro present
    change n ∈ m :: (scan t).filterMap Piece.number? at present
    rw [List.mem_cons] at present
    rw [List.flatMap_cons, List.count_append, List.count_append, Piece.fill]
    by_cases own : m = n
    · rw [if_pos own, List.count_eq_zero_of_not_mem plain, List.count_cons_self]
      have rest := fill_count_le plain n t
      omega
    · rw [if_neg own]
      exact Nat.add_lt_add_left (ih (present.resolve_left (Ne.symm own))) _

/-! ### Around plain texts -/

theorem numbers_plain {s : List Char} (plain : '%' ∉ s) (t : List Char) : numbers (s ++ t) = numbers t := by
  have chars : (s.map Piece.char).filterMap Piece.number? = [] := by
    rw [List.filterMap_map]
    exact List.filterMap_eq_nil_iff.mpr fun _ _ => rfl
  rw [numbers, scan_plain plain, List.filterMap_append, chars, List.nil_append, numbers]

theorem fill_plain {s : List Char} (plain : '%' ∉ s) (t : List Char) (n : Nat) (a : List Char) :
    (scan (s ++ t)).flatMap (Piece.fill n a) = s ++ (scan t).flatMap (Piece.fill n a) := by
  rw [scan_plain plain, List.flatMap_append, List.flatMap_map]
  exact congrArg (· ++ _) (List.flatMap_singleton' s)

theorem arg_lowest {s : List Char} {n : Nat} (lowest : (numbers s).min? = some n) (a : List Char) :
    arg s a = (scan s).flatMap (Piece.fill n a) := by
  rw [arg, lowest]

end PlaceMarkers
