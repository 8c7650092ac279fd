import Mathlib.Data.List.Basic

/-!
# Backtracking regular expressions

Syntax and matcher for the Perl-style patterns the text formats are read with. `run` lists
the matches at the head of a text in the order a backtracking engine tries them, so its first
element is the match the engine reports; `search` moves to the next start position only when
there is none.
-/

namespace Regex

/-- `\d`, `\w` and `\s` on ASCII, and `.`: any character but a newline. -/
def isDigit (c : Char) : Bool := '0'.val ≤ c.val && c.val ≤ '9'.val

def isWord (c : Char) : Bool :=
  isDigit c || ('a'.val ≤ c.val && c.val ≤ 'z'.val) || ('A'.val ≤ c.val && c.val ≤ 'Z'.val) || c == '_'

def isSpace (c : Char) : Bool := c == ' ' || ('\t'.val ≤ c.val && c.val ≤ '\r'.val)

def isDot (c : Char) : Bool := c != '\n'

def isDecimal (c : Char) : Bool := isDigit c || c == '.'

inductive Re where
  | cls (p : Char → Bool)
  | eps
  | seq (a b : Re)
  | alt (a b : Re)
  | star (greedy : Bool) (r : Re)
  | group (n : Nat) (r : Re)

namespace Re

def char (c : Char) : Re := cls (· == c)

def lit : List Char → Re
  | [] => eps
  | c :: s => seq (char c) (lit s)

def cat : List Re → Re
  | [] => eps
  | r :: rs => seq r (cat rs)

def plus (r : Re) : Re := seq r (star true r)

def opt (r : Re) : Re := alt r eps

end Re

abbrev digits : Re := Re.plus (.cls isDigit)

abbrev words : Re := Re.plus (.cls isWord)

abbrev spaces : Re := Re.plus (.cls isSpace)

structure Match where
  text : List Char
  rest : List Char
  caps : List (Nat × List Char)
  deriving DecidableEq

namespace Match

def empty (s : List Char) : Match := ⟨[], s, []⟩

def append (m m' : Match) : Match := ⟨m.text ++ m'.text, m'.rest, m.caps ++ m'.caps⟩

/-- The last text captured by group `n`, empty when the group took no part. -/
def captured (m : Match) (n : Nat) : List Char := (m.caps.reverse.lookup n).getD []

end Match

/-- Repetitions of `f`, more of them first when `greedy`. A round that consumes nothing ends
the repetition. -/
def iterate (greedy : Bool) (f : List Char → List Match) : Nat → List Char → List Match
  | 0, s => [Match.empty s]
  | n + 1, s =>
    let more := (f s).flatMap fun m =>
      if m.text.isEmpty then [] else (iterate greedy f n m.rest).map m.append
    if greedy then more ++ [Match.empty s] else Match.empty s :: more

/-- The matches of `r` at the head of a text, in the order of backtracking. -/
def run : Re → List Char → List Match
  | .cls _, [] => []
  | .cls p, c :: s => if p c then [⟨[c], s, []⟩] else []
  | .eps, s => [Match.empty s]
  | .seq a b, s => (run a s).flatMap fun m => (run b m.rest).map m.append
  | .alt a b, s => run a s ++ run b s
  | .star greedy r, s => iterate greedy (run r) s.length s
  | .group n r, s => (run r s).map fun m => { m with caps := m.caps ++ [(n, m.text)] }

/-- The first match of `r` in a text: leftmost start, then the order of backtracking. -/
def search (r : Re) : List Char → Option Match
  | [] => (run r []).head?
  | c :: s => (run r (c :: s)).head?.or (search r s)

/-- The matches of `r` one after the other, for a pattern that always consumes something. -/
def searchAll (r : Re) : Nat → List Char → List Match
  | 0, _ => []
  | n + 1, s =>
    match search r s with
    | none => []
    | some m => m :: searchAll r n m.rest

/-! ### Matches split the text -/

@[simp] theorem append_empty_left (s : List Char) (m : Match) : (Match.empty s).append m = m := rfl

@[simp] theorem append_text (m m' : Match) : (m.append m').text = m.text ++ m'.text := rfl

@[simp] theorem append_rest (m m' : Match) : (m.append m').rest = m'.rest := rfl

@[simp] theorem append_caps (m m' : Match) : (m.append m').caps = m.caps ++ m'.caps := rfl

@[simp] theorem empty_text (s : List Char) : (Match.empty s).text = [] := rfl

@[simp] theorem empty_rest (s : List Char) : (Match.empty s).rest = s := rfl

@[simp] theorem empty_caps (s : List Char) : (Match.empty s).caps = [] := rfl

theorem append_assoc (a b c : Match) : (a.append b).append c = a.append (b.append c) := by
  simp [Match.append]

theorem mem_iterate_succ {g : Bool} {f : List Char → List Match} {n : Nat} {s : List Char} {m : Match} :
    m ∈ iterate g f (n + 1) s ↔
      m = Match.empty s ∨ ∃ a ∈ f s, a.text ≠ [] ∧ ∃ b ∈ iterate g f n a.rest, a.append b = m := by
  have more : m ∈ ((f s).flatMap fun a => if a.text.isEmpty then [] else (iterate g f n a.rest).map a.append) ↔
      ∃ a ∈ f s, a.text ≠ [] ∧ ∃ b ∈ iterate g f n a.rest, a.append b = m := by
    simp only [List.mem_flatMap]
    refine exists_congr fun a => and_congr_right fun _ => ?_
    by_cases h : a.text = [] <;> simp [h]
  cases g
  · simp only [iterate, Bool.false_eq_true, if_false, List.mem_cons, more]
  · simp only [iterate, if_true, List.mem_append, more, List.mem_singleton, or_comm]

theorem mem_run_seq {a b : Re} {s : List Char} {m : Match} :
    m ∈ run (.seq a b) s ↔ ∃ x ∈ run a s, ∃ y ∈ run b x.rest, x.append y = m := by
  simp [run]

theorem iterate_split {g : Bool} {f : List Char → List Match}
    (hf : ∀ s, ∀ m ∈ f s, m.text ++ m.rest = s) (n : Nat) :
    ∀ s, ∀ m ∈ iterate g f n s, m.text ++ m.rest = s := by
  induction n with
  | zero =>
    intro s m hm
    obtain rfl := List.mem_singleton.mp hm
    rfl
  | succ n ih =>
    intro s m hm
    rcases mem_iterate_succ.mp hm with rfl | ⟨a, ha, -, b, hb, rfl⟩
    · rfl
    · rw [append_text, append_rest, List.append_assoc, ih _ _ hb, hf _ _ ha]

theorem run_split (r : Re) : ∀ s, ∀ m ∈ run r s, m.text ++ m.rest = s := by
  induction r with
  | cls p =>
    intro s m hm
    cases s with
    | nil => simp [run] at hm
    | cons c s =>
      simp only [run] at hm
      split at hm
      · obtain rfl := List.mem_singleton.mp hm
        rfl
      · simp at hm
  | eps =>
    intro s m hm
    obtain rfl := List.mem_singleton.mp hm
    rfl
  | seq a b iha ihb =>
    intro s m hm
    obtain ⟨x, hx, y, hy, rfl⟩ := mem_run_seq.mp hm
    rw [append_text, append_rest, List.append_assoc, ihb _ _ hy, iha _ _ hx]
  | alt a b iha ihb =>
    intro s m hm
    rcases List.mem_append.mp hm with hm | hm
    · exact iha _ _ hm
    · exact ihb _ _ hm
  | star g r ih => exact fun s => iterate_split ih s.length s
  | group n r ih =>
    intro s m hm
    obtain ⟨x, hx, rfl⟩ := List.mem_map.mp hm
    exact ih s x hx

theorem run_rest_length {r : Re} {s : List Char} {m : Match} (hm : m ∈ run r s) :
    m.text.length + m.rest.length = s.length := by
  rw [← List.length_append, run_split r s m hm]

theorem iterate_fuel {g : Bool} {r : Re} (n : Nat) :
    ∀ s : List Char, s.length ≤ n → iterate g (run r) n s = iterate g (run r) s.length s := by
  induction n using Nat.strongRecOn with
  | ind n ih =>
    intro s hs
    have round : ∀ k, s.length = k + 1 → iterate g (run r) n s = iterate g (run r) (k + 1) s := by
      intro k hk
      obtain ⟨n, rfl⟩ : ∃ n', n = n' + 1 := ⟨n - 1, by omega⟩
      have same : ((run r s).flatMap fun m => if m.text.isEmpty then [] else (iterate g (run r) n m.rest).map m.append) =
          ((run r s).flatMap fun m => if m.text.isEmpty then [] else (iterate g (run r) k m.rest).map m.append) := by
        apply List.flatMap_congr
        intro m hm
        by_cases h : m.text = []
        · simp [h]
        · have len := run_rest_length hm
          have pos := List.length_pos_iff.mpr h
          rw [ih n (by omega) m.rest (by omega), ih k (by omega) m.rest (by omega)]
      simp only [iterate, same]
    rcases Nat.eq_zero_or_pos s.length with h0 | hpos
    · obtain rfl := List.length_eq_zero_iff.mp h0
      cases n with
      | zero => rfl
      | succ n =>
        have none : ((run r []).flatMap fun m =>
            if m.text.isEmpty then [] else (iterate g (run r) n m.rest).map m.append) = [] := by
          rw [List.flatMap_eq_nil_iff]
          intro m hm
          have len := run_rest_length hm
          simp only [List.length_nil] at len
          rw [if_pos (by rw [List.isEmpty_iff]; exact List.length_eq_zero_iff.mp (by omega))]
        simp only [iterate, none, List.length_nil]
        cases g <;> rfl
    · obtain ⟨k, hk⟩ : ∃ k, s.length = k + 1 := ⟨s.length - 1, by omega⟩
      rw [round k hk, hk]

theorem run_star (g : Bool) (r : Re) (s : List Char) :
    run (.star g r) s =
      let more := (run r s).flatMap fun m =>
        if m.text.isEmpty then [] else (run (.star g r) m.rest).map m.append
      if g then more ++ [Match.empty s] else Match.empty s :: more := by
  have unfolded : run (.star g r) s = iterate g (run r) (s.length + 1) s := by
    rw [iterate_fuel (s.length + 1) s (by omega), run]
  have same : ((run r s).flatMap fun m =>
      if m.text.isEmpty then [] else (iterate g (run r) s.length m.rest).map m.append) =
      ((run r s).flatMap fun m => if m.text.isEmpty then [] else (run (.star g r) m.rest).map m.append) := by
    apply List.flatMap_congr
    intro m hm
    have len := run_rest_length hm
    rw [iterate_fuel s.length m.rest (by omega), run]
  rw [unfolded]
  simp only [iterate, same]

end Regex
