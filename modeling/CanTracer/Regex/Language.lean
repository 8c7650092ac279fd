import Mathlib.Computability.Language
import CanTracer.Regex.Basic

/-!
# The words of a pattern

`Re.language` forgets the order of backtracking. `run_sound` and `run_complete` say that the
matcher finds the words of the pattern and nothing else, so that the absence of a match can be
shown by an argument on words.
-/

namespace Regex
open Computability

def Re.language : Re → Language Char
  | .cls p => {u | ∃ c, p c = true ∧ u = [c]}
  | .eps => 1
  | .seq a b => a.language * b.language
  | .alt a b => a.language + b.language
  | .star _ r => r.language∗
  | .group _ r => r.language

theorem run_sound (r : Re) : ∀ s, ∀ m ∈ run r s, m.text ∈ r.language := by
  induction r with
  | cls p =>
    intro s m hm
    cases s with
    | nil => simp [run] at hm
    | cons c s =>
      simp only [run] at hm
      split at hm
      · rename_i hp
        obtain rfl := List.mem_singleton.mp hm
        exact ⟨c, hp, rfl⟩
      · simp at hm
  | eps =>
    intro s m hm
    obtain rfl := List.mem_singleton.mp hm
    exact Language.nil_mem_one
  | seq a b iha ihb =>
    intro s m hm
    obtain ⟨x, hx, y, hy, rfl⟩ := mem_run_seq.mp hm
    exact Language.append_mem_mul (iha _ _ hx) (ihb _ _ hy)
  | alt a b iha ihb =>
    intro s m hm
    rcases List.mem_append.mp hm with hm | hm
    · exact Or.inl (iha _ _ hm)
    · exact Or.inr (ihb _ _ hm)
  | star g r ih =>
    have rounds : ∀ n s, ∀ m ∈ iterate g (run r) n s, m.text ∈ r.language∗ := by
      intro n
      induction n with
      | zero =>
        intro s m hm
        obtain rfl := List.mem_singleton.mp hm
        exact Language.nil_mem_kstar _
      | succ n ihn =>
        intro s m hm
        rcases mem_iterate_succ.mp hm with rfl | ⟨a, ha, -, b, hb, rfl⟩
        · exact Language.nil_mem_kstar _
        · obtain ⟨words, same, each⟩ := Language.mem_kstar.mp (ihn _ _ hb)
          refine Language.mem_kstar.mpr ⟨a.text :: words, by rw [append_text, same, List.flatten_cons], ?_⟩
          intro w hw
          rcases List.mem_cons.mp hw with rfl | hw
          · exact ih _ _ ha
          · exact each w hw
    exact fun s => rounds s.length s
  | group n r ih =>
    intro s m hm
    obtain ⟨x, hx, rfl⟩ := List.mem_map.mp hm
    exact ih s x hx

theorem run_complete (r : Re) :
    ∀ u ∈ r.language, ∀ t, ∃ m ∈ run r (u ++ t), m.text = u ∧ m.rest = t := by
  induction r with
  | cls p =>
    rintro u ⟨c, hp, rfl⟩ t
    exact ⟨⟨[c], t, []⟩, by simp [run, hp], rfl, rfl⟩
  | eps =>
    intro u hu t
    obtain rfl := (Language.mem_one u).mp hu
    exact ⟨Match.empty t, List.mem_singleton_self _, rfl, rfl⟩
  | seq a b iha ihb =>
    intro u hu t
    obtain ⟨v, hv, w, hw, rfl⟩ := Language.mem_mul.mp hu
    obtain ⟨x, hx, rfl, restx⟩ := iha v hv (w ++ t)
    obtain ⟨y, hy, rfl, resty⟩ := ihb w hw t
    refine ⟨x.append y, ?_, rfl, resty⟩
    rw [List.append_assoc]
    exact mem_run_seq.mpr ⟨x, hx, y, by rw [restx]; exact hy, rfl⟩
  | alt a b iha ihb =>
    intro u hu t
    rcases (Language.mem_add _ _ _).mp hu with hu | hu
    · obtain ⟨m, hm, split⟩ := iha u hu t
      exact ⟨m, List.mem_append_left _ hm, split⟩
    · obtain ⟨m, hm, split⟩ := ihb u hu t
      exact ⟨m, List.mem_append_right _ hm, split⟩
  | star g r ih =>
    intro u hu t
    obtain ⟨words, rfl, each⟩ := Language.mem_kstar_iff_exists_nonempty.mp hu
    have rounds : ∀ n, words.length ≤ n →
        ∃ m ∈ iterate g (run r) n (words.flatten ++ t), m.text = words.flatten ∧ m.rest = t := by
      clear hu
      induction words with
      | nil =>
        intro n _
        refine ⟨Match.empty t, ?_, rfl, rfl⟩
        cases n with
        | zero => exact List.mem_singleton_self _
        | succ n => exact mem_iterate_succ.mpr (Or.inl rfl)
      | cons w words ihw =>
        intro n hn
        obtain ⟨n, rfl⟩ : ∃ k, n = k + 1 := ⟨n - 1, by simp only [List.length_cons] at hn; omega⟩
        obtain ⟨x, hx, textx, restx⟩ := ih w (each w List.mem_cons_self).1 (words.flatten ++ t)
        obtain ⟨y, hy, texty, resty⟩ := ihw (fun v hv => each v (List.mem_cons_of_mem _ hv)) n
          (by simp only [List.length_cons] at hn; omega)
        refine ⟨x.append y, mem_iterate_succ.mpr (Or.inr ⟨x, ?_, ?_, y, ?_, rfl⟩), ?_, resty⟩
        · rw [List.flatten_cons, List.append_assoc]
          exact hx
        · rw [textx]
          exact (each w List.mem_cons_self).2
        · rw [restx]
          exact hy
        · rw [append_text, textx, texty, List.flatten_cons]
    have bound : words.length ≤ (words.flatten ++ t).length := by
      clear rounds hu
      induction words with
      | nil => exact Nat.zero_le _
      | cons w words ihw =>
        have pos := List.length_pos_iff.mpr (each w List.mem_cons_self).2
        have tail := ihw fun v hv => each v (List.mem_cons_of_mem _ hv)
        simp only [List.flatten_cons, List.length_append, List.length_cons] at tail ⊢
        omega
    exact rounds _ bound
  | group n r ih =>
    intro u hu t
    obtain ⟨m, hm, text, rest⟩ := ih u hu t
    exact ⟨{ m with caps := m.caps ++ [(n, m.text)] }, List.mem_map.mpr ⟨m, hm, rfl⟩, text, rest⟩

theorem search_some {r : Re} {s : List Char} {m : Match} (h : search r s = some m) :
    ∃ skipped, s = skipped ++ (m.text ++ m.rest) ∧ m ∈ run r (m.text ++ m.rest) := by
  induction s with
  | nil =>
    have hm := List.mem_of_head? h
    exact ⟨[], (run_split r _ m hm).symm, by rw [run_split r _ m hm]; exact hm⟩
  | cons c s ih =>
    rw [search] at h
    cases hr : (run r (c :: s)).head? with
    | some m' =>
      rw [hr, Option.some_or] at h
      obtain rfl := Option.some.inj h
      have hm := List.mem_of_head? hr
      exact ⟨[], (run_split r _ m' hm).symm, by rw [run_split r _ m' hm]; exact hm⟩
    | none =>
      rw [hr, Option.none_or] at h
      obtain ⟨skipped, same, hm⟩ := ih h
      exact ⟨c :: skipped, by rw [List.cons_append, ← same], hm⟩

theorem search_isSome_iff {r : Re} {s : List Char} :
    (search r s).isSome ↔ ∃ x u y, s = x ++ (u ++ y) ∧ u ∈ r.language := by
  constructor
  · intro h
    obtain ⟨m, hm⟩ := Option.isSome_iff_exists.mp h
    obtain ⟨skipped, same, member⟩ := search_some hm
    exact ⟨skipped, m.text, m.rest, same, run_sound r _ m member⟩
  · rintro ⟨x, u, y, rfl, hu⟩
    have start : (run r (u ++ y)).head?.isSome := by
      obtain ⟨m, hm, -⟩ := run_complete r u hu y
      rw [List.isSome_head?]
      exact List.ne_nil_of_mem hm
    induction x with
    | nil =>
      rw [List.nil_append]
      cases h : u ++ y with
      | nil => rw [h] at start; exact start
      | cons c s =>
        rw [h] at start
        rw [search, Option.isSome_or, start, Bool.true_or]
    | cons c x ih => rw [List.cons_append, search, Option.isSome_or, ih, Bool.or_true]

/-! ### Which characters a word can hold -/

def Re.Within (P : Char → Prop) : Re → Prop
  | .cls p => ∀ c, p c = true → P c
  | .eps => True
  | .seq a b => a.Within P ∧ b.Within P
  | .alt a b => a.Within P ∧ b.Within P
  | .star _ r => r.Within P
  | .group _ r => r.Within P

theorem language_within {P : Char → Prop} (r : Re) (h : r.Within P) : ∀ u ∈ r.language, ∀ c ∈ u, P c := by
  induction r with
  | cls p =>
    rintro u ⟨c, hp, rfl⟩ d hd
    obtain rfl := List.mem_singleton.mp hd
    exact h d hp
  | eps =>
    intro u hu
    obtain rfl := (Language.mem_one u).mp hu
    simp
  | seq a b iha ihb =>
    intro u hu c hc
    obtain ⟨v, hv, w, hw, rfl⟩ := Language.mem_mul.mp hu
    rcases List.mem_append.mp hc with hc | hc
    · exact iha h.1 v hv c hc
    · exact ihb h.2 w hw c hc
  | alt a b iha ihb =>
    intro u hu
    rcases (Language.mem_add _ _ _).mp hu with hu | hu
    · exact iha h.1 u hu
    · exact ihb h.2 u hu
  | star g r ih =>
    intro u hu c hc
    obtain ⟨words, rfl, each⟩ := Language.mem_kstar.mp hu
    obtain ⟨w, hw, hc⟩ := List.mem_flatten.mp hc
    exact ih h w (each w hw) c hc
  | group n r ih => exact fun u hu => ih h u hu

/-! ### Which characters a capture can hold -/

def Re.GroupWithin (n : Nat) (P : Char → Prop) : Re → Prop
  | .cls _ => True
  | .eps => True
  | .seq a b => a.GroupWithin n P ∧ b.GroupWithin n P
  | .alt a b => a.GroupWithin n P ∧ b.GroupWithin n P
  | .star _ r => r.GroupWithin n P
  | .group k r => (k = n → r.Within P) ∧ r.GroupWithin n P

theorem caps_within {n : Nat} {P : Char → Prop} (r : Re) (h : r.GroupWithin n P) :
    ∀ s, ∀ m ∈ run r s, ∀ u, (n, u) ∈ m.caps → ∀ c ∈ u, P c := by
  induction r with
  | cls p =>
    intro s m hm u hu
    cases s with
    | nil => simp [run] at hm
    | cons c s =>
      simp only [run] at hm
      split at hm
      · obtain rfl := List.mem_singleton.mp hm
        cases hu
      · cases hm
  | eps =>
    intro s m hm u hu
    obtain rfl := List.mem_singleton.mp hm
    cases hu
  | seq a b iha ihb =>
    intro s m hm u hu
    obtain ⟨x, hx, y, hy, rfl⟩ := mem_run_seq.mp hm
    rcases List.mem_append.mp hu with hu | hu
    · exact iha h.1 s x hx u hu
    · exact ihb h.2 _ y hy u hu
  | alt a b iha ihb =>
    intro s m hm
    rcases List.mem_append.mp hm with hm | hm
    · exact iha h.1 s m hm
    · exact ihb h.2 s m hm
  | star g r ih =>
    have rounds : ∀ k s, ∀ m ∈ iterate g (run r) k s, ∀ u, (n, u) ∈ m.caps → ∀ c ∈ u, P c := by
      intro k
      induction k with
      | zero =>
        intro s m hm u hu
        obtain rfl := List.mem_singleton.mp hm
        cases hu
      | succ k ihk =>
        intro s m hm u hu
        rcases mem_iterate_succ.mp hm with rfl | ⟨a, ha, -, b, hb, rfl⟩
        · cases hu
        · rcases List.mem_append.mp hu with hu | hu
          · exact ih h s a ha u hu
          · exact ihk _ b hb u hu
    exact fun s => rounds s.length s
  | group k r ih =>
    intro s m hm u hu
    obtain ⟨x, hx, rfl⟩ := List.mem_map.mp hm
    rcases List.mem_append.mp hu with hu | hu
    · exact ih h.2 s x hx u hu
    · obtain ⟨rfl, rfl⟩ := Prod.mk.inj (List.mem_singleton.mp hu)
      exact language_within r (h.1 rfl) x.text (run_sound r s x hx)

theorem captured_within {n : Nat} {P : Char → Prop} {r : Re} {s : List Char} {m : Match}
    (found : search r s = some m) (h : r.GroupWithin n P) : ∀ c ∈ m.captured n, P c := by
  obtain ⟨skipped, -, member⟩ := search_some found
  intro c hc
  rw [Match.captured] at hc
  cases captured : m.caps.reverse.lookup n with
  | none => rw [captured] at hc; cases hc
  | some u =>
    rw [captured] at hc
    obtain ⟨before, after, split, -⟩ := List.lookup_eq_some_iff.mp captured
    have inside : (n, u) ∈ m.caps := List.mem_reverse.mp (by rw [split]; simp)
    exact caps_within r h _ m member u inside c hc

end Regex
