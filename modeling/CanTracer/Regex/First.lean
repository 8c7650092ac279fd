import CanTracer.Regex.Language

/-!
# The reported match

`First r s m` says that `m` is the match the engine reports at the head of `s`. The rules follow
the pattern from left to right; where a greedy or lazy piece is tried with other lengths first,
`Tries` names those attempts, and the rule asks that what follows fails after each of them.
-/

namespace Regex

/-- The matches tried before `m` at the head of `s`. -/
def Tries (r : Re) (s : List Char) (before : List Match) (m : Match) : Prop :=
  ∃ after, run r s = before ++ m :: after

def First (r : Re) (s : List Char) (m : Match) : Prop := Tries r s [] m

theorem first_iff {r : Re} {s : List Char} {m : Match} : First r s m ↔ (run r s).head? = some m := by
  constructor
  · rintro ⟨after, h⟩
    rw [h]
    rfl
  · intro h
    cases hr : run r s with
    | nil => rw [hr] at h; cases h
    | cons m' after =>
      rw [hr] at h
      obtain rfl := Option.some.inj h
      exact ⟨after, hr⟩

theorem run_eq_nil_iff {r : Re} {s : List Char} : run r s = [] ↔ ∀ u t, s = u ++ t → u ∉ r.language := by
  constructor
  · rintro h u t rfl hu
    obtain ⟨m, hm, -⟩ := run_complete r u hu t
    rw [h] at hm
    cases hm
  · intro h
    apply List.eq_nil_iff_forall_not_mem.mpr
    intro m hm
    exact h m.text m.rest (run_split r s m hm).symm (run_sound r s m hm)

/-! ### Searching -/

theorem search_of_first {r : Re} {s : List Char} {m : Match} (h : First r s m) : search r s = some m := by
  rw [first_iff] at h
  cases s with
  | nil => exact h
  | cons c s => rw [search, h, Option.some_or]

theorem search_cons {r : Re} {c : Char} {s : List Char} (h : run r (c :: s) = []) :
    search r (c :: s) = search r s := by
  rw [search, h, List.head?_nil, Option.none_or]

/-! ### One piece after the other -/

theorem tries_seq {a b : Re} {s : List Char} {before : List Match} {m m' : Match}
    (ha : Tries a s before m) (fail : ∀ x ∈ before, run b x.rest = []) (hb : First b m.rest m') :
    First (.seq a b) s (m.append m') := by
  obtain ⟨after, ha⟩ := ha
  obtain ⟨more, hb⟩ := hb
  have skipped : (before.flatMap fun x => (run b x.rest).map x.append) = [] := by
    rw [List.flatMap_eq_nil_iff]
    intro x hx
    rw [fail x hx, List.map_nil]
  refine ⟨more.map m.append ++ after.flatMap fun x => (run b x.rest).map x.append, ?_⟩
  rw [run, ha, List.flatMap_append, skipped, List.flatMap_cons, hb]
  rfl

theorem first_seq {a b : Re} {s : List Char} {m m' : Match} (ha : First a s m) (hb : First b m.rest m') :
    First (.seq a b) s (m.append m') := tries_seq ha (by simp) hb

theorem first_eps (s : List Char) : First .eps s (Match.empty s) := ⟨[], rfl⟩

theorem first_cls {p : Char → Bool} {c : Char} {s : List Char} (h : p c = true) :
    First (.cls p) (c :: s) ⟨[c], s, []⟩ := ⟨[], by rw [run, if_pos h]; rfl⟩

theorem first_lit (u t : List Char) : First (Re.lit u) (u ++ t) ⟨u, t, []⟩ := by
  induction u with
  | nil => exact first_eps t
  | cons c u ih =>
    have head : First (Re.char c) (c :: (u ++ t)) ⟨[c], u ++ t, []⟩ := first_cls (by simp)
    have both := first_seq head ih
    exact both

theorem first_altLeft {a b : Re} {s : List Char} {m : Match} (h : First a s m) : First (.alt a b) s m := by
  obtain ⟨after, h⟩ := h
  exact ⟨after ++ run b s, by rw [run, h]; rfl⟩

theorem first_altRight {a b : Re} {s : List Char} {m : Match} (fail : run a s = []) (h : First b s m) :
    First (.alt a b) s m := by
  obtain ⟨after, h⟩ := h
  exact ⟨after, by rw [run, fail, h]; rfl⟩

def Match.close (m : Match) (n : Nat) : Match := { m with caps := m.caps ++ [(n, m.text)] }

theorem tries_group {n : Nat} {r : Re} {s : List Char} {before : List Match} {m : Match}
    (h : Tries r s before m) : Tries (.group n r) s (before.map (·.close n)) (m.close n) := by
  obtain ⟨after, h⟩ := h
  exact ⟨after.map (·.close n), by rw [run, h, List.map_append]; rfl⟩

theorem first_group {n : Nat} {r : Re} {s : List Char} {m : Match} (h : First r s m) :
    First (.group n r) s (m.close n) := tries_group h

/-! ### Repetitions -/

theorem first_star_stop {r : Re} {s : List Char} (h : run r s = []) :
    First (.star true r) s (Match.empty s) :=
  ⟨[], by rw [run_star, h]; rfl⟩

theorem first_star_more {r : Re} {s : List Char} {m m' : Match} (h : First r s m) (pos : m.text ≠ [])
    (rest : First (.star true r) m.rest m') : First (.star true r) s (m.append m') := by
  obtain ⟨after, h⟩ := h
  obtain ⟨more, rest⟩ := rest
  have nonempty : m.text.isEmpty = false := by simpa using pos
  rw [First, Tries, run_star, h]
  simp only [List.nil_append, List.flatMap_cons, nonempty, Bool.false_eq_true, if_false, if_true, rest,
    List.map_cons, List.cons_append]
  exact ⟨_, rfl⟩

theorem run_star_cls (g : Bool) (p : Char → Bool) (c : Char) (s : List Char) (h : p c = true) :
    run (.star g (.cls p)) (c :: s) =
      let more := (run (.star g (.cls p)) s).map (Match.append ⟨[c], s, []⟩)
      if g then more ++ [Match.empty (c :: s)] else Match.empty (c :: s) :: more := by
  rw [run_star, run, if_pos h]
  simp

theorem run_star_cls_stop (g : Bool) {p : Char → Bool} {t : List Char} (h : ∀ c ∈ t.head?, p c = false) :
    run (.star g (.cls p)) t = [Match.empty t] := by
  have none : run (.cls p) t = [] := by
    cases t with
    | nil => rfl
    | cons c t => rw [run, h c rfl]; rfl
  rw [run_star, none]
  cases g <;> rfl

/-- A greedy class is tried with more characters first. -/
theorem tries_greedy {p : Char → Bool} (u t : List Char) (hu : ∀ c ∈ u, p c = true) :
    ∃ before, Tries (.star true (.cls p)) (u ++ t) before ⟨u, t, []⟩ ∧
      ∀ x ∈ before, ∃ v, v ≠ [] ∧ (∀ c ∈ v, p c = true) ∧ t = v ++ x.rest := by
  induction u with
  | nil =>
    obtain ⟨after, last⟩ : ∃ before, run (.star true (.cls p)) t = before ++ [Match.empty t] :=
      ⟨_, by rw [run_star]; rfl⟩
    refine ⟨after, ⟨[], last⟩, fun x hx => ?_⟩
    have member : x ∈ run (.star true (.cls p)) t := by rw [last]; exact List.mem_append_left _ hx
    refine ⟨x.text, ?_, ?_, (run_split _ _ x member).symm⟩
    · intro empty
      rw [run_star] at last
      have more := List.append_cancel_right last
      rw [← more] at hx
      obtain ⟨m, hm, hx⟩ := List.mem_flatMap.mp hx
      by_cases h : m.text = []
      · simp [h] at hx
      · rw [if_neg (by simpa using h)] at hx
        obtain ⟨y, -, rfl⟩ := List.mem_map.mp hx
        exact h (List.append_eq_nil_iff.mp empty).1
    · exact language_within (P := fun c => p c = true) (.star true (.cls p)) (fun c h => h) _ (run_sound _ _ x member)
  | cons c u ih =>
    obtain ⟨before, ⟨after, h⟩, longer⟩ := ih fun d hd => hu d (List.mem_cons_of_mem _ hd)
    refine ⟨before.map (Match.append ⟨[c], u ++ t, []⟩),
      ⟨after.map (Match.append ⟨[c], u ++ t, []⟩) ++ [Match.empty (c :: (u ++ t))], ?_⟩, ?_⟩
    · rw [List.cons_append, run_star_cls true p c (u ++ t) (hu c List.mem_cons_self), h]
      simp [Match.append]
    · intro x hx
      obtain ⟨y, hy, rfl⟩ := List.mem_map.mp hx
      exact longer y hy

theorem tries_lazy {p : Char → Bool} (u t : List Char) (hu : ∀ c ∈ u, p c = true) :
    ∃ before, Tries (.star false (.cls p)) (u ++ t) before ⟨u, t, []⟩ ∧
      ∀ x ∈ before, ∃ c ∈ u, ∃ v, x.rest = c :: v := by
  induction u with
  | nil => exact ⟨[], ⟨_, by rw [run_star]; rfl⟩, by simp⟩
  | cons c u ih =>
    obtain ⟨before, ⟨after, h⟩, shorter⟩ := ih fun d hd => hu d (List.mem_cons_of_mem _ hd)
    refine ⟨Match.empty (c :: (u ++ t)) :: before.map (Match.append ⟨[c], u ++ t, []⟩),
      ⟨after.map (Match.append ⟨[c], u ++ t, []⟩), ?_⟩, ?_⟩
    · rw [List.cons_append, run_star_cls false p c (u ++ t) (hu c List.mem_cons_self), h]
      simp [Match.append]
    · intro x hx
      rcases List.mem_cons.mp hx with rfl | hx
      · exact ⟨c, List.mem_cons_self, u ++ t, rfl⟩
      · obtain ⟨y, hy, rfl⟩ := List.mem_map.mp hx
        obtain ⟨d, hd, v, same⟩ := shorter y hy
        exact ⟨d, List.mem_cons_of_mem _ hd, v, same⟩

theorem first_star_cls {p : Char → Bool} (u : List Char) {t : List Char} (hu : ∀ c ∈ u, p c = true)
    (ht : ∀ c ∈ t.head?, p c = false) : First (.star true (.cls p)) (u ++ t) ⟨u, t, []⟩ := by
  induction u with
  | nil => exact ⟨[], run_star_cls_stop true ht⟩
  | cons c u ih =>
    have head : First (.cls p) (c :: (u ++ t)) ⟨[c], u ++ t, []⟩ := first_cls (hu c List.mem_cons_self)
    have both := first_star_more head (List.cons_ne_nil c []) (ih fun d hd => hu d (List.mem_cons_of_mem _ hd))
    exact both

theorem first_plus_cls {p : Char → Bool} (u : List Char) {t : List Char} (pos : u ≠ [])
    (hu : ∀ c ∈ u, p c = true) (ht : ∀ c ∈ t.head?, p c = false) :
    First (Re.plus (.cls p)) (u ++ t) ⟨u, t, []⟩ := by
  cases u with
  | nil => exact absurd rfl pos
  | cons c u =>
    have head : First (.cls p) (c :: (u ++ t)) ⟨[c], u ++ t, []⟩ := first_cls (hu c List.mem_cons_self)
    have both := first_seq head (first_star_cls u (fun d hd => hu d (List.mem_cons_of_mem _ hd)) ht)
    exact both

theorem tries_plus_cls {p : Char → Bool} (u t : List Char) (pos : u ≠ []) (hu : ∀ c ∈ u, p c = true) :
    ∃ before, Tries (Re.plus (.cls p)) (u ++ t) before ⟨u, t, []⟩ ∧
      ∀ x ∈ before, ∃ v, v ≠ [] ∧ (∀ c ∈ v, p c = true) ∧ t = v ++ x.rest := by
  cases u with
  | nil => exact absurd rfl pos
  | cons c u =>
    obtain ⟨before, ⟨after, h⟩, longer⟩ := tries_greedy u t fun d hd => hu d (List.mem_cons_of_mem _ hd)
    refine ⟨before.map (Match.append ⟨[c], u ++ t, []⟩), ⟨after.map (Match.append ⟨[c], u ++ t, []⟩), ?_⟩, ?_⟩
    · rw [Re.plus, run, List.cons_append, run, if_pos (hu c List.mem_cons_self), List.flatMap_singleton, h]
      simp [Match.append]
    · intro x hx
      obtain ⟨y, hy, rfl⟩ := List.mem_map.mp hx
      exact longer y hy

end Regex
