import CanTracer.Regex.First

/-!
# Patterns piece by piece

A pattern written as `Re.cat` of its pieces, matched against a text written as its pieces.
-/

namespace Regex

variable {r : Re} {rs : List Re} {s t u v w : List Char} {c d : Char}

/-! ### The reported match -/

theorem first_cat {caps caps' : List (Nat × List Char)} (h : First r (u ++ t) ⟨u, t, caps⟩)
    (rest : First (.cat rs) t ⟨v, w, caps'⟩) : First (.cat (r :: rs)) (u ++ t) ⟨u ++ v, w, caps ++ caps'⟩ := by
  have both := first_seq h rest
  exact both

theorem tries_cat {caps caps' : List (Nat × List Char)} {before : List Match}
    (h : Tries r (u ++ t) before ⟨u, t, caps⟩)
    (fail : ∀ x ∈ before, run (.cat rs) x.rest = []) (rest : First (.cat rs) t ⟨v, w, caps'⟩) :
    First (.cat (r :: rs)) (u ++ t) ⟨u ++ v, w, caps ++ caps'⟩ := by
  have both := tries_seq h fail rest
  exact both

theorem first_nil (t : List Char) : First (.cat []) t ⟨[], t, []⟩ := first_eps t

theorem first_char (c : Char) (t : List Char) :
    First (.char c) ([c] ++ t) ⟨[c], t, []⟩ := first_cls (by simp)

theorem first_capture {p : Char → Bool} (n : Nat) (pos : u ≠ []) (hu : ∀ c ∈ u, p c = true)
    (ht : ∀ c ∈ t.head?, p c = false) :
    First (.group n (.plus (.cls p))) (u ++ t) ⟨u, t, [(n, u)]⟩ := by
  have inner := first_group (n := n) (first_plus_cls u pos hu ht)
  exact inner

theorem first_tried {caps : List (Nat × List Char)} {before : List Match} (n : Nat)
    (tried : Tries r (u ++ t) before ⟨u, t, []⟩)
    (fail : ∀ x ∈ before, run (.cat rs) x.rest = []) (rest : First (.cat rs) t ⟨v, w, caps⟩) :
    First (.cat (.group n r :: rs)) (u ++ t) ⟨u ++ v, w, (n, u) :: caps⟩ := by
  have captured : Tries (.group n r) (u ++ t) (before.map (·.close n)) ⟨u, t, [(n, u)]⟩ := tries_group tried
  refine tries_cat captured (fun x hx => ?_) rest
  obtain ⟨y, hy, rfl⟩ := List.mem_map.mp hx
  exact fail y hy

theorem first_greedy {p : Char → Bool} {caps : List (Nat × List Char)} (n : Nat) (pos : u ≠ [])
    (hu : ∀ c ∈ u, p c = true)
    (fail : ∀ x y, x ≠ [] → t = x ++ y → run (.cat rs) y = []) (rest : First (.cat rs) t ⟨v, w, caps⟩) :
    First (.cat (.group n (.plus (.cls p)) :: rs)) (u ++ t) ⟨u ++ v, w, (n, u) :: caps⟩ := by
  obtain ⟨before, tried, longer⟩ := tries_plus_cls (p := p) u t pos hu
  refine first_tried n tried (fun x hx => ?_) rest
  obtain ⟨more, nonempty, -, split⟩ := longer x hx
  exact fail more x.rest nonempty split

theorem first_greedyStar {p : Char → Bool} {caps : List (Nat × List Char)} (n : Nat)
    (hu : ∀ c ∈ u, p c = true)
    (fail : ∀ x y, x ≠ [] → t = x ++ y → run (.cat rs) y = []) (rest : First (.cat rs) t ⟨v, w, caps⟩) :
    First (.cat (.group n (.star true (.cls p)) :: rs)) (u ++ t) ⟨u ++ v, w, (n, u) :: caps⟩ := by
  obtain ⟨before, tried, longer⟩ := tries_greedy (p := p) u t hu
  refine first_tried n tried (fun x hx => ?_) rest
  obtain ⟨more, nonempty, -, split⟩ := longer x hx
  exact fail more x.rest nonempty split

theorem tries_lazy_fail {p : Char → Bool} (hu : ∀ c ∈ u, p c = true)
    (fail : ∀ c ∈ u, ∀ y, run (.cat rs) (c :: y) = []) :
    ∃ before, Tries (.star false (.cls p)) (u ++ t) before ⟨u, t, []⟩ ∧ ∀ x ∈ before, run (.cat rs) x.rest = [] := by
  obtain ⟨before, tried, shorter⟩ := tries_lazy (p := p) u t hu
  refine ⟨before, tried, fun x hx => ?_⟩
  obtain ⟨c, hc, y, same⟩ := shorter x hx
  rw [same]
  exact fail c hc y

theorem search_skip (h : ∀ c ∈ u, ∀ s, run r (c :: s) = []) : search r (u ++ s) = search r s := by
  induction u with
  | nil => rfl
  | cons c u ih =>
    rw [List.cons_append, search_cons (h c List.mem_cons_self _)]
    exact ih fun d hd => h d (List.mem_cons_of_mem _ hd)

/-! ### Pieces that fail -/

theorem run_cat_nil (h : run r s = []) : run (.cat (r :: rs)) s = [] := by
  rw [Re.cat, run, h, List.flatMap_nil]

theorem run_char_ne (h : c ≠ d) : run (.char d) (c :: s) = [] := by
  rw [Re.char, run, if_neg (by simpa using h)]

theorem run_lit_ne (h : c ≠ d) : run (.lit (d :: u)) (c :: s) = [] := by
  rw [Re.lit, run, run_char_ne h, List.flatMap_nil]

theorem run_char_not_mem (h : c ∉ s) : run (.cat (.char c :: rs)) s = [] := by
  apply run_cat_nil
  cases s with
  | nil => rfl
  | cons d s => exact run_char_ne fun same => h (same ▸ List.mem_cons_self)

/-! ### Words -/

theorem mem_lit (h : u ∈ (Re.lit w).language) : u = w := by
  induction w generalizing u with
  | nil => exact (Language.mem_one u).mp h
  | cons c w ih =>
    obtain ⟨a, ⟨d, hd, rfl⟩, b, hb, rfl⟩ := Language.mem_mul.mp h
    rw [ih hb, eq_of_beq hd]
    rfl

theorem mem_cat_cons (h : u ∈ (Re.cat (r :: rs)).language) :
    ∃ a b, u = a ++ b ∧ a ∈ r.language ∧ b ∈ (Re.cat rs).language := by
  obtain ⟨a, ha, b, hb, rfl⟩ := Language.mem_mul.mp h
  exact ⟨a, b, rfl, ha, hb⟩

theorem mem_cat_append {rs' : List Re} (h : u ∈ (Re.cat (rs ++ rs')).language) :
    ∃ a b, u = a ++ b ∧ a ∈ (Re.cat rs).language ∧ b ∈ (Re.cat rs').language := by
  induction rs generalizing u with
  | nil => exact ⟨[], u, rfl, Language.nil_mem_one, h⟩
  | cons r rs ih =>
    obtain ⟨a, b, rfl, ha, hb⟩ := mem_cat_cons h
    obtain ⟨x, y, rfl, hx, hy⟩ := ih hb
    exact ⟨a ++ x, y, (List.append_assoc _ _ _).symm, Language.append_mem_mul ha hx, hy⟩

theorem mem_of_mem_lit (h : u ∈ (Re.cat rs).language) (piece : Re.lit w ∈ rs) (hc : c ∈ w) : c ∈ u := by
  obtain ⟨before, after, rfl⟩ := List.append_of_mem piece
  obtain ⟨a, b, rfl, -, hb⟩ := mem_cat_append h
  obtain ⟨x, y, rfl, hx, -⟩ := mem_cat_cons hb
  rw [mem_lit hx]
  exact List.mem_append_right _ (List.mem_append_left _ hc)

theorem mem_of_mem_char (h : u ∈ (Re.cat rs).language) (piece : Re.char c ∈ rs) : c ∈ u := by
  obtain ⟨before, after, rfl⟩ := List.append_of_mem piece
  obtain ⟨a, b, rfl, -, hb⟩ := mem_cat_append h
  obtain ⟨x, y, rfl, ⟨d, hd, rfl⟩, -⟩ := mem_cat_cons hb
  rw [eq_of_beq hd]
  exact List.mem_append_right _ (List.mem_append_left _ List.mem_cons_self)

theorem mem_plus_cls {p : Char → Bool} (h : u ∈ (Re.plus (.cls p)).language) : u ≠ [] ∧ ∀ c ∈ u, p c = true := by
  refine ⟨?_, language_within (P := fun c => p c = true) (.plus (.cls p)) (by simp [Re.plus, Re.Within]) u h⟩
  obtain ⟨a, ⟨c, -, rfl⟩, b, -, rfl⟩ := Language.mem_mul.mp h
  exact List.cons_ne_nil _ _

theorem search_eq_none (h : ∀ u, u <:+: s → u ∉ r.language) : search r s = none := by
  by_contra found
  obtain ⟨x, u, y, rfl, hu⟩ := search_isSome_iff.mp (Option.isSome_iff_ne_none.mpr found)
  exact h u ⟨x, y, List.append_assoc _ _ _⟩ hu

theorem search_none_iff : search r s = none ↔ ∀ u, u <:+: s → u ∉ r.language := by
  refine ⟨fun missing u inside hu => ?_, search_eq_none⟩
  obtain ⟨x, y, whole⟩ := inside
  have found : (search r s).isSome := search_isSome_iff.mpr ⟨x, u, y, by rw [← whole, List.append_assoc], hu⟩
  rw [missing] at found
  cases found

theorem ends_with_char (h : u ∈ (Re.cat (rs ++ [.char c])).language) : ∃ v, u = v ++ [c] := by
  obtain ⟨a, b, rfl, -, hb⟩ := mem_cat_append h
  obtain ⟨x, y, rfl, ⟨d, hd, rfl⟩, hy⟩ := mem_cat_cons hb
  obtain rfl := (Language.mem_one y).mp hy
  rw [eq_of_beq hd]
  exact ⟨a, rfl⟩

theorem plus_ends_with (ends : ∀ u ∈ r.language, ∃ v, u = v ++ [c]) (h : u ∈ (Re.plus r).language) :
    ∃ v, u = v ++ [c] := by
  obtain ⟨a, ha, b, hb, rfl⟩ := Language.mem_mul.mp h
  obtain ⟨words, rfl, each⟩ := Language.mem_kstar.mp hb
  rcases List.eq_nil_or_concat words with rfl | ⟨words, w, rfl⟩
  · rw [List.flatten_nil, List.append_nil]
    exact ends a ha
  · obtain ⟨v, rfl⟩ := ends w (each w (by simp))
    exact ⟨a ++ (words.flatten ++ v), by simp⟩

/-! ### Matches of a sequence -/

theorem mem_run_cat_append {rs' : List Re} {m : Match} (h : m ∈ run (.cat (rs ++ rs')) s) :
    ∃ x y, m = x.append y ∧ x ∈ run (.cat rs) s ∧ y ∈ run (.cat rs') x.rest := by
  induction rs generalizing s m with
  | nil => exact ⟨Match.empty s, m, rfl, List.mem_singleton_self _, h⟩
  | cons r rs ih =>
    obtain ⟨x, hx, y, hy, rfl⟩ := mem_run_seq.mp h
    obtain ⟨a, b, rfl, ha, hb⟩ := ih hy
    exact ⟨x.append a, b, (append_assoc x a b).symm, mem_run_seq.mpr ⟨x, hx, a, ha, rfl⟩, hb⟩

theorem mem_run_cls {p : Char → Bool} {m : Match} (h : m ∈ run (.cls p) s) :
    ∃ c, p c = true ∧ m.text = [c] ∧ m.caps = [] := by
  cases s with
  | nil => cases h
  | cons c s =>
    rw [run] at h
    split at h
    · rename_i hp
      obtain rfl := List.mem_singleton.mp h
      exact ⟨c, hp, rfl, rfl⟩
    · cases h

theorem mem_searchAll {m : Match} {n : Nat} (h : m ∈ searchAll r n s) : ∃ s', search r s' = some m := by
  induction n generalizing s with
  | zero => cases h
  | succ n ih =>
    rw [searchAll] at h
    split at h
    · cases h
    · rename_i found
      rcases List.mem_cons.mp h with rfl | h
      · exact ⟨s, found⟩
      · exact ih h

/-! ### Places in a text -/

theorem suffix_of_cons {a b x y : List Char} (h : a ++ b = x ++ c :: y) (hc : c ∉ a) : c :: y <:+ b := by
  rcases List.append_eq_append_iff.mp h with ⟨z, -, rest⟩ | ⟨z, front, rest⟩
  · exact ⟨z, rest.symm⟩
  · cases z with
    | nil => exact ⟨[], rest⟩
    | cons d z =>
      obtain ⟨rfl, -⟩ := List.cons.inj rest
      exact absurd (front ▸ List.mem_append_right _ List.mem_cons_self) hc

theorem suffix_after {x y : List Char} (h : x ++ u = y ++ c :: w) (hc : c ∉ u) : u <:+ w := by
  rcases List.append_eq_append_iff.mp h with ⟨z, -, back⟩ | ⟨z, -, back⟩
  · exact absurd (back ▸ List.mem_append_right _ List.mem_cons_self) hc
  · cases z with
    | nil =>
      rw [List.nil_append] at back
      exact absurd (back ▸ List.mem_cons_self) hc
    | cons d z =>
      obtain ⟨-, rfl⟩ := List.cons.inj back
      exact ⟨z, rfl⟩

theorem infix_split (h : u <:+: s ++ c :: t) (hc : c ∉ u) : u <:+: s ∨ u <:+: t := by
  obtain ⟨x, y, whole⟩ := h
  rcases List.append_eq_append_iff.mp whole with ⟨z, front, -⟩ | ⟨z, front, back⟩
  · exact .inl ⟨x, z, front.symm⟩
  · cases z with
    | nil => exact .inl ⟨x, [], by rw [List.append_nil, front, List.append_nil]⟩
    | cons d z =>
      obtain ⟨rfl, rfl⟩ := List.cons.inj back
      exact .inr ((suffix_after front hc).isInfix.trans (List.prefix_append z y).isInfix)

end Regex
