import Mathlib.Data.List.Chain

/-!
# Thinning a list

Of a list are kept the first element, the last, and every one between that differs from the one in
front of it or from the one behind it. Both neighbours are those of the whole list.
-/

namespace Thinning

variable {α β : Type} {differs : α → α → Bool}

/-- What is kept behind `prev`. -/
def inner (differs : α → α → Bool) (prev : α) : List α → List α
  | [] => []
  | [last] => [last]
  | here :: next :: rest =>
    if differs here prev || differs here next then here :: inner differs here (next :: rest)
    else inner differs here (next :: rest)

def thin (differs : α → α → Bool) : List α → List α
  | [] => []
  | first :: rest => first :: inner differs first rest

theorem inner_kept {prev here next : α} {rest : List α} (kept : (differs here prev || differs here next) = true) :
    inner differs prev (here :: next :: rest) = here :: inner differs here (next :: rest) := by
  rw [inner, if_pos kept]

theorem inner_dropped {prev here next : α} {rest : List α}
    (dropped : (differs here prev || differs here next) = false) :
    inner differs prev (here :: next :: rest) = inner differs here (next :: rest) := by
  rw [inner, dropped, if_neg Bool.false_ne_true]

theorem inner_sublist (prev : α) (l : List α) : (inner differs prev l).Sublist l := by
  induction prev, l using inner.induct differs with
  | case1 => exact .slnil
  | case2 prev last => exact .refl _
  | case3 prev here next rest kept ih =>
    rw [inner_kept kept]
    exact ih.cons_cons here
  | case4 prev here next rest dropped ih =>
    rw [inner_dropped (Bool.of_not_eq_true dropped)]
    exact ih.cons here

theorem thin_sublist (l : List α) : (thin differs l).Sublist l := by
  cases l with
  | nil => exact .slnil
  | cons first rest => exact (inner_sublist first rest).cons_cons first

theorem thin_head? (l : List α) : (thin differs l).head? = l.head? := by
  cases l <;> rfl

theorem inner_getLast? (prev : α) (l : List α) : (inner differs prev l).getLast? = l.getLast? := by
  induction prev, l using inner.induct differs with
  | case1 => rfl
  | case2 prev last => rfl
  | case3 prev here next rest kept ih =>
    rw [inner_kept kept, List.getLast?_cons, ih, List.getLast?_cons_cons, List.getLast?_cons, Option.getD_some]
  | case4 prev here next rest dropped ih =>
    rw [inner_dropped (Bool.of_not_eq_true dropped), ih, List.getLast?_cons_cons]

theorem thin_getLast? (l : List α) : (thin differs l).getLast? = l.getLast? := by
  cases l with
  | nil => rfl
  | cons first rest => rw [thin, List.getLast?_cons, inner_getLast?, List.getLast?_cons]

theorem inner_map (f : β → α) (prev : β) (l : List β) :
    inner differs (f prev) (l.map f) = (inner (fun a b => differs (f a) (f b)) prev l).map f := by
  induction prev, l using inner.induct fun a b => differs (f a) (f b) with
  | case1 => rfl
  | case2 prev last => rfl
  | case3 prev here next rest kept ih =>
    have whole : inner (fun a b => differs (f a) (f b)) prev (here :: next :: rest) = _ := inner_kept kept
    rw [whole, List.map_cons, List.map_cons, inner_kept kept, ← List.map_cons, ih, List.map_cons]
  | case4 prev here next rest dropped ih =>
    have dropped := Bool.of_not_eq_true dropped
    have whole : inner (fun a b => differs (f a) (f b)) prev (here :: next :: rest) = _ := inner_dropped dropped
    rw [whole, List.map_cons, List.map_cons, inner_dropped dropped, ← List.map_cons, ih]

theorem thin_map (f : β → α) (l : List β) :
    thin differs (l.map f) = (thin (fun a b => differs (f a) (f b)) l).map f := by
  cases l with
  | nil => rfl
  | cons first rest => rw [List.map_cons, thin, thin, List.map_cons, inner_map]

/-! ### Searching in what is kept -/

/-- A search that, having met an element, would also stop at the next one of the same value, finds
that value among the kept elements. -/
theorem inner_find? {q : α → Bool} {value : α → β} (same : ∀ a b, differs a b = false → value a = value b)
    (prev : α) (l : List α) (goes : l.IsChain fun a b => differs a b = false → q a = true → q b = true) :
    ((inner differs prev l).find? q).map value = (l.find? q).map value := by
  induction prev, l using inner.induct differs with
  | case1 => rfl
  | case2 prev last => rfl
  | case3 prev here next rest kept ih =>
    rw [inner_kept kept, List.find?_cons, List.find?_cons]
    cases q here with
    | true => rfl
    | false => exact ih (List.isChain_cons_cons.mp goes).2
  | case4 prev here next rest dropped ih =>
    obtain ⟨-, equal⟩ := Bool.or_eq_false_iff.mp (Bool.of_not_eq_true dropped)
    obtain ⟨on, goes⟩ := List.isChain_cons_cons.mp goes
    rw [inner_dropped (Bool.of_not_eq_true dropped), ih goes, List.find?_cons (a := here)]
    cases met : q here with
    | true =>
      rw [List.find?_cons, on equal met]
      exact congrArg some (same here next equal).symm
    | false => rfl

theorem thin_find? {q : α → Bool} {value : α → β} (same : ∀ a b, differs a b = false → value a = value b)
    (l : List α) (goes : l.IsChain fun a b => differs a b = false → q a = true → q b = true) :
    ((thin differs l).find? q).map value = (l.find? q).map value := by
  cases l with
  | nil => rfl
  | cons first rest =>
    rw [thin, List.find?_cons, List.find?_cons]
    cases q first with
    | true => rfl
    | false => exact inner_find? same first rest goes.tail

/-- The first element with a property of its value is kept. -/
theorem inner_find?_value {q : α → Bool} (same : ∀ a b, differs a b = false → q a = q b) (prev : α) (l : List α)
    (before : q prev = false) : (inner differs prev l).find? q = l.find? q := by
  induction prev, l using inner.induct differs with
  | case1 => rfl
  | case2 prev last => rfl
  | case3 prev here next rest kept ih =>
    rw [inner_kept kept, List.find?_cons, List.find?_cons]
    cases met : q here with
    | true => rfl
    | false => exact ih met
  | case4 prev here next rest dropped ih =>
    obtain ⟨equal, -⟩ := Bool.or_eq_false_iff.mp (Bool.of_not_eq_true dropped)
    have here_before := (same here prev equal).trans before
    rw [inner_dropped (Bool.of_not_eq_true dropped), ih here_before, List.find?_cons (a := here), here_before]

theorem thin_find?_value {q : α → Bool} (same : ∀ a b, differs a b = false → q a = q b) (l : List α) :
    (thin differs l).find? q = l.find? q := by
  cases l with
  | nil => rfl
  | cons first rest =>
    rw [thin, List.find?_cons, List.find?_cons]
    cases met : q first with
    | true => rfl
    | false => exact inner_find?_value same first rest met

end Thinning
