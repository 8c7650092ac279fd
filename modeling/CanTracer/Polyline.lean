import Mathlib.Analysis.Convex.Segment
import CanTracer.Thinning

/-!
# Polylines

The points of the plane that a polyline goes through, and what thinning it by height leaves of them:
all, when its vertices go from left to right.
-/

namespace Polyline

/-- Two vertices are on different levels. -/
def levels {K : Type} [LinearOrder K] (p q : K × K) : Bool := decide (p.2 ≠ q.2)

theorem level_of_not_levels {K : Type} [LinearOrder K] {p q : K × K} (h : levels p q = false) : p.2 = q.2 :=
  not_not.mp (of_decide_eq_false h)

variable {K : Type} [Field K] [LinearOrder K] [IsStrictOrderedRing K]

/-- The points of the segments from each vertex to the next. -/
def curve : List (K × K) → Set (K × K)
  | [] => ∅
  | [p] => {p}
  | p :: q :: rest => segment K p q ∪ curve (q :: rest)

theorem segment_flat {p q : K × K} (le : p.1 ≤ q.1) (level : p.2 = q.2) :
    segment K p q = (fun x => (x, q.2)) '' Set.Icc p.1 q.1 := by
  obtain ⟨px, py⟩ := p
  obtain ⟨qx, qy⟩ := q
  obtain rfl : py = qy := level
  rw [← segment_eq_Icc le, Prod.image_mk_segment_left]

/-- Two pieces of one horizontal line. -/
theorem segment_union {a b c : K × K} (ab : a.1 ≤ b.1) (bc : b.1 ≤ c.1) (level : a.2 = b.2) (level' : b.2 = c.2) :
    segment K a b ∪ segment K b c = segment K a c := by
  rw [segment_flat ab level, segment_flat bc level', segment_flat (ab.trans bc) (level.trans level'), level',
    ← Set.image_union, Set.Icc_union_Icc_eq_Icc ab bc]

theorem mem_curve (p : K × K) (l : List (K × K)) : p ∈ curve (p :: l) := by
  cases l with
  | nil => exact rfl
  | cons q rest => exact .inl (left_mem_segment K p q)

theorem segment_self_union {p : K × K} {s : Set (K × K)} (here : p ∈ s) : segment K p p ∪ s = s := by
  rw [segment_same]
  exact Set.union_eq_self_of_subset_left (Set.singleton_subset_iff.mpr here)

/-- `anchor` is the vertex kept last: `prev`, or one to the left of it on a level that goes on from
`prev` to the next vertex. -/
def Anchors (anchor prev next : K × K) : Prop :=
  anchor = prev ∨ anchor.1 ≤ prev.1 ∧ anchor.2 = prev.2 ∧ prev.2 = next.2

theorem Anchors.union {anchor prev next : K × K} (anchors : Anchors anchor prev next) (le : prev.1 ≤ next.1) :
    segment K anchor prev ∪ segment K prev next = segment K anchor next := by
  rcases anchors with rfl | ⟨left, level, level'⟩
  · exact segment_self_union (left_mem_segment K anchor next)
  · exact segment_union left le level level'

theorem curve_inner (rest : List (K × K)) :
    ∀ anchor prev here : K × K, (prev :: here :: rest).Pairwise (·.1 ≤ ·.1) → Anchors anchor prev here →
      curve (anchor :: Thinning.inner levels prev (here :: rest)) =
        segment K anchor prev ∪ curve (prev :: here :: rest) := by
  induction rest with
  | nil =>
    intro anchor prev here ordered anchors
    have le := (List.pairwise_cons.mp ordered).1 here List.mem_cons_self
    change segment K anchor here ∪ {here} = segment K anchor prev ∪ (segment K prev here ∪ {here})
    rw [← Set.union_assoc, anchors.union le]
  | cons next rest ih =>
    intro anchor prev here ordered anchors
    obtain ⟨first, behind⟩ := List.pairwise_cons.mp ordered
    have le := first here List.mem_cons_self
    have whole : segment K anchor prev ∪ curve (prev :: here :: next :: rest) =
        segment K anchor here ∪ curve (here :: next :: rest) := by
      rw [curve, ← Set.union_assoc, anchors.union le]
    rw [whole]
    cases keeps : levels here prev || levels here next with
    | true =>
      rw [Thinning.inner_kept keeps, curve, ih here here next behind (.inl rfl),
        segment_self_union (mem_curve here (next :: rest))]
    | false =>
      obtain ⟨level, level'⟩ := Bool.or_eq_false_iff.mp keeps
      have level := (level_of_not_levels level).symm
      have left : anchor.1 ≤ prev.1 ∧ anchor.2 = prev.2 := by
        rcases anchors with rfl | ⟨left, same, -⟩
        · exact ⟨le_refl _, rfl⟩
        · exact ⟨left, same⟩
      rw [Thinning.inner_dropped keeps]
      exact ih anchor here next behind
        (.inr ⟨left.1.trans le, left.2.trans level, level_of_not_levels level'⟩)

/-- Thinning a polyline that goes from left to right leaves its points in place. -/
theorem curve_thin (l : List (K × K)) (ordered : l.Pairwise (·.1 ≤ ·.1)) :
    curve (Thinning.thin levels l) = curve l := by
  match l with
  | [] => rfl
  | [p] => rfl
  | p :: q :: rest =>
    rw [Thinning.thin, curve_inner rest p p q ordered (.inl rfl), segment_self_union (mem_curve p (q :: rest))]

end Polyline
