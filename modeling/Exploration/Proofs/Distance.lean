import Mathlib
import Exploration.Nearest
import Exploration.Proofs.FloatOrder

/-!
# Distances are never NaN

The squared distances of the nearest-point searches add squares of differences of finite
coordinates, in lanes (`Nearest.laneSum`) or pairwise (`Nearest.pairwiseSum`). Every square is
`Float.NonNeg`, sums of such values stay so, and so do square roots: a distance is never NaN,
which is what lets the searches sort by it.
-/

open Exploration.Float

namespace Exploration

namespace Nearest

/-- Every item of a list is not below zero. -/
def AllNonNeg (xs : List Float) : Prop := ∀ x ∈ xs, NonNeg x

theorem allNonNeg_take {xs : List Float} (h : AllNonNeg xs) (n : Nat) : AllNonNeg (xs.take n) :=
  fun x hx => h x (List.mem_of_mem_take hx)

theorem allNonNeg_drop {xs : List Float} (h : AllNonNeg xs) (n : Nat) : AllNonNeg (xs.drop n) :=
  fun x hx => h x (List.mem_of_mem_drop hx)

theorem allNonNeg_zipWith_add {xs ys : List Float} (hx : AllNonNeg xs) (hy : AllNonNeg ys) :
    AllNonNeg (List.zipWith (· + ·) xs ys) := by
  intro z hz
  obtain ⟨i, hi, rfl⟩ := List.getElem_of_mem hz
  rw [List.getElem_zipWith]
  simp only [List.length_zipWith] at hi
  exact nonNeg_add (hx _ (List.getElem_mem _)) (hy _ (List.getElem_mem _))

theorem nonNeg_foldl_add {acc : Float} (hacc : NonNeg acc) {xs : List Float}
    (hxs : AllNonNeg xs) : NonNeg (xs.foldl (· + ·) acc) := by
  induction xs generalizing acc with
  | nil => exact hacc
  | cons x xs ih =>
    exact ih (nonNeg_add hacc (hxs x (List.mem_cons_self ..)))
      fun y hy => hxs y (List.mem_cons_of_mem _ hy)

/-- Adding into lanes keeps both the lanes and the items left over not below zero. -/
theorem lanes_allNonNeg (width : Nat) {acc xs : List Float} (hacc : AllNonNeg acc)
    (hxs : AllNonNeg xs) :
    AllNonNeg (lanes width acc xs).1 ∧ AllNonNeg (lanes width acc xs).2 := by
  fun_induction lanes width acc xs with
  | case1 acc xs _ ih => exact ih (allNonNeg_zipWith_add hacc (allNonNeg_take hxs _)) (allNonNeg_drop hxs _)
  | case2 acc xs _ => exact ⟨hacc, hxs⟩

theorem nonNeg_getD {xs : List Float} (h : AllNonNeg xs) (i : Nat) : NonNeg (xs.getD i 0.0) := by
  rw [List.getD_eq_getElem?_getD]
  cases hget : xs[i]? with
  | none => exact nonNeg_zero
  | some x => exact h x (List.mem_of_getElem? hget)

theorem laneSum_nonNeg {xs : List Float} (h : AllNonNeg xs) : NonNeg (laneSum xs) := by
  have hzero : AllNonNeg [0.0, 0.0, 0.0, 0.0] := by
    intro x hx
    simp only [List.mem_cons, List.not_mem_nil, or_false, or_self] at hx
    exact hx ▸ nonNeg_zero
  obtain ⟨hacc, hrest⟩ := lanes_allNonNeg 4 hzero h
  unfold laneSum
  exact nonNeg_foldl_add (nonNeg_add (nonNeg_add (nonNeg_add (nonNeg_getD hacc 0)
    (nonNeg_getD hacc 1)) (nonNeg_getD hacc 2)) (nonNeg_getD hacc 3)) hrest

theorem pairwiseSum_nonNeg {xs : List Float} (h : AllNonNeg xs) : NonNeg (pairwiseSum xs) := by
  fun_induction pairwiseSum xs with
  | case1 => exact nonNeg_zero
  | case2 x rest =>
    exact nonNeg_foldl_add (h x (List.mem_cons_self ..)) fun y hy => h y (List.mem_cons_of_mem _ hy)
  | case3 xs _ _ acc rest hlanes g =>
    -- eight lanes started from the first eight items
    have hl := lanes_allNonNeg 8 (allNonNeg_take h 8) (allNonNeg_drop h 8)
    rw [hlanes] at hl
    have hg : ∀ i, NonNeg (g i) := nonNeg_getD hl.1
    exact nonNeg_foldl_add (nonNeg_add (nonNeg_add (nonNeg_add (hg 0) (hg 1))
      (nonNeg_add (hg 2) (hg 3))) (nonNeg_add (nonNeg_add (hg 4) (hg 5))
      (nonNeg_add (hg 6) (hg 7)))) hl.2
  | case4 xs _ _ half ih2 ih1 =>
    exact nonNeg_add (ih2 (allNonNeg_take h _)) (ih1 (allNonNeg_drop h _))

/-- The squares of differences of finite coordinates are not below zero. -/
theorem squares_allNonNeg {p q : List Float} (hp : ∀ x ∈ p, x.isFinite = true)
    (hq : ∀ x ∈ q, x.isFinite = true) : AllNonNeg (squares p q) := by
  intro z hz
  obtain ⟨i, hi, rfl⟩ := List.getElem_of_mem hz
  simp only [squares, List.length_zipWith] at hi ⊢
  rw [List.getElem_zipWith]
  exact nonNeg_sub_mul_self (hp _ (List.getElem_mem _)) (hq _ (List.getElem_mem _))

/-! ## The two distances -/

/-- The distance a searched point set answers: the square root of the four-lane squared
    distance. -/
def treeDistance (p q : List Float) : Float := (blockDistance p q).sqrt

/-- The distance of a point by the pairwise sum, as a batch of points is measured. -/
def euclidean (p q : List Float) : Float := (pairwiseSum (squares p q)).sqrt

theorem treeDistance_nonNeg {p q : List Float} (hp : ∀ x ∈ p, x.isFinite = true)
    (hq : ∀ x ∈ q, x.isFinite = true) : NonNeg (treeDistance p q) :=
  nonNeg_sqrt (laneSum_nonNeg (squares_allNonNeg hp hq))

theorem euclidean_nonNeg {p q : List Float} (hp : ∀ x ∈ p, x.isFinite = true)
    (hq : ∀ x ∈ q, x.isFinite = true) : NonNeg (euclidean p q) :=
  nonNeg_sqrt (pairwiseSum_nonNeg (squares_allNonNeg hp hq))

end Nearest

end Exploration
