import Mathlib
import Exploration.Skeleton.Submap

/-!
# Integer ids

Ids are values of any kind, compared the loose way (`Value.same`), which is an equality only
where the values allow it: a NaN equals nothing, not even itself. The ids of submaps and vertices
are integers by their annotations in the source, and on integers `same` and the order of values
are those of `Int`: vertex references of integer ids are equal by `==` exactly when they are
equal (`VertexRef.beq_iff_eq`). This is what lets a table keyed by vertices be read as a list
keyed by equality.
-/

namespace Exploration

namespace Value

theorem compare_beq_lt (a b : Int) : (compare a b == Ordering.lt) = decide (a < b) := by
  rw [Bool.eq_iff_iff, beq_iff_eq, decide_eq_true_iff, Int.compare_eq_lt]

theorem compare_beq_eq (a b : Int) : (compare a b == Ordering.eq) = decide (a = b) := by
  rw [Bool.eq_iff_iff, beq_iff_eq, decide_eq_true_iff, Int.compare_eq_eq]

@[simp] theorem same_int (a b : Int) : same (.int a) (.int b) = decide (a = b) := by
  simp [same, numeric?, Numeric.compare?, compare_beq_eq]

@[simp] theorem lessThan_int (a b : Int) : lessThan (.int a) (.int b) = .ok (decide (a < b)) := by
  simp [lessThan, numeric?, Numeric.compare?, compare_beq_lt]

@[simp] theorem atMost_int (a b : Int) : atMost (.int a) (.int b) = .ok (decide (a ≤ b)) := by
  simp [atMost, numeric?, Numeric.compare?, compare_beq_lt, compare_beq_eq, Int.le_iff_lt_or_eq]

theorem larger_int (a b : Int) : larger (.int a) (.int b) = .ok (.int (max a b)) := by
  unfold larger
  rw [lessThan_int]
  by_cases h : a < b
  · simp [bind, Except.bind, h, max_eq_right h.le]
  · simp [bind, Except.bind, h, max_eq_left (not_lt.1 h)]

/-- An integer is `same` as an integer exactly when they are equal. -/
theorem same_int_iff {x : Value} {k : Int} (hx : x = .int k) (a : Int) :
    x.same (.int a) = true ↔ x = .int a := by
  subst hx
  simp

end Value

namespace VertexRef

/-- A vertex reference whose submap id and vertex id are integers. -/
def IsInt (v : VertexRef) : Prop := ∃ a b : Int, v = ⟨.int a, .int b⟩

theorem goal_isInt : goal.IsInt := ⟨-1, -1, rfl⟩

/-- On references of integer ids, `==` is equality. -/
theorem beq_iff_eq {u v : VertexRef} (hu : u.IsInt) (hv : v.IsInt) : (u == v) = true ↔ u = v := by
  obtain ⟨a, b, rfl⟩ := hu
  obtain ⟨c, d, rfl⟩ := hv
  show (Value.same (.int a) (.int c) && Value.same (.int b) (.int d)) = true ↔ _
  simp

/-- A list of references of integer ids contains one exactly when it is a member. -/
theorem contains_iff_mem {l : List VertexRef} {v : VertexRef} (hl : ∀ w ∈ l, w.IsInt)
    (hv : v.IsInt) : l.contains v = true ↔ v ∈ l := by
  rw [List.contains_iff_exists_mem_beq]
  constructor
  · rintro ⟨w, hw, hvw⟩
    exact (beq_iff_eq hv (hl w hw)).1 hvw ▸ hw
  · intro hmem
    exact ⟨v, hmem, (beq_iff_eq hv hv).2 rfl⟩

end VertexRef

end Exploration
