import Mathlib
import Exploration.Proofs.MapHistory

/-!
# An obstacle never opens a way

Adding an obstacle sets the cells of a box occupied; every other cell keeps its state
(`VoxelMap.state_setBox`). This module proves that a point or a segment that is not traversable
before stays so after (`add_obstacle_keeps_blocked`), for the active region and for the global
map, whatever the robot's position.

In the global map this needs nothing: an occupied cell blocks, and the frozen regions that judge
every other cell do not change (`traversableGlobal_setBox_occupied`). In the active region a seen
cell is judged by its obstacle distance, which needs what the distance transform is assumed to
do (`VoxelMap.MeasuresObstacles`): zero at an occupied cell, and elsewhere the least length to an
occupied cell, infinite when there is none. Adding obstacles only adds candidates to that least
length, so a cell's distance does not grow; an unseen cell either stays unseen, judged as before
by the robot's position, or becomes occupied and blocks, the traversability radius being positive
in every reachable map.

Each answer of the point tests after the change is narrower than before (`Narrows`: it answers
whenever the old one did, and passes only if the old one passed), and a segment test, which asks
its sample points in order, inherits that (`narrows_segmentClear`).
-/

namespace Exploration

/-- One answer of a test is narrower than another: when the first answers, the second answers too,
and passes only if the first passed. -/
def Narrows (x y : Except Error Bool) : Prop :=
  ∀ b, x = .ok b → ∃ b', y = .ok b' ∧ (b' = true → b = true)

namespace Narrows

theorem refl (x : Except Error Bool) : Narrows x x :=
  fun b hb => ⟨b, hb, id⟩

theorem of_eq_ok_false {x y : Except Error Bool} (hy : y = .ok false) : Narrows x y :=
  fun _ _ => ⟨false, hy, fun h => absurd h Bool.false_ne_true⟩

theorem of_imp {b b' : Bool} (h : b' = true → b = true) : Narrows (.ok b) (.ok b') :=
  fun _ hb => ⟨b', rfl, fun h' => (Except.ok.inj hb) ▸ h h'⟩

/-- A narrower answer refuses what the wider one refused. -/
theorem eq_ok_false {x y : Except Error Bool} (h : Narrows x y) (hx : x = .ok false) :
    y = .ok false := by
  obtain ⟨b', hy, himp⟩ := h false hx
  cases b' with
  | false => exact hy
  | true => exact absurd (himp rfl) Bool.false_ne_true

end Narrows

/-- Asking every item of a list, in order and stopping at the first refusal, with each answer
narrower than before, gives a narrower answer. -/
theorem narrows_allM {α : Type} {f g : α → Except Error Bool} :
    ∀ (l : List α), (∀ x ∈ l, Narrows (f x) (g x)) → Narrows (l.allM f) (l.allM g)
  | [], _ => by simpa using Narrows.refl (pure true)
  | x :: xs, h => by
    intro r hr
    rw [List.allM_cons] at hr ⊢
    obtain ⟨bx, hfx, hr⟩ := bind_eq_ok.1 hr
    obtain ⟨bx', hgx, himp⟩ := h x (List.mem_cons_self ..) bx hfx
    rw [hgx]
    cases bx' with
    | false => exact ⟨false, rfl, fun h => absurd h Bool.false_ne_true⟩
    | true =>
      -- the first item passed both times, so both go on to the rest
      rw [himp rfl, if_pos rfl] at hr
      exact narrows_allM xs (fun y hy => h y (List.mem_cons_of_mem _ hy)) r hr

namespace GridFrame

/-- The length between the centres of two cells as the distance field computes it: each index
offset scaled by the edge and squared, the squares summed in axis order, and the root taken. -/
def cellLength (g : GridFrame) (c o : Cell) : Float :=
  ((NearestObstacle.sq g.size ((o.i : Int) - c.i) + NearestObstacle.sq g.size ((o.j : Int) - c.j)) +
    NearestObstacle.sq g.size ((o.k : Int) - c.k)).sqrt

/-- The cells of the grid, the last index running fastest. -/
def cells (g : GridFrame) : List Cell := boxCells ((0, g.nx), (0, g.ny), (0, g.nz))

theorem mem_cells {g : GridFrame} {c : Cell} : c ∈ g.cells ↔ g.OnGrid c := by
  simp only [cells, boxCells, List.mem_flatMap, List.mem_map, List.mem_range', OnGrid]
  constructor
  · rintro ⟨i, ⟨a, ha, rfl⟩, j, ⟨b, hb, rfl⟩, k, ⟨d, hd, rfl⟩, rfl⟩
    simp only
    omega
  · intro ⟨hi, hj, hk⟩
    exact ⟨c.i, ⟨c.i, by omega, by simp⟩, c.j, ⟨c.j, by omega, by simp⟩, c.k, ⟨c.k, by omega, by simp⟩,
      rfl⟩

end GridFrame

namespace VoxelMap

/-- The number of samples of a segment depends on the grid only. -/
theorem sampleCount_congr {m m' : VoxelMap} (h : m'.frame = m.frame) (a b : Vec3) :
    m'.sampleCount a b = m.sampleCount a b := by
  simp only [sampleCount, h]

/-- A segment test over the same grid whose point test is narrower at every point is narrower. -/
theorem narrows_segmentClear {m m' : VoxelMap} (h : m'.frame = m.frame)
    {ok ok' : Vec3 → Except Error Bool} (hok : ∀ q, Narrows (ok q) (ok' q)) (a b : Vec3) :
    Narrows (m.segmentClear ok a b) (m'.segmentClear ok' a b) := by
  intro r hr
  unfold segmentClear at hr ⊢
  rw [sampleCount_congr h]
  obtain ⟨n, hn, hr⟩ := bind_eq_ok.1 hr
  rw [hn]
  exact narrows_allM _ (fun i _ => hok _) r hr

/-- **In the global map an obstacle never opens a way**: an occupied cell blocks, and every other
cell is judged by the frozen regions, which adding an obstacle leaves as they are. -/
theorem traversableGlobal_setBox_occupied (m : VoxelMap) (lo hi p : Vec3)
    (h : m.traversableGlobal p = false) : (m.setBox lo hi .occupied).1.traversableGlobal p = false := by
  unfold traversableGlobal at h ⊢
  rw [setBox_frame, setBox_regions, setBox_traversability]
  cases hc : m.frame.cellOf? p with
  | none => rfl
  | some c =>
    rw [hc] at h
    simp only at h ⊢
    rcases state_setBox m lo hi .occupied c with hs | hs <;> rw [hs]
    · rfl
    · exact h

/-- The field of the cells is zero at every occupied cell of the grid. -/
def ZeroAtObstacles (m : VoxelMap) : Prop :=
  ∀ c, m.frame.OnGrid c → m.state c = .occupied → m.computeField[m.frame.flat c]? = some 0.0

/-- The field of a map measures its obstacles, as a Euclidean distance transform does: on the
grid it is zero at an occupied cell, and at any other cell it is the least length to an occupied
cell (`GridFrame.cellLength`), or infinite. -/
structure MeasuresObstacles (m : VoxelMap) : Prop where
  zero : m.ZeroAtObstacles
  nearest : ∀ c, m.frame.OnGrid c → m.state c ≠ .occupied → ∃ v,
    m.computeField[m.frame.flat c]? = some v ∧
    (∀ o, m.frame.OnGrid o → m.state o = .occupied → v ≤ m.frame.cellLength c o) ∧
    (v = 1.0 / 0.0 ∨ ∃ o, m.frame.OnGrid o ∧ m.state o = .occupied ∧ v = m.frame.cellLength c o)

/-- A seen cell is traversable in the active region when its distance is above the radius. -/
theorem traversableActive_of_seen {m : VoxelMap} {p : Vec3} {c : Cell}
    (hc : m.frame.cellOf? p = some c) (hseen : m.state c ≠ .unknown) (robot : Option Vec3) :
    m.traversableActive robot p = .ok (decide (m.traversability < m.distances[m.frame.flat c]?.getD 0.0)) := by
  unfold traversableActive distanceAt?
  simp [hc, hseen]

/-- An occupied cell whose field is zero blocks the active region, the radius being positive. -/
theorem traversableActive_of_zero {m : VoxelMap} {p : Vec3} {c : Cell}
    (hc : m.frame.cellOf? p = some c) (hocc : m.state c = .occupied)
    (hzero : m.distances[m.frame.flat c]? = some 0.0) (hrad : 0.0 < m.traversability)
    (robot : Option Vec3) : m.traversableActive robot p = .ok false := by
  rw [traversableActive_of_seen hc (by rw [hocc]; decide), hzero, Option.getD_some]
  have hnot : ¬ m.traversability < 0.0 := fun h => Float.not_lt_self _ (Float.lt_trans hrad h)
  simp [hnot]

/-- **In the active region an added obstacle narrows every answer**, when the field measures the
obstacles before and after: a cell made occupied blocks, an unseen cell is judged as before, and
a seen cell's distance does not grow, since every obstacle before is one after. -/
theorem narrows_traversableActive {m : VoxelMap} (hs : m.Sound) (hb : m.MeasuresObstacles)
    {lo hi : Vec3} (ha : (m.setBox lo hi .occupied).1.MeasuresObstacles) (robot : Option Vec3)
    (p : Vec3) :
    Narrows (m.traversableActive robot p) ((m.setBox lo hi .occupied).1.traversableActive robot p) := by
  have hdist : (m.setBox lo hi .occupied).1.distances = (m.setBox lo hi .occupied).1.computeField := by
    simp [distances]
  cases hc : m.frame.cellOf? p with
  | none =>
    have hc' : (m.setBox lo hi .occupied).1.frame.cellOf? p = none := by rw [setBox_frame, hc]
    apply Narrows.of_eq_ok_false
    simp [traversableActive, hc]
  | some c =>
    have hgrid := GridFrame.onGrid_of_cellOf? hc
    have hc' : (m.setBox lo hi .occupied).1.frame.cellOf? p = some c := by rw [setBox_frame, hc]
    by_cases hocc : (m.setBox lo hi .occupied).1.state c = .occupied
    · -- a cell occupied after the change blocks
      apply Narrows.of_eq_ok_false
      refine traversableActive_of_zero hc' hocc ?_ (by simpa using hs.radius) robot
      rw [hdist]
      exact ha.zero c (by simpa using hgrid) hocc
    · -- otherwise the cell keeps its state
      have hsame : (m.setBox lo hi .occupied).1.state c = m.state c :=
        (state_setBox m lo hi .occupied c).resolve_left hocc
      cases hst : m.state c with
      | occupied => exact absurd (hsame.trans hst) hocc
      | unknown =>
        have hun : (m.setBox lo hi .occupied).1.state c = .unknown := hsame.trans hst
        unfold traversableActive distanceAt?
        simp only [hc, hc', hst, hun, setBox_clearing]
        exact Narrows.refl _
      | free =>
        have hfree : (m.setBox lo hi .occupied).1.state c = .free := hsame.trans hst
        obtain ⟨d', hd', hle', -⟩ := ha.nearest c (by simpa using hgrid) (by rw [hfree]; decide)
        obtain ⟨d, hd, -, hcases⟩ := hb.nearest c hgrid (by rw [hst]; decide)
        rw [traversableActive_of_seen hc (by rw [hst]; decide),
          traversableActive_of_seen hc' (by rw [hfree]; decide), hdist, hs.distances_eq]
        simp only [setBox_frame, setBox_traversability] at hd' ⊢
        simp only [hd, hd', Option.getD_some]
        apply Narrows.of_imp
        intro h'
        rw [decide_eq_true_iff] at h' ⊢
        rcases hcases with hinf | ⟨o, hog, hoc, hdo⟩
        · -- no obstacle before: the radius is below the infinite distance, or below nothing
          by_contra hnot
          rw [hinf] at hnot
          exact Float.not_lt_of_not_lt_inf (Float.isNaN_eq_false_of_lt hs.radius).2 hnot h'
        · -- the nearest obstacle before is still occupied, so the distance after is not above it
          have hocc' : (m.setBox lo hi .occupied).1.state o = .occupied := by
            rcases state_setBox m lo hi .occupied o with h | h
            · exact h
            · rw [h, hoc]
          have hle := hle' o (by simpa using hog) hocc'
          simp only [setBox_frame] at hle
          rw [hdo]
          exact Float.lt_of_lt_of_le h' hle

/-- **An obstacle never opens a way.** In a reachable map whose field measures its obstacles
before and after an obstacle is added, a point that is not traversable before is not traversable
after, in the active region (for any robot position) and in the global map; so neither is a
segment, by either test. -/
theorem add_obstacle_keeps_blocked {m : VoxelMap} (hm : m.Reachable) (hbefore : m.MeasuresObstacles)
    {lo hi : Vec3} (hafter : (m.setBox lo hi .occupied).1.MeasuresObstacles) (robot : Option Vec3)
    (p a b : Vec3) :
    (m.traversableActive robot p = .ok false →
      (m.setBox lo hi .occupied).1.traversableActive robot p = .ok false) ∧
    (m.traversableGlobal p = false → (m.setBox lo hi .occupied).1.traversableGlobal p = false) ∧
    (m.segmentActive robot a b = .ok false →
      (m.setBox lo hi .occupied).1.segmentActive robot a b = .ok false) ∧
    (m.segmentGlobal a b = .ok false → (m.setBox lo hi .occupied).1.segmentGlobal a b = .ok false) := by
  have hpoint := narrows_traversableActive hm.sound hbefore hafter robot
  have hglobal : ∀ q, Narrows (.ok (m.traversableGlobal q))
      (.ok ((m.setBox lo hi .occupied).1.traversableGlobal q)) := by
    intro q
    apply Narrows.of_imp
    intro hq
    by_contra hnot
    rw [traversableGlobal_setBox_occupied m lo hi q (by simpa using hnot)] at hq
    exact Bool.false_ne_true hq
  exact ⟨(hpoint p).eq_ok_false, traversableGlobal_setBox_occupied m lo hi p,
    (narrows_segmentClear (setBox_frame m lo hi .occupied) hpoint a b).eq_ok_false,
    (narrows_segmentClear (setBox_frame m lo hi .occupied) hglobal a b).eq_ok_false⟩

/-! ## Checking the field of a given map -/

/-- Whether the field is zero at every occupied cell of the grid, cell by cell. -/
def checkZero (m : VoxelMap) : Bool :=
  m.frame.cells.all fun c => decide (m.state c ≠ .occupied) ||
    (m.computeField[m.frame.flat c]?.map Float.toBits) == some (0.0 : Float).toBits

/-- Whether the field at every cell of the grid that is not occupied is the least length to an
occupied cell, or infinite, cell by cell. -/
def checkNearest (m : VoxelMap) : Bool :=
  m.frame.cells.all fun c => decide (m.state c = .occupied) ||
    match m.computeField[m.frame.flat c]? with
    | none => false
    | some v =>
      (m.frame.cells.all fun o => decide (m.state o ≠ .occupied) || decide (v ≤ m.frame.cellLength c o)) &&
      (v.toBits == (1.0 / 0.0 : Float).toBits || m.frame.cells.any fun o =>
        decide (m.state o = .occupied) && v.toBits == (m.frame.cellLength c o).toBits)

theorem zeroAtObstacles_of_check {m : VoxelMap} (h : m.checkZero = true) : m.ZeroAtObstacles := by
  intro c hc hocc
  have hcell := List.all_eq_true.1 h c (GridFrame.mem_cells.2 hc)
  simp only [hocc, ne_eq, not_true_eq_false, decide_false, Bool.false_or, beq_iff_eq] at hcell
  obtain ⟨v, hv, hbits⟩ := Option.map_eq_some_iff.1 hcell
  rw [hv, Float.toBits_inj.1 hbits]

theorem measuresObstacles_of_check {m : VoxelMap} (hz : m.checkZero = true)
    (hn : m.checkNearest = true) : m.MeasuresObstacles := by
  refine ⟨zeroAtObstacles_of_check hz, fun c hc hfree => ?_⟩
  have hcell := List.all_eq_true.1 hn c (GridFrame.mem_cells.2 hc)
  simp only [hfree, decide_false, Bool.false_or] at hcell
  cases hv : m.computeField[m.frame.flat c]? with
  | none => rw [hv] at hcell; cases hcell
  | some v =>
    rw [hv] at hcell
    simp only [Bool.and_eq_true, List.all_eq_true, Bool.or_eq_true, decide_eq_true_eq, beq_iff_eq,
      List.any_eq_true] at hcell
    obtain ⟨hle, hleast⟩ := hcell
    refine ⟨v, rfl, fun o ho hocc => ?_, ?_⟩
    · exact (hle o (GridFrame.mem_cells.2 ho)).resolve_left (by simp [hocc])
    · rcases hleast with hinf | ⟨o, ho, hocc, hbits⟩
      · exact .inl (Float.toBits_inj.1 hinf)
      · exact .inr ⟨o, GridFrame.mem_cells.1 ho, hocc, Float.toBits_inj.1 hbits⟩

/-- The row of eight free cells, and the same row once its third cell holds an obstacle: both
fields measure their obstacles, and what was blocked before stays blocked. -/
theorem obstacle_keeps_row_blocked :
    (unseenRow.fill .free).Reachable ∧ (unseenRow.fill .free).MeasuresObstacles ∧
    ((unseenRow.fill .free).setBox ⟨0.25, 0.45, 0.45⟩ ⟨0.375, 0.55, 0.55⟩ .occupied).1.MeasuresObstacles ∧
    (((unseenRow.fill .free).traversableActive (some ⟨0.0625, 0.5, 0.5⟩) ⟨0.3, 0.5, 0.5⟩ = .ok false →
      ((unseenRow.fill .free).setBox ⟨0.25, 0.45, 0.45⟩ ⟨0.375, 0.55, 0.55⟩ .occupied).1.traversableActive
        (some ⟨0.0625, 0.5, 0.5⟩) ⟨0.3, 0.5, 0.5⟩ = .ok false) ∧
    ((unseenRow.fill .free).traversableGlobal ⟨0.3, 0.5, 0.5⟩ = false →
      ((unseenRow.fill .free).setBox ⟨0.25, 0.45, 0.45⟩ ⟨0.375, 0.55, 0.55⟩ .occupied).1.traversableGlobal
        ⟨0.3, 0.5, 0.5⟩ = false) ∧
    ((unseenRow.fill .free).segmentActive (some ⟨0.0625, 0.5, 0.5⟩) ⟨0.0625, 0.5, 0.5⟩
        ⟨0.9375, 0.5, 0.5⟩ = .ok false →
      ((unseenRow.fill .free).setBox ⟨0.25, 0.45, 0.45⟩ ⟨0.375, 0.55, 0.55⟩ .occupied).1.segmentActive
        (some ⟨0.0625, 0.5, 0.5⟩) ⟨0.0625, 0.5, 0.5⟩ ⟨0.9375, 0.5, 0.5⟩ = .ok false) ∧
    ((unseenRow.fill .free).segmentGlobal ⟨0.0625, 0.5, 0.5⟩ ⟨0.9375, 0.5, 0.5⟩ = .ok false →
      ((unseenRow.fill .free).setBox ⟨0.25, 0.45, 0.45⟩ ⟨0.375, 0.55, 0.55⟩ .occupied).1.segmentGlobal
        ⟨0.0625, 0.5, 0.5⟩ ⟨0.9375, 0.5, 0.5⟩ = .ok false)) := by
  have hr : (unseenRow.fill .free).Reachable := .step unseenRow_reachable (.fill _ _)
  have hbefore : (unseenRow.fill .free).MeasuresObstacles :=
    measuresObstacles_of_check (by decide +kernel) (by decide +kernel)
  have hafter : ((unseenRow.fill .free).setBox ⟨0.25, 0.45, 0.45⟩ ⟨0.375, 0.55, 0.55⟩
      .occupied).1.MeasuresObstacles :=
    measuresObstacles_of_check (by decide +kernel) (by decide +kernel)
  exact ⟨hr, hbefore, hafter, add_obstacle_keeps_blocked hr hbefore hafter _ _ _ _⟩

end VoxelMap

end Exploration
