import Mathlib
import Exploration.Proofs.FieldValues

/-!
# Frozen regions agree with the active region

A region frozen keeps, for each cell of its box, whether the cell was seen and its obstacle
distance (`VoxelMap.snapshot`). When no cell changes after the first region is frozen, every
region is the snapshot of the map as it is now (`Snapshots`), since every step that leaves the
cells as they are keeps that (`snapshots_step`). Then the global map and the active region judge
a point of a frozen box alike (`global_iff_seen_and_active`): the point is traversable in the
global map exactly when its cell is seen and it is traversable in the active region.

Reading a snapshot needs the place of a cell in the kept block, which `FrozenRegion.local?`
computes from the indices and `GridFrame.boxCells` lists in the same row-major order
(`getElem?_boxCells`). The kept distance is compared with the radius as `¬ d ≤ r` in the global
map and as `r < d` in the active region; the two agree because neither is NaN: the radius is
positive, and the field is never NaN when it is zero at the occupied cells
(`VoxelMap.computeField_isNaN`).
-/

namespace Exploration

/-! ## Places in a block of cells -/

/-- The lists of a `flatMap` of one length `L` place the `r`-th item of the `q`-th list at
`q * L + r`. -/
theorem flatMap_getElem? {α β : Type} (f : α → List β) {L : Nat} :
    ∀ (l : List α), (∀ a ∈ l, (f a).length = L) → ∀ q r, r < L →
      (l.flatMap f)[q * L + r]? = l[q]?.bind fun a => (f a)[r]?
  | [], _, q, r, _ => by simp
  | a :: l, hlen, q, r, hr => by
    have ha : (f a).length = L := hlen a (List.mem_cons_self ..)
    rw [List.flatMap_cons]
    cases q with
    | zero =>
      rw [Nat.zero_mul, Nat.zero_add, List.getElem?_append_left (by omega)]
      simp
    | succ q =>
      rw [List.getElem?_append_right (by rw [ha]; nlinarith), ha,
        show (q + 1) * L + r - L = q * L + r by rw [Nat.succ_mul]; omega,
        flatMap_getElem? f l (fun b hb => hlen b (List.mem_cons_of_mem _ hb)) q r hr]
      simp

theorem length_flatMap_of_length {α β : Type} (f : α → List β) {L : Nat} :
    ∀ (l : List α), (∀ a ∈ l, (f a).length = L) → (l.flatMap f).length = l.length * L
  | [], _ => by simp
  | a :: l, hlen => by
    rw [List.flatMap_cons, List.length_append, hlen a (List.mem_cons_self ..),
      length_flatMap_of_length f l (fun b hb => hlen b (List.mem_cons_of_mem _ hb)),
      List.length_cons]
    ring

namespace GridFrame

/-- A cell of a box of index ranges stands in `boxCells` at the place `FrozenRegion.local?` gives
it: its offsets in the box read in row-major order. -/
theorem getElem?_boxCells {b : (Nat × Nat) × (Nat × Nat) × (Nat × Nat)} {c : Cell}
    (hi : b.1.1 ≤ c.i ∧ c.i < b.1.2) (hj : b.2.1.1 ≤ c.j ∧ c.j < b.2.1.2)
    (hk : b.2.2.1 ≤ c.k ∧ c.k < b.2.2.2) :
    (boxCells b)[((c.i - b.1.1) * (b.2.1.2 - b.2.1.1) + (c.j - b.2.1.1)) * (b.2.2.2 - b.2.2.1) +
      (c.k - b.2.2.1)]? = some c := by
  obtain ⟨⟨i0, i1⟩, ⟨j0, j1⟩, ⟨k0, k1⟩⟩ := b
  obtain ⟨i, j, k⟩ := c
  unfold boxCells
  simp only at hi hj hk ⊢
  -- a plane of the block holds `(j1 - j0) * (k1 - k0)` cells, a row `k1 - k0`
  have hrow : (j - j0) * (k1 - k0) + (k - k0) < (j1 - j0) * (k1 - k0) :=
    calc (j - j0) * (k1 - k0) + (k - k0) < (j - j0) * (k1 - k0) + (k1 - k0) := by omega
      _ = (j - j0 + 1) * (k1 - k0) := by ring
      _ ≤ (j1 - j0) * (k1 - k0) := Nat.mul_le_mul_right _ (by omega)
  have hplane : ∀ a, ((List.range' j0 (j1 - j0)).flatMap fun j =>
      (List.range' k0 (k1 - k0)).map fun k => (⟨a, j, k⟩ : Cell)).length =
        (j1 - j0) * (k1 - k0) := fun a => by
    rw [length_flatMap_of_length (L := k1 - k0) _ _ (fun _ _ => by simp)]
    simp
  rw [show ((i - i0) * (j1 - j0) + (j - j0)) * (k1 - k0) + (k - k0) =
      (i - i0) * ((j1 - j0) * (k1 - k0)) + ((j - j0) * (k1 - k0) + (k - k0)) by ring,
    flatMap_getElem? _ _ (fun a _ => hplane a) _ _ hrow,
    List.getElem?_range' (by omega), Option.bind_some,
    flatMap_getElem? (L := k1 - k0) _ _ (fun _ _ => by simp) _ _ (by omega),
    List.getElem?_range' (by omega), Option.bind_some, List.getElem?_map,
    List.getElem?_range' (by omega), Option.map_some]
  simp only [Option.some.injEq, Cell.mk.injEq]
  omega

end GridFrame

namespace CellState

theorem ofCode_eq_unknown_iff {b : UInt8} (hb : b ≤ 2) : ofCode b = .unknown ↔ b = 0 := by
  have hcases : b = 0 ∨ b = 1 ∨ b = 2 := by
    have h := UInt8.le_iff_toNat_le.1 hb
    rcases (show b.toNat = 0 ∨ b.toNat = 1 ∨ b.toNat = 2 by simp at h; omega) with h | h | h
    · exact .inl (UInt8.toNat_inj.1 h)
    · exact .inr (.inl (UInt8.toNat_inj.1 h))
    · exact .inr (.inr (UInt8.toNat_inj.1 h))
  rcases hcases with rfl | rfl | rfl <;> decide

end CellState

/-- Away from NaN, a double not at most another is above it. -/
theorem Float.not_le_iff_lt {a b : Float} (ha : a.isNaN = false) (hb : b.isNaN = false) :
    ¬ a ≤ b ↔ b < a := by
  rw [Float.le_iff_rank_le ha hb, Float.lt_iff_rank_lt hb ha, not_le]

namespace VoxelMap

/-! ## Reading a snapshot -/

/-- The snapshot of a box keeps, at the place of each of its cells, whether the cell was seen
(its byte is not the code of an unseen cell) and its obstacle distance. -/
theorem snapshot_local {m : VoxelMap} {id : Value} {lo hi : Vec3} {c : Cell} {n : Nat}
    (h : (m.snapshot id lo hi).local? c = some n) :
    (m.snapshot id lo hi).observed.getD n false =
        (m.cells[m.frame.flat c]?.getD 0 != CellState.unknown.code) ∧
      (m.snapshot id lo hi).distance[n]? = some (m.distances[m.frame.flat c]?.getD 0.0) := by
  unfold FrozenRegion.local? at h
  simp only [snapshot] at h ⊢
  obtain ⟨⟨hi0, hi1, hj0, hj1, hk0, hk1⟩, h⟩ := Option.ite_none_right_eq_some.1 h
  have hplace := GridFrame.getElem?_boxCells (b := m.frame.box lo hi) (c := c)
    ⟨hi0, hi1⟩ ⟨hj0, hj1⟩ ⟨hk0, hk1⟩
  rw [← Option.some.inj h]
  constructor
  · rw [Array.getD_eq_getD_getElem?, List.getElem?_toArray, List.getElem?_map, hplace]
    rfl
  · rw [FloatArray.getElem?_eq, List.getElem?_toArray, List.getElem?_map, hplace]
    rfl

/-- In a sound map a cell is seen exactly when its byte is not the code of an unseen cell. -/
theorem Sound.seen_iff {m : VoxelMap} (hs : m.Sound) (c : Cell) :
    (m.cells[m.frame.flat c]?.getD 0 != CellState.unknown.code) = true ↔ m.state c ≠ .unknown := by
  have hcode : m.cells[m.frame.flat c]?.getD 0 ≤ 2 := by
    cases hb : m.cells[m.frame.flat c]? with
    | none => decide
    | some b => exact hs.codes _ b hb
  unfold state
  rw [ne_eq, CellState.ofCode_eq_unknown_iff hcode]
  simp [CellState.code]

/-- What a snapshot of a sound map says of a point and the cell holding it: the cell's distance
now, when the box holds the point, the block holds the cell and the cell is seen; nothing
otherwise. -/
theorem seenDistance?_snapshot {m : VoxelMap} (hs : m.Sound) (id : Value) (lo hi p : Vec3)
    (c : Cell) :
    (m.snapshot id lo hi).seenDistance? p c =
      if (m.snapshot id lo hi).contains p = true ∧ ((m.snapshot id lo hi).local? c).isSome = true ∧
          m.state c ≠ .unknown
      then some (m.distances[m.frame.flat c]?.getD 0.0) else none := by
  unfold FrozenRegion.seenDistance?
  by_cases hin : (m.snapshot id lo hi).contains p = true
  · simp only [hin, Bool.not_true, Bool.false_eq_true, if_false, true_and]
    cases hloc : (m.snapshot id lo hi).local? c with
    | none => simp
    | some n =>
      obtain ⟨hobs, hdist⟩ := snapshot_local hloc
      simp only [hobs, hdist, Option.isSome_some, true_and, Option.getD_some]
      by_cases hseen : m.state c ≠ .unknown
      · rw [if_pos ((hs.seen_iff c).2 hseen), if_pos hseen]
      · rw [if_neg (fun h => hseen ((hs.seen_iff c).1 h)), if_neg hseen]
  · simp [hin]

/-! ## Regions frozen after the last change -/

/-- Every frozen region is the snapshot of its box in the map as it is now. -/
def Snapshots (m : VoxelMap) : Prop :=
  ∀ r ∈ m.regions, r = m.snapshot r.id r.lower r.upper

/-- A step that changes no cell: a freeze, a cache, or a fill or a box that leaves every byte as
it was. -/
def SettledStep (m m' : VoxelMap) : Prop := Step m m' ∧ m'.cells = m.cells

/-- Freezing a region changes no cell. -/
theorem settledStep_of_freeze {m m' : VoxelMap} {id : Value} {lo hi : Vec3}
    (h : m.freeze id lo hi = .ok m') : SettledStep m m' := by
  refine ⟨.freeze h, ?_⟩
  obtain ⟨key, rfl⟩ := freeze_eq h
  exact withField_cells m

/-- Snapshots taken of maps with one grid, one byte array and one field agree. -/
theorem snapshot_congr {m m' : VoxelMap} (hf : m'.frame = m.frame) (hc : m'.cells = m.cells)
    (hd : m'.distances = m.distances) : m'.snapshot = m.snapshot := by
  funext id lo hi
  simp only [snapshot, hf, hc, hd]

/-- A step that changes no cell keeps every region the snapshot of the map as it is now. -/
theorem snapshots_step {m m' : VoxelMap} (hs : m.Sound) (h : SettledStep m m')
    (hsnap : m.Snapshots) : m'.Snapshots := by
  obtain ⟨hstep, hcells⟩ := h
  -- the grid, the bytes and the field are those of `m`, so every snapshot is
  have hsame : ∀ {n : VoxelMap}, n.frame = m.frame → n.cells = m.cells →
      (n.field = none ∨ n.field = some m.distances) → n.snapshot = m.snapshot := by
    intro n hf hc hfield
    refine snapshot_congr hf hc ?_
    rcases hfield with hn | hn
    · rw [distances, hn, Option.getD_none, hs.distances_eq]
      exact computeField_eq hf hc
    · rw [distances, hn, Option.getD_some]
  cases hstep with
  | fill s =>
    intro r hr
    rw [hsame (fill_frame m s) hcells (.inl rfl)]
    exact hsnap r hr
  | setBox lo hi s =>
    intro r hr
    rw [hsame (setBox_frame m lo hi s) hcells (.inl rfl)]
    exact hsnap r hr
  | @freeze _ _ lo hi hfreeze =>
    obtain ⟨key, rfl⟩ := freeze_eq hfreeze
    have hm' := hsame (n := { m.withField with
        regions := m.regions ++ [m.withField.snapshot key lo hi] }) (by simp) (by simp)
      (.inr (withField_field m))
    have hw := hsame (n := m.withField) (by simp) (by simp) (.inr (withField_field m))
    intro r hr
    rw [hm']
    simp only [List.mem_append, List.mem_singleton] at hr
    rcases hr with hr | rfl
    · exact hsnap r hr
    · rw [hw]
      rfl
  | cache =>
    intro r hr
    rw [hsame (withField_frame m) hcells (.inr (withField_field m))]
    exact hsnap r (by simpa using hr)

/-- From a reachable map with every region a snapshot of it, a run of steps that change no cell
reaches maps of which the same holds. -/
theorem settled_run {m₀ m : VoxelMap} (h₀ : m₀.Reachable) (hsnap₀ : m₀.Snapshots)
    (hrun : Relation.ReflTransGen SettledStep m₀ m) : m.Reachable ∧ m.Snapshots := by
  induction hrun with
  | refl => exact ⟨h₀, hsnap₀⟩
  | tail _ hstep ih =>
    exact ⟨.step ih.1 hstep.1, snapshots_step ih.1.sound hstep ih.2⟩

/-! ## The global map at a frozen point -/

/-- In a map whose regions are snapshots of it, the distances kept for a point and its cell are
all the cell's distance now, and one is kept by a region holding both that saw the cell. -/
theorem seen_of_snapshots {m : VoxelMap} (hs : m.Sound) (hsnap : m.Snapshots) (p : Vec3) (c : Cell) :
    (∀ d ∈ m.regions.filterMap (·.seenDistance? p c),
      d = m.distances[m.frame.flat c]?.getD 0.0 ∧ m.state c ≠ .unknown) ∧
    ∀ r ∈ m.regions, r.contains p = true → (r.local? c).isSome = true → m.state c ≠ .unknown →
      m.distances[m.frame.flat c]?.getD 0.0 ∈ m.regions.filterMap (·.seenDistance? p c) := by
  constructor
  · intro d hd
    obtain ⟨r, hr, hrd⟩ := List.mem_filterMap.1 hd
    rw [hsnap r hr, seenDistance?_snapshot hs] at hrd
    split at hrd
    · rename_i hcond
      exact ⟨(Option.some.inj hrd).symm, hcond.2.2⟩
    · cases hrd
  · intro r hr hin hloc hseen
    refine List.mem_filterMap.2 ⟨r, hr, ?_⟩
    rw [hsnap r hr] at hin hloc ⊢
    rw [seenDistance?_snapshot hs, if_pos ⟨hin, hloc, hseen⟩]

/-- **At a point of a frozen box the global map agrees with the active region**, when no cell has
changed since the first region was frozen and the field is zero at the occupied cells: the point
is traversable in the global map exactly when its cell is seen and it is traversable in the
active region, whatever the robot's position. -/
theorem global_iff_seen_and_active {m₀ m : VoxelMap} (h₀ : m₀.Reachable) (hfresh : m₀.regions = [])
    (hrun : Relation.ReflTransGen SettledStep m₀ m) (hzero : m.ZeroAtObstacles)
    (robot : Option Vec3) {p : Vec3} {c : Cell} (hc : m.frame.cellOf? p = some c)
    {r : FrozenRegion} (hr : r ∈ m.regions) (hin : r.contains p = true)
    (hloc : (r.local? c).isSome = true) :
    m.traversableGlobal p = true ↔ m.state c ≠ .unknown ∧ m.traversableActive robot p = .ok true := by
  obtain ⟨hm, hsnap⟩ := settled_run h₀ (fun r hr => by simp [hfresh] at hr) hrun
  have hs := hm.sound
  obtain ⟨hall, hkept⟩ := seen_of_snapshots hs hsnap p c
  unfold traversableGlobal
  rw [hc]
  simp only
  cases hst : m.state c with
  | unknown =>
    -- no region saw the cell, so none keeps a distance for it
    have hnone : m.regions.filterMap (·.seenDistance? p c) = [] :=
      List.eq_nil_iff_forall_not_mem.2 fun d hd => (hall d hd).2 hst
    simp [hnone]
  | occupied =>
    have hfield : m.distances[m.frame.flat c]? = some 0.0 := by
      rw [hs.distances_eq]
      exact hzero c (GridFrame.onGrid_of_cellOf? hc) hst
    simp [traversableActive_of_zero hc hst hfield hs.radius robot]
  | free =>
    -- every region holding the point keeps the cell's distance, and one does
    have hseen : m.state c ≠ .unknown := by rw [hst]; decide
    have hmem := hkept r hr hin hloc hseen
    have hne : (m.regions.filterMap (·.seenDistance? p c)).isEmpty = false :=
      List.isEmpty_eq_false_iff_exists_mem.2 ⟨_, hmem⟩
    have hallD : (m.regions.filterMap (·.seenDistance? p c)).all
        (fun d => !decide (d ≤ m.traversability)) =
        !decide (m.distances[m.frame.flat c]?.getD 0.0 ≤ m.traversability) := by
      cases hD : decide (m.distances[m.frame.flat c]?.getD 0.0 ≤ m.traversability)
      · rw [Bool.not_false, List.all_eq_true]
        intro d hd
        rw [(hall d hd).1, hD]
        rfl
      · rw [Bool.not_true, List.all_eq_false]
        exact ⟨_, hmem, by rw [hD]; decide⟩
    -- neither the kept distance nor the radius is NaN, so the two comparisons agree
    have hDnan : (m.distances[m.frame.flat c]?.getD 0.0).isNaN = false := by
      rw [hs.distances_eq]
      cases hv : m.computeField[m.frame.flat c]? with
      | none => rfl
      | some v => exact computeField_isNaN hs.edge hzero hv
    have hrnan := (Float.isNaN_eq_false_of_lt hs.radius).2
    rw [traversableActive_of_seen hc hseen robot, hne, hallD, if_neg (by decide)]
    simp [Float.not_le_iff_lt hDnan hrnan]

/-- The row with an obstacle in its third cell, frozen whole as region `0`: at `x = 0.6`, in the
fifth cell, the two maps agree. -/
theorem frozen_row_agrees :
    ∃ m r, ((unseenRow.fill .free).setBox ⟨0.25, 0.45, 0.45⟩ ⟨0.375, 0.55, 0.55⟩ .occupied).1.freeze
        (.int 0) ⟨0, 0.4375, 0.4375⟩ ⟨1, 0.5625, 0.5625⟩ = .ok m ∧ m.ZeroAtObstacles ∧
      m.frame.cellOf? ⟨0.6, 0.5, 0.5⟩ = some ⟨4, 0, 0⟩ ∧ r ∈ m.regions ∧
      r.contains ⟨0.6, 0.5, 0.5⟩ = true ∧ (r.local? ⟨4, 0, 0⟩).isSome = true ∧
      (m.traversableGlobal ⟨0.6, 0.5, 0.5⟩ = true ↔
        m.state ⟨4, 0, 0⟩ ≠ .unknown ∧ m.traversableActive none ⟨0.6, 0.5, 0.5⟩ = .ok true) := by
  have h₀ : ((unseenRow.fill .free).setBox ⟨0.25, 0.45, 0.45⟩ ⟨0.375, 0.55, 0.55⟩
      .occupied).1.Reachable :=
    .step (.step unseenRow_reachable (.fill _ _)) (.setBox _ _ _ _)
  obtain ⟨m, hm, hfacts⟩ := exists_ok_of_toOption_map
    (f := fun m : VoxelMap => (m.checkZero, m.frame.cellOf? ⟨0.6, 0.5, 0.5⟩,
      m.regions.map fun r => (r.contains ⟨0.6, 0.5, 0.5⟩, (r.local? ⟨4, 0, 0⟩).isSome)))
    (x := ((unseenRow.fill .free).setBox ⟨0.25, 0.45, 0.45⟩ ⟨0.375, 0.55, 0.55⟩ .occupied).1.freeze
      (.int 0) ⟨0, 0.4375, 0.4375⟩ ⟨1, 0.5625, 0.5625⟩)
    (b := (true, some ⟨4, 0, 0⟩, [(true, true)])) (by decide +kernel)
  simp only [Prod.mk.injEq] at hfacts
  obtain ⟨hz, hcell, hregions⟩ := hfacts
  obtain ⟨r, hr, hr1⟩ : ∃ r ∈ m.regions, (r.contains ⟨0.6, 0.5, 0.5⟩, (r.local? ⟨4, 0, 0⟩).isSome) =
      (true, true) := List.exists_of_mem_map (hregions ▸ List.mem_singleton_self _)
  simp only [Prod.mk.injEq] at hr1
  have hzero := zeroAtObstacles_of_check hz
  exact ⟨m, r, hm, hzero, hcell, hr, hr1.1, hr1.2, global_iff_seen_and_active h₀ rfl
    (.single (settledStep_of_freeze hm)) hzero none hcell hr hr1.1 hr1.2⟩

end VoxelMap

end Exploration
