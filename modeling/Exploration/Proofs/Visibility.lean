import Mathlib
import Exploration.Lidar
import Exploration.Proofs.MapHistory

/-!
# What a pose sees shrinks as the map fills

What is known of a cell only grows: an unseen cell may be seen free or occupied, and a free cell
may be found occupied (`CellState.Grows`). When every cell of one map has grown so into its state
in another map over the same grid (`VoxelMap.Grown`), a lidar ray stops in the second map no later
than in the first, and the unseen cells it meets there are among those it met in the first
(`walk_sublist`).

So the unseen cells visible from any pose shrink (`visible_shrinks_of_grown`): the lidar fails on
both maps or on neither, and what the second map shows is a subset of what the first shows, with
no more cells; the gain of a pose is that number of cells (`gain_eq`).

The visible cells are kept sorted by their indices with repeats dropped; the count is the number
of distinct cells because that list has no duplicates (`nodup_dedup_mergeSort`).
-/

namespace Exploration

namespace CellState

/-- A state can grow into another: an unseen cell into any state, any cell into occupied. -/
def Grows (s s' : CellState) : Prop := s = s' ∨ s = .unknown ∨ s' = .occupied

theorem grows_unknown_iff {s : CellState} : s.Grows .unknown ↔ s = .unknown := by
  constructor
  · rintro (h | h | h) <;> first | exact h | cases h
  · intro h
    exact .inr (.inl h)

theorem ne_occupied_of_grows_free {s : CellState} (h : s.Grows .free) : s ≠ .occupied := by
  rcases h with h | h | h <;> simp_all

end CellState

namespace VoxelMap

/-- Every cell of `m` has grown into its state in `m'`, over the same grid. -/
structure Grown (m m' : VoxelMap) : Prop where
  frame : m'.frame = m.frame
  grows : ∀ c, (m.state c).Grows (m'.state c)

/-- Adding an obstacle grows a map. -/
theorem grown_setBox_occupied (m : VoxelMap) (lo hi : Vec3) : m.Grown (m.setBox lo hi .occupied).1 := by
  refine ⟨setBox_frame m lo hi .occupied, fun c => ?_⟩
  rcases state_setBox m lo hi .occupied c with h | h <;> rw [h]
  · exact .inr (.inr rfl)
  · exact .inl rfl

end VoxelMap

namespace Cell

/-- The indices of a cell, compared lexicographically. -/
def key (c : Cell) : ℕ ×ₗ ℕ ×ₗ ℕ := toLex (c.i, toLex (c.j, c.k))

theorem compare_eq_compare_key (a b : Cell) : compare a b = compare a.key b.key := by
  cases a; cases b; simp [compare, instOrdCell.ord, key]; rfl

theorem key_injective : Function.Injective key := by
  intro a b h
  cases a; cases b
  simp [key] at h
  simp_all

/-- The order the visible cells are sorted in is the order of their keys. -/
theorem sortOrder_iff (a b : Cell) : (compare a b != .gt) = true ↔ a.key ≤ b.key := by
  rw [compare_eq_compare_key]
  simp [compare_gt_iff_gt, not_lt]

theorem sortOrder_trans (a b c : Cell) (hab : (compare a b != .gt) = true)
    (hbc : (compare b c != .gt) = true) : (compare a c != .gt) = true :=
  (sortOrder_iff a c).2 (le_trans ((sortOrder_iff a b).1 hab) ((sortOrder_iff b c).1 hbc))

theorem sortOrder_total (a b : Cell) : ((compare a b != .gt) || (compare b a != .gt)) = true := by
  rcases le_total a.key b.key with hab | hba
  · simp [(sortOrder_iff a b).2 hab]
  · simp [(sortOrder_iff b a).2 hba]

end Cell

namespace Lidar

variable {m m' : VoxelMap}

/-- On a grown map a ray stops no later, and the unseen cells it meets are among those it met:
a free cell of the grown map was free or unseen, and an unseen one was unseen. -/
theorem walk_sublist (h : m.Grown m') (o d : Vec3) (rs : List Float) :
    (rayCells.walk m' o d rs).Sublist (rayCells.walk m o d rs) := by
  induction rs with
  | nil => simp [rayCells.walk]
  | cons r rs ih =>
    simp only [rayCells.walk, h.frame]
    split
    · exact .slnil
    · rename_i c _
      have hg := h.grows c
      split
      · exact List.nil_sublist _
      · rename_i hu
        rw [hu, CellState.grows_unknown_iff] at hg
        simp only [hg]
        exact ih.cons_cons c
      · rename_i hf
        rw [hf] at hg
        have hne := CellState.ne_occupied_of_grows_free hg
        split
        · contradiction
        · exact ih.cons c
        · exact ih

theorem mem_dedup {c : Cell} {l : List Cell} : c ∈ dedup l ↔ c ∈ l := by
  fun_induction dedup l with
  | case1 a b rest hab ih =>
    have : a = b := by simpa using hab
    simp_all
  | case2 a b rest hab ih => simp_all
  | case3 xs => rfl

/-- Dropping repeated neighbours from a list sorted by key leaves it strictly sorted. -/
theorem pairwise_dedup {l : List Cell} (hl : l.Pairwise (fun a b => a.key ≤ b.key)) :
    (dedup l).Pairwise (fun a b => a.key < b.key) := by
  fun_induction dedup l with
  | case1 a b rest hab ih => exact ih hl.of_cons
  | case2 a b rest hab ih =>
    refine List.pairwise_cons.2 ⟨fun x hx => ?_, ih hl.of_cons⟩
    have hab' : a ≠ b := by simpa using hab
    have hle : a.key ≤ b.key := List.rel_of_pairwise_cons hl (by simp)
    have hlt : a.key < b.key := lt_of_le_of_ne hle (fun h => hab' (Cell.key_injective h))
    rcases List.mem_cons.1 (mem_dedup.1 hx) with rfl | hx
    · exact hlt
    · exact lt_of_lt_of_le hlt (List.rel_of_pairwise_cons hl.of_cons hx)
  | case3 xs hxs =>
    match xs, hxs with
    | [], _ => simp
    | [_], _ => simp
    | _ :: _ :: _, h => exact absurd rfl (h _ _ _)

/-- Sorted by index and with repeated neighbours dropped, a list of cells holds each cell once. -/
theorem nodup_dedup_mergeSort (cells : List Cell) :
    (dedup (cells.mergeSort fun a b => compare a b != .gt)).Nodup := by
  have hsorted : (cells.mergeSort fun a b => compare a b != .gt).Pairwise
      (fun a b => a.key ≤ b.key) := by
    have h : (cells.mergeSort fun a b => compare a b != .gt).Pairwise
        (fun a b => (compare a b != .gt) = true) :=
      List.pairwise_mergeSort Cell.sortOrder_trans Cell.sortOrder_total cells
    exact h.imp fun hab => (Cell.sortOrder_iff _ _).1 hab
  exact (pairwise_dedup hsorted).imp fun hab h => (ne_of_lt hab) (congrArg Cell.key h)

/-- The ranges of the sample points depend on the map only through the edge of its cells. -/
theorem ranges_of_frame_eq (l : Lidar) (h : m'.frame = m.frame) : l.ranges m' = l.ranges m := by
  simp only [ranges, h]

/-- The visible cells, once the sample ranges are known: the unseen cells the rays meet, sorted by
their indices, each once. -/
theorem visible_eq (l : Lidar) (m : VoxelMap) (p : Pose) :
    l.visible m p = (l.ranges m).map fun rs =>
      dedup (((l.directions p).flatMap fun d => rayCells m p.position d rs).mergeSort
        fun a b => compare a b != .gt) := by
  simp only [visible]
  cases l.ranges m <;> rfl

/-- The gain of a pose is the number of cells visible from it. -/
theorem gain_eq (l : Lidar) (m : VoxelMap) (p : Pose) :
    l.gain m p = (l.visible m p).map fun V => V.length.toFloat := by
  simp only [gain]
  cases l.visible m p <;> rfl

/-- **A fuller map shows fewer unseen cells.** When every cell of a map has grown into its state
in another map over the same grid, the lidar fails on both or on neither, and the cells visible
from a pose in the second map are among those visible in the first, so there are no more of
them. -/
theorem visible_shrinks_of_grown (h : m.Grown m') (l : Lidar) (p : Pose) :
    (∀ e, l.visible m' p = .error e ↔ l.visible m p = .error e) ∧
    ∀ V V', l.visible m p = .ok V → l.visible m' p = .ok V' → V' ⊆ V ∧ V'.length ≤ V.length := by
  rw [visible_eq l m', visible_eq l m, ranges_of_frame_eq l h.frame]
  cases l.ranges m with
  | error e => simp [Except.map]
  | ok rs =>
    refine ⟨by simp [Except.map], fun V V' hV hV' => ?_⟩
    simp only [Except.map, Except.ok.injEq] at hV hV'
    subst hV hV'
    -- each ray of the grown map meets a part of what it met before
    have hrays : ∀ c ∈ (l.directions p).flatMap (fun d => rayCells m' p.position d rs),
        c ∈ (l.directions p).flatMap (fun d => rayCells m p.position d rs) := by
      simp only [List.mem_flatMap]
      rintro c ⟨d, hd, hc⟩
      exact ⟨d, hd, (walk_sublist h p.position d rs).subset hc⟩
    have hsub : dedup (((l.directions p).flatMap fun d => rayCells m' p.position d rs).mergeSort
        fun a b => compare a b != .gt) ⊆ dedup (((l.directions p).flatMap fun d =>
          rayCells m p.position d rs).mergeSort fun a b => compare a b != .gt) := by
      intro c hc
      simp only [mem_dedup, List.mem_mergeSort] at hc ⊢
      exact hrays c hc
    exact ⟨hsub, ((nodup_dedup_mergeSort _).subperm hsub).length_le⟩

/-- A lidar of one ray along the first axis, sampled every `⅛` up to `1`, from the first cell of
the unseen row, before and after the third cell is made occupied. -/
theorem obstacle_narrows_view :
    VoxelMap.unseenRow.Grown
      (VoxelMap.unseenRow.setBox ⟨0.25, 0.45, 0.45⟩ ⟨0.375, 0.55, 0.55⟩ .occupied).1 ∧
    (∀ e, Lidar.visible ⟨.num 1.0, .num 0.125, [⟨1, 0, 0⟩]⟩
        (VoxelMap.unseenRow.setBox ⟨0.25, 0.45, 0.45⟩ ⟨0.375, 0.55, 0.55⟩ .occupied).1
        { x := 0.0625, y := 0.5, z := 0.5 } = .error e ↔
      Lidar.visible ⟨.num 1.0, .num 0.125, [⟨1, 0, 0⟩]⟩ VoxelMap.unseenRow
        { x := 0.0625, y := 0.5, z := 0.5 } = .error e) ∧
    ∀ V V', Lidar.visible ⟨.num 1.0, .num 0.125, [⟨1, 0, 0⟩]⟩ VoxelMap.unseenRow
        { x := 0.0625, y := 0.5, z := 0.5 } = .ok V →
      Lidar.visible ⟨.num 1.0, .num 0.125, [⟨1, 0, 0⟩]⟩
        (VoxelMap.unseenRow.setBox ⟨0.25, 0.45, 0.45⟩ ⟨0.375, 0.55, 0.55⟩ .occupied).1
        { x := 0.0625, y := 0.5, z := 0.5 } = .ok V' → V' ⊆ V ∧ V'.length ≤ V.length := by
  have hgrown := VoxelMap.grown_setBox_occupied VoxelMap.unseenRow ⟨0.25, 0.45, 0.45⟩
    ⟨0.375, 0.55, 0.55⟩
  exact ⟨hgrown, visible_shrinks_of_grown hgrown _ { x := 0.0625, y := 0.5, z := 0.5 }⟩

end Lidar

end Exploration
