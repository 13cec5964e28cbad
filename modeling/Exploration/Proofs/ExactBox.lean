import Mathlib
import Exploration.Proofs.FrozenRegions

/-!
# Setting a box of cells, in exact arithmetic

`VoxelMap.setBox` reads the cells whose centres lie in a box off its two corners by whole-number
rounding (`Rounding.box`) and then sets them (`VoxelMap.setCells`). On each axis the first cell
is the first whole number at or above the low corner, scaled to cells and moved back by half a
cell; the cell past the last is one more than the last whole number at or below the high corner;
both are clamped to the grid and a stop below the start is raised to it.

The map runs this on doubles. Here it is run in exact arithmetic: real numbers with the two
infinities (`EReal`), rounded by `Rounding.exact`. Then, for cells of positive edge, the range of
an axis is exactly the cells of the axis whose centres lie between the corners
(`Rounding.mem_span_exact`), whether the corners lie inside the grid, outside it, the wrong way
round or at an infinity. The argument per axis: a corner scaled to cells compares with a cell
index as the corner compares with the cell's centre (`scaled_le_iff`, `le_scaled_iff`), and
rounding up (down) and clamping keep that comparison for the indices of the grid
(`start_exact_le_iff`, `lt_stop_exact_iff`).

Setting the cells of a box of index ranges within the grid sets the bytes of exactly its cells
(`VoxelMap.setCells_getElem?`), since the grid's flat places of distinct cells differ
(`GridFrame.flat_inj`), and the box counts its cells once each (`VoxelMap.boxCount_eq_countP`).
Every map a history reaches has a byte for each cell of its grid (`VoxelMap.Reachable.cells_size`).

Main statement: `setCells_exact_box`.
-/

namespace Exploration

/-! ## The index range of an axis in exact arithmetic -/

namespace Rounding

/-- Exact arithmetic: real numbers and the two infinities, rounded to whole numbers (an infinity
stays), a whole number stored as itself. -/
noncomputable def exact : Rounding EReal where
  half := ((2⁻¹ : ℝ) : EReal)
  one := 1
  floor := fun x => EReal.rec (motive := fun _ => EReal) ⊥ (fun r => ((⌊r⌋ : ℤ) : ℝ)) ⊤ x
  ceil := fun x => EReal.rec (motive := fun _ => EReal) ⊥ (fun r => ((⌈r⌉ : ℤ) : ℝ)) ⊤ x
  ofNat := fun n => n
  toWord := fun x => ⌊x.toReal⌋

@[simp] theorem exact_one : exact.one = 1 := rfl
@[simp] theorem exact_half : exact.half = ((2⁻¹ : ℝ) : EReal) := rfl
@[simp] theorem exact_ofNat (n : ℕ) : exact.ofNat n = ((n : ℝ) : EReal) := rfl
@[simp] theorem exact_ceil_coe (r : ℝ) : exact.ceil r = ((⌈r⌉ : ℤ) : ℝ) := rfl
@[simp] theorem exact_ceil_bot : exact.ceil ⊥ = ⊥ := rfl
@[simp] theorem exact_ceil_top : exact.ceil ⊤ = ⊤ := rfl
@[simp] theorem exact_floor_coe (r : ℝ) : exact.floor r = ((⌊r⌋ : ℤ) : ℝ) := rfl
@[simp] theorem exact_floor_bot : exact.floor ⊥ = ⊥ := rfl
@[simp] theorem exact_floor_top : exact.floor ⊤ = ⊤ := rfl

theorem clamp_exact_bot (n : ℕ) : exact.clamp ⊥ n = 0 := by
  simp [clamp]

theorem clamp_exact_top (n : ℕ) : exact.clamp ⊤ n = n := by
  simp [clamp]

/-- A whole number is clamped to `[0, n]`. -/
theorem clamp_exact_int (z : ℤ) (n : ℕ) : exact.clamp ((z : ℝ) : EReal) n = max 0 (min z n) := by
  have h0 : ((z : ℝ) : EReal) ≤ exact.ofNat 0 ↔ z ≤ 0 := by
    rw [exact_ofNat, EReal.coe_le_coe_iff]
    exact_mod_cast Iff.rfl
  have hn : exact.ofNat n ≤ ((z : ℝ) : EReal) ↔ (n : ℤ) ≤ z := by
    rw [exact_ofNat, EReal.coe_le_coe_iff]
    exact_mod_cast Iff.rfl
  unfold clamp
  by_cases hz : z ≤ 0
  · rw [if_pos (h0.2 hz)]
    omega
  · rw [if_neg (mt h0.1 hz)]
    by_cases hzn : (n : ℤ) ≤ z
    · rw [if_pos (hn.2 hzn)]
      omega
    · rw [if_neg (mt hn.1 hzn)]
      show ⌊(((z : ℝ) : EReal)).toReal⌋ = _
      rw [EReal.toReal_coe, Int.floor_intCast]
      omega

/-- The bound rounded up, clamped, is at most an index of the grid exactly when the bound is. -/
theorem start_exact_le_iff (t : EReal) {n i : ℕ} (hi : i < n) :
    exact.clamp (exact.ceil t) n ≤ i ↔ t ≤ (i : EReal) := by
  induction t using EReal.rec with
  | bot => simp [clamp_exact_bot]
  | coe r =>
    rw [exact_ceil_coe, clamp_exact_int, ← EReal.coe_natCast, EReal.coe_le_coe_iff,
      show (i : ℝ) = ((i : ℤ) : ℝ) by simp, ← Int.ceil_le]
    omega
  | top =>
    rw [exact_ceil_top, clamp_exact_top]
    simp only [top_le_iff, EReal.natCast_ne_top, iff_false]
    omega

/-- One more than the bound rounded down, clamped, is above an index of the grid exactly when the
bound is at least the index. -/
theorem lt_stop_exact_iff (t : EReal) {n i : ℕ} (hi : i < n) :
    (i : ℤ) < exact.clamp (exact.floor t + exact.one) n ↔ (i : EReal) ≤ t := by
  induction t using EReal.rec with
  | bot =>
    rw [exact_floor_bot, EReal.bot_add, clamp_exact_bot]
    simp only [le_bot_iff, EReal.natCast_ne_bot, iff_false]
    omega
  | coe r =>
    have hsucc : exact.floor r + exact.one = (((⌊r⌋ + 1 : ℤ) : ℝ) : EReal) := by
      rw [exact_floor_coe, exact_one, ← EReal.coe_one, ← EReal.coe_add]
      push_cast
      rfl
    rw [hsucc, clamp_exact_int, ← EReal.coe_natCast, EReal.coe_le_coe_iff,
      show (i : ℝ) = ((i : ℤ) : ℝ) by simp, ← Int.le_floor]
    omega
  | top =>
    rw [exact_floor_top, exact_one, ← EReal.coe_one, EReal.top_add_coe, clamp_exact_top]
    simp only [le_top, iff_true]
    omega

/-- A whole number or an infinity clamps into `[0, n]`. -/
theorem clamp_exact_mem {w : EReal} (hw : w = ⊥ ∨ w = ⊤ ∨ ∃ z : ℤ, w = ((z : ℝ) : EReal))
    (n : ℕ) : 0 ≤ exact.clamp w n ∧ exact.clamp w n ≤ n := by
  rcases hw with rfl | rfl | ⟨z, rfl⟩
  · simp [clamp_exact_bot]
  · simp [clamp_exact_top]
  · rw [clamp_exact_int]
    omega

theorem ceil_exact_whole (t : EReal) :
    exact.ceil t = ⊥ ∨ exact.ceil t = ⊤ ∨ ∃ z : ℤ, exact.ceil t = ((z : ℝ) : EReal) := by
  induction t using EReal.rec with
  | bot => exact .inl rfl
  | coe r => exact .inr (.inr ⟨⌈r⌉, rfl⟩)
  | top => exact .inr (.inl rfl)

theorem floor_exact_succ_whole (t : EReal) :
    exact.floor t + exact.one = ⊥ ∨ exact.floor t + exact.one = ⊤ ∨
      ∃ z : ℤ, exact.floor t + exact.one = ((z : ℝ) : EReal) := by
  induction t using EReal.rec with
  | bot => exact .inl (EReal.bot_add _)
  | coe r =>
    refine .inr (.inr ⟨⌊r⌋ + 1, ?_⟩)
    rw [exact_floor_coe, exact_one, ← EReal.coe_one, ← EReal.coe_add]
    push_cast
    rfl
  | top =>
    exact .inr (.inl (by rw [exact_floor_top, exact_one, ← EReal.coe_one, EReal.top_add_coe]))

/-- The exact centre of cell `i` of an axis from `o`, its cells of edge `e`. -/
noncomputable def centreAt (o e : ℝ) (i : ℕ) : ℝ := o + (i + 2⁻¹) * e

section Scaled

variable {e : ℝ} (he : 0 < e) (o : ℝ)
include he

theorem scaled_bot : ((⊥ : EReal) - o) / e - exact.half = ⊥ := by
  rw [EReal.bot_sub, EReal.bot_div_of_pos_ne_top (by exact_mod_cast he) (EReal.coe_ne_top e),
    EReal.bot_sub]

theorem scaled_top : ((⊤ : EReal) - o) / e - exact.half = ⊤ := by
  rw [EReal.top_sub_coe, EReal.top_div_of_pos_ne_top (by exact_mod_cast he) (EReal.coe_ne_top e),
    exact_half, EReal.top_sub_coe]

/-- A low corner, scaled to cells and moved back by half a cell, is at most `i` exactly when the
corner is at or below the centre of cell `i`. -/
theorem scaled_le_iff (x : EReal) (i : ℕ) :
    (x - o) / e - exact.half ≤ (i : EReal) ↔ x ≤ (centreAt o e i : EReal) := by
  induction x using EReal.rec with
  | bot =>
    rw [scaled_bot he]
    simp
  | top =>
    rw [scaled_top he]
    simp [EReal.natCast_ne_top]
  | coe r =>
    rw [show ((r : EReal) - o) / e - exact.half = (((r - o) / e - 2⁻¹ : ℝ) : EReal) from rfl,
      ← EReal.coe_natCast, EReal.coe_le_coe_iff, EReal.coe_le_coe_iff, centreAt,
      sub_le_iff_le_add, div_le_iff₀ he]
    constructor <;> intro h <;> linarith

/-- A high corner, scaled to cells and moved back by half a cell, is at least `i` exactly when
the corner is at or above the centre of cell `i`. -/
theorem le_scaled_iff (x : EReal) (i : ℕ) :
    (i : EReal) ≤ (x - o) / e - exact.half ↔ (centreAt o e i : EReal) ≤ x := by
  induction x using EReal.rec with
  | bot =>
    rw [scaled_bot he]
    simp [EReal.natCast_ne_bot]
  | top =>
    rw [scaled_top he]
    simp
  | coe r =>
    rw [show ((r : EReal) - o) / e - exact.half = (((r - o) / e - 2⁻¹ : ℝ) : EReal) from rfl,
      ← EReal.coe_natCast, EReal.coe_le_coe_iff, EReal.coe_le_coe_iff, centreAt,
      le_sub_iff_add_le, le_div_iff₀ he]
    constructor <;> intro h <;> linarith

end Scaled

end Rounding

namespace GridFrame

theorem sliceEnd_of_mem {v : ℤ} {n : ℕ} (h0 : 0 ≤ v) (hn : v ≤ n) : sliceEnd v n = v.toNat := by
  unfold sliceEnd
  rw [if_neg (by omega)]
  omega

theorem sliceEnd_le (v : ℤ) (n : ℕ) : sliceEnd v n ≤ n := by
  unfold sliceEnd
  split <;> omega

end GridFrame

namespace Rounding

/-- **An axis in exact arithmetic.** For cells of positive edge, the index range the corners
give holds exactly the cells of the axis whose centres lie between the corners. -/
theorem mem_span_exact {e : ℝ} (he : 0 < e) (o : ℝ) (lo hi : EReal) (n i : ℕ) :
    (exact.span e lo hi o n).1 ≤ i ∧ i < (exact.span e lo hi o n).2 ↔
      i < n ∧ lo ≤ (centreAt o e i : EReal) ∧ (centreAt o e i : EReal) ≤ hi := by
  obtain ⟨ha0, han⟩ := clamp_exact_mem (ceil_exact_whole ((lo - o) / e - exact.half)) n
  obtain ⟨hb0, hbn⟩ := clamp_exact_mem (floor_exact_succ_whole ((hi - o) / e - exact.half)) n
  simp only [span]
  rw [GridFrame.sliceEnd_of_mem ha0 han,
    GridFrame.sliceEnd_of_mem (le_max_of_le_right ha0) (max_le hbn han)]
  by_cases hin : i < n
  · rw [← scaled_le_iff he, ← le_scaled_iff he, ← start_exact_le_iff _ hin,
      ← lt_stop_exact_iff _ hin]
    omega
  · -- past the last cell: the range stops at the grid's end
    omega

/-- Whatever the rounding, a box of index ranges stops within the grid. -/
theorem box_within {K : Type} [Sub K] [Div K] [Add K] [LE K] [DecidableLE K]
    (r : Rounding K) (size : K) (o lo hi : K × K × K) (n : ℕ × ℕ × ℕ) :
    (r.box size o lo hi n).1.2 ≤ n.1 ∧ (r.box size o lo hi n).2.1.2 ≤ n.2.1 ∧
      (r.box size o lo hi n).2.2.2 ≤ n.2.2 :=
  ⟨GridFrame.sliceEnd_le _ _, GridFrame.sliceEnd_le _ _, GridFrame.sliceEnd_le _ _⟩

end Rounding

/-! ## The cells of a box of index ranges -/

namespace GridFrame

theorem mem_boxCells {b : (Nat × Nat) × (Nat × Nat) × (Nat × Nat)} {c : Cell} :
    c ∈ boxCells b ↔ (b.1.1 ≤ c.i ∧ c.i < b.1.2) ∧ (b.2.1.1 ≤ c.j ∧ c.j < b.2.1.2) ∧
      (b.2.2.1 ≤ c.k ∧ c.k < b.2.2.2) := by
  obtain ⟨i, j, k⟩ := c
  simp only [boxCells, List.mem_flatMap, List.mem_map, List.mem_range', Cell.mk.injEq]
  constructor
  · rintro ⟨_, ⟨x, hx, rfl⟩, _, ⟨y, hy, rfl⟩, _, ⟨z, hz, rfl⟩, rfl, rfl, rfl⟩
    omega
  · rintro ⟨⟨hi0, hi1⟩, ⟨hj0, hj1⟩, ⟨hk0, hk1⟩⟩
    exact ⟨i, ⟨i - b.1.1, by omega, by omega⟩, j, ⟨j - b.2.1.1, by omega, by omega⟩,
      k, ⟨k - b.2.2.1, by omega, by omega⟩, rfl, rfl, rfl⟩

theorem length_boxCells (b : (Nat × Nat) × (Nat × Nat) × (Nat × Nat)) :
    (boxCells b).length = boxCount b := by
  unfold boxCells boxCount
  rw [length_flatMap_of_length (L := (b.2.1.2 - b.2.1.1) * (b.2.2.2 - b.2.2.1)) _ _ fun _ _ => by
    rw [length_flatMap_of_length (L := b.2.2.2 - b.2.2.1) _ _ fun _ _ => by simp]
    simp]
  simp [Nat.mul_assoc]

theorem nodup_boxCells (b : (Nat × Nat) × (Nat × Nat) × (Nat × Nat)) : (boxCells b).Nodup := by
  unfold boxCells
  refine List.nodup_flatMap.2 ⟨fun i _ => List.nodup_flatMap.2 ⟨fun j _ => ?_, ?_⟩, ?_⟩
  · exact (List.nodup_range' ..).map fun k k' h => by simpa using h
  · -- the rows of a plane differ in their second index
    refine (List.nodup_range' ..).imp fun hne => List.disjoint_left.2 fun c h₁ h₂ => hne ?_
    simp only [List.mem_map] at h₁ h₂
    obtain ⟨_, _, rfl⟩ := h₁
    obtain ⟨_, _, h⟩ := h₂
    exact (Cell.mk.inj h).2.1.symm
  · -- the planes of the box differ in their first index
    refine (List.nodup_range' ..).imp fun hne => List.disjoint_left.2 fun c h₁ h₂ => hne ?_
    simp only [List.mem_flatMap, List.mem_map] at h₁ h₂
    obtain ⟨_, _, _, _, rfl⟩ := h₁
    obtain ⟨_, _, _, _, h⟩ := h₂
    exact (Cell.mk.inj h).1.symm

/-- A number is read back from its quotient and remainder by `n`. -/
theorem mul_add_inj {x y a b n : ℕ} (ha : a < n) (hb : b < n) (h : x * n + a = y * n + b) :
    x = y ∧ a = b := by
  have hab : a = b := by
    rw [← Nat.mul_add_mod_of_lt ha (a := x), h, Nat.mul_add_mod_of_lt hb]
  subst hab
  exact ⟨Nat.eq_of_mul_eq_mul_right (by omega) (Nat.add_right_cancel h), rfl⟩

/-- Two cells of the grid at one place of the flat arrays are the same cell. -/
theorem flat_inj {g : GridFrame} {c d : Cell} (hc : g.OnGrid c) (hd : g.OnGrid d)
    (h : g.flat c = g.flat d) : c = d := by
  obtain ⟨hrow, hk⟩ := mul_add_inj hc.2.2 hd.2.2 h
  obtain ⟨hi, hj⟩ := mul_add_inj hc.2.1 hd.2.1 hrow
  cases c
  cases d
  simp_all

end GridFrame

namespace VoxelMap

/-- Setting the cells of a list one after another to one byte sets the byte at every place one
of them has inside the array, and leaves every other byte. -/
theorem getElem?_foldl_set! (f : Cell → Nat) (b : UInt8) (n : Nat) :
    ∀ (cells : List Cell) (cs : ByteArray),
      (cells.foldl (fun cs c => cs.set! (f c) b) cs)[n]? =
        if (∃ c ∈ cells, f c = n) ∧ n < cs.size then some b else cs[n]?
  | [], cs => by simp
  | c :: cells, cs => by
    rw [List.foldl_cons, getElem?_foldl_set! f b n cells, ByteArray.size_set!,
      ByteArray.getElem?_eq (cs.set! _ _), ByteArray.data_set!, Array.getElem?_setIfInBounds,
      ← ByteArray.getElem?_eq]
    by_cases hc : f c = n
    · by_cases hn : n < cs.size
      · simp [hc, hn]
      · -- a place past the end is not set
        have hnone : cs[n]? = none := getElem?_neg cs n hn
        have hdata : ¬ n < cs.data.size := hn
        simp only [hc, hn, hnone, hdata, and_false, if_false, if_true]
    · simp [hc]

theorem size_foldl_set! (f : Cell → Nat) (b : UInt8) :
    ∀ (cells : List Cell) (cs : ByteArray),
      (cells.foldl (fun cs c => cs.set! (f c) b) cs).size = cs.size
  | [], _ => rfl
  | c :: cells, cs => by rw [List.foldl_cons, size_foldl_set!, ByteArray.size_set!]

theorem ofSettings_cells {s : Settings} {m : VoxelMap} (h : ofSettings s = .ok m) :
    m.cells = ⟨Array.replicate m.frame.count 0⟩ := by
  unfold ofSettings at h
  obtain ⟨_, -, h⟩ := bind_eq_ok.1 h
  obtain ⟨_, -, h⟩ := bind_eq_ok.1 h
  obtain ⟨_, -, h⟩ := bind_eq_ok.1 h
  obtain ⟨_, -, h⟩ := bind_eq_ok.1 h
  obtain ⟨_, -, h⟩ := bind_eq_ok.1 h
  obtain ⟨_, -, h⟩ := bind_eq_ok.1 h
  split at h
  · cases h
    rfl
  · cases h

theorem step_cells_size {m m' : VoxelMap} (hstep : Step m m')
    (h : m.cells.size = m.frame.count) : m'.cells.size = m'.frame.count := by
  cases hstep with
  | fill s => simp [fill, ByteArray.size, GridFrame.count]
  | setBox lo hi s =>
    rw [setBox_frame, ← h]
    exact size_foldl_set! _ _ _ _
  | freeze hfreeze =>
    obtain ⟨key, rfl⟩ := freeze_eq hfreeze
    simpa using h
  | cache => simpa using h

/-- **Every map a history reaches has a byte for each cell of its grid.** -/
theorem Reachable.cells_size {m : VoxelMap} (h : m.Reachable) : m.cells.size = m.frame.count := by
  induction h with
  | made _ hm => rw [ofSettings_cells hm]; simp [ByteArray.size]
  | step _ hstep ih => exact step_cells_size hstep ih

/-- Setting the cells of a box of index ranges within the grid sets exactly the bytes of its
cells and leaves every other cell of the grid. -/
theorem setCells_getElem? {m : VoxelMap} (hcells : m.cells.size = m.frame.count)
    {b : (Nat × Nat) × (Nat × Nat) × (Nat × Nat)}
    (hb : b.1.2 ≤ m.frame.nx ∧ b.2.1.2 ≤ m.frame.ny ∧ b.2.2.2 ≤ m.frame.nz) (s : CellState)
    {c : Cell} (hc : m.frame.OnGrid c) :
    (m.setCells b s).1.cells[m.frame.flat c]? =
      if c ∈ GridFrame.boxCells b then some s.code else m.cells[m.frame.flat c]? := by
  -- a cell of the box at the place of `c` is `c`, as both are on the grid
  have hplace : ((∃ d ∈ GridFrame.boxCells b, m.frame.flat d = m.frame.flat c) ∧
      m.frame.flat c < m.cells.size) ↔ c ∈ GridFrame.boxCells b := by
    constructor
    · rintro ⟨⟨d, hd, hflat⟩, -⟩
      have hdgrid : m.frame.OnGrid d := by
        obtain ⟨hi, hj, hk⟩ := GridFrame.mem_boxCells.1 hd
        exact ⟨by omega, by omega, by omega⟩
      rwa [← GridFrame.flat_inj hdgrid hc hflat]
    · intro h
      exact ⟨⟨c, h, rfl⟩, hcells ▸ GridFrame.flat_lt_count hc⟩
  simp only [setCells, getElem?_foldl_set!, hplace]

/-- A box of index ranges whose cells are the cells of the grid with a property counts them. -/
theorem boxCount_eq_countP {g : GridFrame} {b : (Nat × Nat) × (Nat × Nat) × (Nat × Nat)}
    (P : Cell → Prop) [DecidablePred P] (hmem : ∀ c, c ∈ GridFrame.boxCells b ↔ g.OnGrid c ∧ P c) :
    GridFrame.boxCount b = g.cells.countP (fun c => decide (P c)) := by
  have hcells : g.cells.Nodup := GridFrame.nodup_boxCells _
  rw [← GridFrame.length_boxCells, List.countP_eq_length_filter]
  apply List.Perm.length_eq
  refine (List.perm_ext_iff_of_nodup (GridFrame.nodup_boxCells b) (hcells.filter _)).2 fun c => ?_
  simp [List.mem_filter, GridFrame.mem_cells, hmem]

end VoxelMap

/-! ## A box of the map in exact arithmetic -/

/-- A cell whose exact centre, for a grid of corner `o` and edge `e`, lies in the box `[lo, hi]`
on every axis. -/
def CentreIn (o : ℝ × ℝ × ℝ) (e : ℝ) (lo hi : EReal × EReal × EReal) (c : Cell) : Prop :=
  (lo.1 ≤ (Rounding.centreAt o.1 e c.i : EReal) ∧ (Rounding.centreAt o.1 e c.i : EReal) ≤ hi.1) ∧
  (lo.2.1 ≤ (Rounding.centreAt o.2.1 e c.j : EReal) ∧
    (Rounding.centreAt o.2.1 e c.j : EReal) ≤ hi.2.1) ∧
  (lo.2.2 ≤ (Rounding.centreAt o.2.2 e c.k : EReal) ∧
    (Rounding.centreAt o.2.2 e c.k : EReal) ≤ hi.2.2)

noncomputable instance (o : ℝ × ℝ × ℝ) (e : ℝ) (lo hi : EReal × EReal × EReal) :
    DecidablePred (CentreIn o e lo hi) := fun _ => inferInstanceAs (Decidable (_ ∧ _ ∧ _))

/-- In exact arithmetic the box of index ranges holds exactly the cells of the grid whose centres
lie in the box. -/
theorem mem_exact_box {g : GridFrame} {e : ℝ} (he : 0 < e) (o : ℝ × ℝ × ℝ)
    (lo hi : EReal × EReal × EReal) (c : Cell) :
    c ∈ GridFrame.boxCells (Rounding.exact.box e (o.1, o.2.1, o.2.2) lo hi (g.nx, g.ny, g.nz)) ↔
      g.OnGrid c ∧ CentreIn o e lo hi c := by
  rw [GridFrame.mem_boxCells]
  simp only [Rounding.box]
  rw [Rounding.mem_span_exact he, Rounding.mem_span_exact he, Rounding.mem_span_exact he]
  simp only [GridFrame.OnGrid, CentreIn]
  tauto

/-- **Setting a box of the map, in exact arithmetic.** For a grid of corner `o` and positive edge
`e`, and corners with real or infinite coordinates in any order, the box of the map read off the
corners in exact arithmetic sets to the state exactly the cells of the grid whose centres lie in
the box, leaves every other cell of the grid, and answers the number of those cells. -/
theorem setCells_exact_box (m : VoxelMap) (hcells : m.cells.size = m.frame.count) {e : ℝ}
    (he : 0 < e) (o : ℝ × ℝ × ℝ) (lo hi : EReal × EReal × EReal) (s : CellState) :
    let set := m.setCells (Rounding.exact.box e (o.1, o.2.1, o.2.2) lo hi
      (m.frame.nx, m.frame.ny, m.frame.nz)) s
    (∀ c, m.frame.OnGrid c → set.1.cells[m.frame.flat c]? =
      if CentreIn o e lo hi c then some s.code else m.cells[m.frame.flat c]?) ∧
    set.2 = m.frame.cells.countP (fun c => decide (CentreIn o e lo hi c)) := by
  intro set
  have hmem := mem_exact_box (g := m.frame) he o lo hi
  refine ⟨fun c hc => ?_, VoxelMap.boxCount_eq_countP _ hmem⟩
  rw [VoxelMap.setCells_getElem? hcells (Rounding.box_within ..) s hc]
  simp only [hmem, hc, true_and]

/-- The unseen row of eight cells, its corner and edge read exactly, and an obstacle box from
below the grid to the middle of its third cell along the row, unbounded across it. -/
theorem exact_box_on_row :
    VoxelMap.unseenRow.cells.size = VoxelMap.unseenRow.frame.count ∧ (0 : ℝ) < 8⁻¹ ∧
    let set := VoxelMap.unseenRow.setCells (Rounding.exact.box (8⁻¹ : ℝ)
      ((0 : ℝ), (7 / 16 : ℝ), (7 / 16 : ℝ)) (⊥, ⊥, ⊥) ((5 / 16 : ℝ), ⊤, ⊤)
      (VoxelMap.unseenRow.frame.nx, VoxelMap.unseenRow.frame.ny, VoxelMap.unseenRow.frame.nz))
      .occupied
    (∀ c, VoxelMap.unseenRow.frame.OnGrid c → set.1.cells[VoxelMap.unseenRow.frame.flat c]? =
      if CentreIn (0, 7 / 16, 7 / 16) 8⁻¹ (⊥, ⊥, ⊥) ((5 / 16 : ℝ), ⊤, ⊤) c
      then some CellState.occupied.code
      else VoxelMap.unseenRow.cells[VoxelMap.unseenRow.frame.flat c]?) ∧
    set.2 = VoxelMap.unseenRow.frame.cells.countP
      (fun c => decide (CentreIn (0, 7 / 16, 7 / 16) 8⁻¹ (⊥, ⊥, ⊥) ((5 / 16 : ℝ), ⊤, ⊤) c)) :=
  ⟨rfl, by norm_num, setCells_exact_box VoxelMap.unseenRow rfl (e := 8⁻¹) (by norm_num)
    (0, 7 / 16, 7 / 16) (⊥, ⊥, ⊥) ((5 / 16 : ℝ), ⊤, ⊤) .occupied⟩

end Exploration
