import Mathlib
import Exploration.Map.VoxelMap
import Exploration.Proofs.FloatBits
import Exploration.Proofs.Loops

/-!
# Histories of a voxel map

A voxel map is made from the map settings and then changed by four operations: every cell set to
one state (`fill`), the cells of a box set to a state (`setBox`, which setting a box, adding an
obstacle and clearing a box all are), a region frozen (`freeze`), and the distance field cached
(`withField`). This module says once what each does to the cells, the cached field and the
frozen regions, so that later proofs never unfold them:

* a box set to a state leaves every cell in its old state or in the new one (`state_setBox`);
* freezing caches the field and appends the snapshot of the box (`freeze_eq`).

The maps a history can reach (`VoxelMap.Reachable`) keep one invariant (`VoxelMap.Sound`): every
byte is the code of a state, the cached field, when there is one, is the field of the cells, and
the edge of a cell and the traversability radius are positive, as the settings require
(`Settings.read_map_positive`). It holds of a made map and every step keeps it
(`made_sound`, `step_sound`), so it holds of every reachable map (`Reachable.sound`).
-/

namespace Exploration

/-! ## Reading the byte and double arrays -/

theorem ByteArray.getElem?_eq (cs : ByteArray) (n : Nat) : cs[n]? = cs.data[n]? := by
  cases cs with
  | mk a =>
    by_cases h : n < a.size
    · rw [getElem?_pos (ByteArray.mk a) n h, getElem?_pos a n h]
      rfl
    · rw [getElem?_neg (ByteArray.mk a) n h, getElem?_neg a n h]

theorem ByteArray.data_set! (cs : ByteArray) (i : Nat) (b : UInt8) :
    (cs.set! i b).data = cs.data.setIfInBounds i b := by
  cases cs
  rfl

theorem FloatArray.getElem?_eq (xs : FloatArray) (n : Nat) : xs[n]? = xs.data[n]? := by
  cases xs with
  | mk a =>
    by_cases h : n < a.size
    · rw [getElem?_pos (FloatArray.mk a) n h, getElem?_pos a n h]
      rfl
    · rw [getElem?_neg (FloatArray.mk a) n h, getElem?_neg a n h]

/-! ## The map settings -/

namespace Settings

theorem forIn_requirePositive_ok (entries : List (String × Value)) :
    ∀ (names : List String) {u : PUnit}, forIn (m := Except Error) names PUnit.unit (fun name _ => do
      requirePositive entries name
      pure (ForInStep.yield PUnit.unit)) = .ok u →
    ∀ name ∈ names, Value.lessThan (.int 0) (lookup entries name) = .ok true
  | [], _, _ => by simp
  | name :: names, u, h => by
    rw [List.forIn_cons] at h
    obtain ⟨r, hr, h⟩ := bind_eq_ok.1 h
    obtain ⟨_, hpos, hr⟩ := bind_eq_ok.1 hr
    rw [pure_eq_ok] at hr
    subst hr
    intro n hn
    rcases List.mem_cons.1 hn with rfl | hn
    · unfold requirePositive at hpos
      obtain ⟨b, hb, hpos⟩ := bind_eq_ok.1 hpos
      cases b
      · cases hpos
      · exact hb
    · exact forIn_requirePositive_ok entries names h n hn

/-- A group that passes its check has every setting of its positive list above zero. -/
theorem check_positive {kind : SettingsKind} {entries entries' : List (String × Value)}
    (h : check kind entries = .ok entries') :
    ∀ name ∈ kind.positive, Value.lessThan (.int 0) (lookup entries name) = .ok true := by
  unfold check at h
  obtain ⟨u, hloop, -⟩ := bind_eq_ok.1 h
  exact forIn_requirePositive_ok entries kind.positive hloop

/-- Checking the map settings rewrites the corner and the sizes and keeps every other entry. -/
theorem check_map_eq {entries entries' : List (String × Value)}
    (h : check .map entries = .ok entries') :
    ∃ corner sizes, entries' = entries.map fun x =>
      if (x.1 == "origin") = true then (x.1, Value.nums corner)
      else if (x.1 == "dimensions") = true then (x.1, Value.ints sizes) else x := by
  unfold check at h
  obtain ⟨u, -, h⟩ := bind_eq_ok.1 h
  dsimp only at h
  -- the corner and the sizes are checked in turn; each failure ends in an error
  obtain ⟨n, -, h⟩ := bind_eq_ok.1 h
  split at h
  · obtain ⟨_, he, -⟩ := bind_eq_ok.1 h
    cases he
  · obtain ⟨n, -, h⟩ := bind_eq_ok.1 h
    split at h
    · obtain ⟨_, he, -⟩ := bind_eq_ok.1 h
      cases he
    · obtain ⟨_, -, h⟩ := bind_eq_ok.1 h
      obtain ⟨corner, -, h⟩ := bind_eq_ok.1 h
      obtain ⟨_, -, h⟩ := bind_eq_ok.1 h
      obtain ⟨sizes, -, h⟩ := bind_eq_ok.1 h
      split at h
      · obtain ⟨_, he, -⟩ := bind_eq_ok.1 h
        cases he
      · refine ⟨corner, sizes, (Except.ok.inj h).symm.trans ?_⟩
        congr 1

/-- Entries rewritten without changing their names, and kept as they are under one name, look
that name up as before. -/
theorem lookup_map_of_fixed (entries : List (String × Value)) (f : String × Value → String × Value)
    (hname : ∀ x, (f x).1 = x.1) {name : String} (hfix : ∀ x, x.1 = name → f x = x) :
    lookup (entries.map f) name = lookup entries name := by
  have hp : ((fun x : String × Value => x.1 == name) ∘ f) = fun x => x.1 == name := by
    funext x
    simp [hname]
  unfold lookup
  rw [List.find?_map, hp]
  cases hfound : entries.find? (·.1 == name) with
  | none => rfl
  | some x =>
    have hx : x.1 = name := by simpa using List.find?_some hfound
    simp [hfix x hx]

theorem read_ok {kind : SettingsKind} {data : Value} {s : Settings} (h : read kind data = .ok s) :
    ∃ entries, check kind entries = .ok s.entries := by
  unfold read at h
  split at h
  · obtain ⟨entries', hcheck, h⟩ := bind_eq_ok.1 h
    cases h
    exact ⟨_, hcheck⟩
  · cases h

/-- **The map settings read from any object have a positive edge and a positive traversability
radius.** -/
theorem read_map_positive {data : Value} {s : Settings} (h : read .map data = .ok s) :
    ∀ name ∈ ["voxel_size", "traversability_radius"],
      Value.lessThan (.int 0) (s.get name) = .ok true := by
  obtain ⟨entries, hcheck⟩ := read_ok h
  obtain ⟨corner, sizes, hentries⟩ := check_map_eq hcheck
  intro name hname
  have hpos := check_positive hcheck name hname
  have hother : name ≠ "origin" ∧ name ≠ "dimensions" := by
    simp only [List.mem_cons, List.not_mem_nil, or_false] at hname
    rcases hname with rfl | rfl <;> decide
  show Value.lessThan (.int 0) (lookup s.entries name) = .ok true
  rw [hentries, lookup_map_of_fixed]
  · exact hpos
  · intro x
    split_ifs <;> rfl
  · intro x hx
    subst hx
    simp [hother.1, hother.2]

end Settings

/-! ## Cells on the grid -/

namespace GridFrame

/-- A cell whose three indices lie on the grid. -/
def OnGrid (g : GridFrame) (c : Cell) : Prop := c.i < g.nx ∧ c.j < g.ny ∧ c.k < g.nz

instance (g : GridFrame) (c : Cell) : Decidable (g.OnGrid c) :=
  inferInstanceAs (Decidable (_ ∧ _ ∧ _))

theorem lt_of_onAxis {v : Int} {n i : Nat} (h : onAxis v n = some i) : i < n := by
  unfold onAxis at h
  split at h
  · cases h
    omega
  · cases h

/-- The cell holding a point is on the grid. -/
theorem onGrid_of_cellOf? {g : GridFrame} {p : Vec3} {c : Cell} (h : g.cellOf? p = some c) :
    g.OnGrid c := by
  unfold cellOf? at h
  split at h
  split at h
  · rename_i i j k hi hj hk
    cases h
    exact ⟨lt_of_onAxis hi, lt_of_onAxis hj, lt_of_onAxis hk⟩
  · cases h

/-- A cell on the grid has a place in the flat arrays of the grid. -/
theorem flat_lt_count {g : GridFrame} {c : Cell} (h : g.OnGrid c) : g.flat c < g.count := by
  obtain ⟨hi, hj, hk⟩ := h
  unfold flat count
  have hrow : c.i * g.ny + c.j + 1 ≤ g.nx * g.ny :=
    calc c.i * g.ny + c.j + 1 ≤ c.i * g.ny + g.ny := by omega
      _ = (c.i + 1) * g.ny := by ring
      _ ≤ g.nx * g.ny := Nat.mul_le_mul_right _ hi
  calc (c.i * g.ny + c.j) * g.nz + c.k < (c.i * g.ny + c.j) * g.nz + g.nz := by omega
    _ = (c.i * g.ny + c.j + 1) * g.nz := by ring
    _ ≤ g.nx * g.ny * g.nz := Nat.mul_le_mul_right _ hrow

end GridFrame

namespace VoxelMap

/-! ## What each operation changes -/

@[simp] theorem fill_frame (m : VoxelMap) (s : CellState) : (m.fill s).frame = m.frame := rfl
@[simp] theorem fill_regions (m : VoxelMap) (s : CellState) : (m.fill s).regions = m.regions := rfl
@[simp] theorem fill_field (m : VoxelMap) (s : CellState) : (m.fill s).field = none := rfl
@[simp] theorem fill_traversability (m : VoxelMap) (s : CellState) :
    (m.fill s).traversability = m.traversability := rfl
@[simp] theorem fill_clearing (m : VoxelMap) (s : CellState) : (m.fill s).clearing = m.clearing := rfl

@[simp] theorem setBox_frame (m : VoxelMap) (lo hi : Vec3) (s : CellState) :
    (m.setBox lo hi s).1.frame = m.frame := rfl
@[simp] theorem setBox_regions (m : VoxelMap) (lo hi : Vec3) (s : CellState) :
    (m.setBox lo hi s).1.regions = m.regions := rfl
@[simp] theorem setBox_field (m : VoxelMap) (lo hi : Vec3) (s : CellState) :
    (m.setBox lo hi s).1.field = none := rfl
@[simp] theorem setBox_traversability (m : VoxelMap) (lo hi : Vec3) (s : CellState) :
    (m.setBox lo hi s).1.traversability = m.traversability := rfl
@[simp] theorem setBox_clearing (m : VoxelMap) (lo hi : Vec3) (s : CellState) :
    (m.setBox lo hi s).1.clearing = m.clearing := rfl

@[simp] theorem withField_frame (m : VoxelMap) : m.withField.frame = m.frame := by
  unfold withField; split <;> rfl
@[simp] theorem withField_cells (m : VoxelMap) : m.withField.cells = m.cells := by
  unfold withField; split <;> rfl
@[simp] theorem withField_regions (m : VoxelMap) : m.withField.regions = m.regions := by
  unfold withField; split <;> rfl
@[simp] theorem withField_traversability (m : VoxelMap) :
    m.withField.traversability = m.traversability := by
  unfold withField; split <;> rfl
@[simp] theorem withField_clearing (m : VoxelMap) : m.withField.clearing = m.clearing := by
  unfold withField; split <;> rfl

theorem withField_field (m : VoxelMap) : m.withField.field = some m.distances := by
  unfold withField distances
  split <;> simp_all

/-- The field computed depends on the grid and the cells only. -/
theorem computeField_eq {m m' : VoxelMap} (hf : m'.frame = m.frame) (hc : m'.cells = m.cells) :
    m'.computeField = m.computeField := by
  simp only [computeField, hf, hc]

@[simp] theorem computeField_withField (m : VoxelMap) : m.withField.computeField = m.computeField :=
  computeField_eq (withField_frame m) (withField_cells m)

theorem distances_withField (m : VoxelMap) : m.withField.distances = m.distances := by
  rw [distances, withField_field]
  rfl

/-- Setting the cells of a list one after another to one byte leaves each byte as it was or
that byte. -/
theorem foldl_set!_getElem? (f : Cell → Nat) (b : UInt8) (n : Nat) :
    ∀ (cells : List Cell) (cs : ByteArray),
      (cells.foldl (fun cs c => cs.set! (f c) b) cs)[n]? = cs[n]? ∨
      (cells.foldl (fun cs c => cs.set! (f c) b) cs)[n]? = some b
  | [], cs => .inl rfl
  | c :: cells, cs => by
    rw [List.foldl_cons]
    rcases foldl_set!_getElem? f b n cells (cs.set! (f c) b) with h | h
    · rw [h, ByteArray.getElem?_eq, ByteArray.data_set!, Array.getElem?_setIfInBounds,
        ByteArray.getElem?_eq]
      split_ifs with hn hlt
      · simp
      · -- a place past the end is not set
        have hnone : cs.data[n]? = none := Array.getElem?_eq_none (by omega)
        simp [hnone]
      · simp
    · exact .inr h

/-- A byte of a map whose box was set is its old byte or the code of the new state. -/
theorem setBox_getElem? (m : VoxelMap) (lo hi : Vec3) (s : CellState) (n : Nat) :
    (m.setBox lo hi s).1.cells[n]? = m.cells[n]? ∨ (m.setBox lo hi s).1.cells[n]? = some s.code :=
  foldl_set!_getElem? _ _ n _ _

/-- **Setting a box to a state leaves every cell in its old state or in that state.** -/
theorem state_setBox (m : VoxelMap) (lo hi : Vec3) (s : CellState) (c : Cell) :
    (m.setBox lo hi s).1.state c = s ∨ (m.setBox lo hi s).1.state c = m.state c := by
  unfold state
  rw [setBox_frame]
  rcases setBox_getElem? m lo hi s (m.frame.flat c) with h | h
  · exact .inr (by rw [h])
  · exact .inl (by rw [h, Option.getD_some, CellState.ofCode_code])

theorem state_fill (m : VoxelMap) (s : CellState) {c : Cell} (hc : m.frame.OnGrid c) :
    (m.fill s).state c = s := by
  have hlt := GridFrame.flat_lt_count hc
  unfold state fill
  simp only [ByteArray.getElem?_eq, Array.getElem?_replicate, hlt, if_true, Option.getD_some,
    CellState.ofCode_code]

theorem state_withField (m : VoxelMap) (c : Cell) : m.withField.state c = m.state c := by
  simp only [state, withField_cells, withField_frame]

/-- A freeze that succeeds caches the field and appends the snapshot of the box under the id. -/
theorem freeze_eq {m m' : VoxelMap} {id : Value} {lo hi : Vec3} (h : m.freeze id lo hi = .ok m') :
    ∃ key, m' = { m.withField with regions := m.regions ++ [m.withField.snapshot key lo hi] } := by
  unfold freeze at h
  obtain ⟨key, -, h⟩ := bind_eq_ok.1 h
  split at h
  · cases h
  · exact ⟨key, by rw [← Except.ok.inj h, withField_regions]⟩

/-! ## Histories and their invariant -/

/-- One operation on a map. -/
inductive Step : VoxelMap → VoxelMap → Prop where
  | fill (m : VoxelMap) (s : CellState) : Step m (m.fill s)
  | setBox (m : VoxelMap) (lo hi : Vec3) (s : CellState) : Step m (m.setBox lo hi s).1
  | freeze {m m' : VoxelMap} {id : Value} {lo hi : Vec3} : m.freeze id lo hi = .ok m' → Step m m'
  | cache (m : VoxelMap) : Step m m.withField

/-- The maps made from map settings read from an object, and changed by any operations. -/
inductive Reachable : VoxelMap → Prop where
  | made {data : Value} {s : Settings} {m : VoxelMap} :
      Settings.read .map data = .ok s → ofSettings s = .ok m → Reachable m
  | step {m m' : VoxelMap} : Reachable m → Step m m' → Reachable m'

/-- What every reachable map keeps: each byte is the code of a state, the cached field is the
field of the cells, and the edge and the traversability radius are positive. -/
structure Sound (m : VoxelMap) : Prop where
  codes : ∀ (n : Nat) (b : UInt8), m.cells[n]? = some b → b ≤ 2
  cache : m.field = none ∨ m.field = some m.computeField
  edge : 0.0 < m.frame.size
  radius : 0.0 < m.traversability

theorem code_le_two (s : CellState) : s.code ≤ 2 := by
  cases s <;> decide

/-- The field a sound map answers with is the field of its cells. -/
theorem Sound.distances_eq {m : VoxelMap} (h : m.Sound) : m.distances = m.computeField := by
  rcases h.cache with hf | hf <;> simp [distances, hf]

theorem made_sound {data : Value} {s : Settings} {m : VoxelMap} (hs : Settings.read .map data = .ok s)
    (hm : ofSettings s = .ok m) : m.Sound := by
  have hpos := Settings.read_map_positive hs
  unfold ofSettings at hm
  obtain ⟨size, hsize, hm⟩ := bind_eq_ok.1 hm
  obtain ⟨_, -, hm⟩ := bind_eq_ok.1 hm
  obtain ⟨corner, -, hm⟩ := bind_eq_ok.1 hm
  obtain ⟨_, -, hm⟩ := bind_eq_ok.1 hm
  obtain ⟨dims, -, hm⟩ := bind_eq_ok.1 hm
  obtain ⟨trav, htrav, hm⟩ := bind_eq_ok.1 hm
  split at hm
  · cases hm
    refine ⟨fun n b hb => ?_, .inl rfl, ?_, ?_⟩
    · rw [ByteArray.getElem?_eq, Array.getElem?_replicate] at hb
      split at hb
      · cases hb
        decide
      · cases hb
    · exact Value.zero_lt_toReal (hpos "voxel_size" (by simp)) hsize
    · exact Value.zero_lt_toReal (hpos "traversability_radius" (by simp)) htrav
  · cases hm

theorem step_sound {m m' : VoxelMap} (h : m.Sound) (hstep : Step m m') : m'.Sound := by
  cases hstep with
  | fill s =>
    refine ⟨fun n b hb => ?_, .inl rfl, h.edge, h.radius⟩
    simp only [fill, ByteArray.getElem?_eq, Array.getElem?_replicate] at hb
    split at hb
    · cases hb
      exact code_le_two s
    · cases hb
  | setBox lo hi s =>
    refine ⟨fun n b hb => ?_, .inl rfl, h.edge, h.radius⟩
    rcases setBox_getElem? m lo hi s n with h' | h' <;> rw [h'] at hb
    · exact h.codes n b hb
    · cases hb
      exact code_le_two s
  | freeze hfreeze =>
    obtain ⟨key, rfl⟩ := freeze_eq hfreeze
    refine ⟨fun n b hb => h.codes n b (by simpa using hb), .inr ?_, by simpa using h.edge,
      by simpa using h.radius⟩
    rw [withField_field, h.distances_eq]
    exact congrArg some (computeField_eq (by simp) (by simp)).symm
  | cache =>
    refine ⟨fun n b hb => h.codes n b (by simpa using hb), .inr ?_, by simpa using h.edge,
      by simpa using h.radius⟩
    rw [withField_field, h.distances_eq, computeField_withField]

/-- **Every reachable map is sound.** -/
theorem Reachable.sound {m : VoxelMap} (h : m.Reachable) : m.Sound := by
  induction h with
  | made hs hm => exact made_sound hs hm
  | step _ hstep ih => exact step_sound ih hstep

/-! ## A small map -/

/-- Map settings of a row of eight cells of edge `⅛` along the first axis from `x = 0`, one cell
thick around `y = z = ½`, with a traversability radius of `0.1`. -/
def rowSettings : Value :=
  .dict [("voxel_size", .num 0.125), ("traversability_radius", .num 0.1),
    ("origin", .list [.num 0.0, .num 0.4375, .num 0.4375]),
    ("dimensions", .list [.int 8, .int 1, .int 1])]

/-- The unseen row the settings make. -/
def unseenRow : VoxelMap :=
  { frame := ⟨⟨0.0, 0.4375, 0.4375⟩, 0.125, 8, 1, 1⟩, cells := ⟨Array.replicate 8 0⟩,
    traversability := 0.1, clearing := .num 0.5 }

theorem unseenRow_reachable : unseenRow.Reachable := by
  have hmade : (Settings.read .map rowSettings >>= ofSettings) = .ok unseenRow := by rfl
  obtain ⟨s, hs, hm⟩ := bind_eq_ok.1 hmade
  exact .made hs hm

end VoxelMap

end Exploration
