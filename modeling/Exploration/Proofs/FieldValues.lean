import Mathlib
import Exploration.Proofs.Obstacles

/-!
# The distance field is never NaN

Every entry of the distance field is infinite or the square root of three squared offsets, each
offset a whole number of cells scaled by the edge (`GridFrame.obstacleDistance_entry`). From that
shape alone:

* with a finite edge, every entry is a double not below zero, so never NaN
  (`GridFrame.obstacleDistance_nonNeg`): the double of an integer has a sign
  (`Float.exists_hasSign_ofInt`), scaling it by a finite positive edge keeps a sign, and squares,
  sums and roots of such values are not below zero;
* with an infinite edge, every entry is NaN or infinite, so never zero
  (`GridFrame.obstacleDistance_ne_zero`): a zero offset times infinity is NaN, any other is
  infinite (`Float.huge_sq`).

When the field is zero at the occupied cells (`VoxelMap.ZeroAtObstacles`), the field of a map with
a positive edge is never NaN (`VoxelMap.computeField_isNaN`): an occupied cell with a zero entry
rules the infinite edge out, and with no occupied cell the field is infinite everywhere.
-/

open Float.Model Float.Model.UnpackedFloat

namespace Exploration.Unpacked

theorem hasSign_mul_finite {s : Sign} {a : UnpackedFloat} (ha : HasSign s a) (m : Nat) (e : Int)
    (hm : 0 < m) : HasSign s (UnpackedFloat.mul .binary64 a (.finite .positive m e hm)) := by
  cases a with
  | notANumber => exact absurd ha id
  | infinity t => cases ha; cases s <;> rfl
  | zero t => trivial
  | finite t n f hn =>
    cases ha
    have := hasSign_roundWithAccuracy .binary64 (s * .positive) (n * m) (f + e) .exact
    cases s <;> exact this

end Exploration.Unpacked

namespace Exploration.Float

open Exploration.Unpacked

/-- The double of a whole number is never below zero. -/
theorem nonNeg_ofNat (k : Nat) : NonNeg (Float.ofNat k) := by
  have hone : (getElem Float.exactlyRepresentablePowersOfTen 0 (by decide)).toModel.unpack =
      .finite .positive 4503599627370496 (-52) (by decide) := by rfl
  have hword : HasSign .positive (k.toUInt64.toFloat.toModel.unpack) := by
    apply hasSign_unpack_pack
    show HasSign .positive (UnpackedFloat.normalize .binary64 (k.toUInt64.toNat : Int) 0 .positive)
    rcases Nat.eq_zero_or_pos k.toUInt64.toNat with h0 | hpos
    · rw [h0]; unfold UnpackedFloat.normalize; simp; trivial
    · exact hasSign_normalize_pos _ (by omega) _ _
  unfold Float.ofNat
  show NonNeg (Float.ofScientific k false 0)
  unfold Float.ofScientific
  split
  · simp only [Bool.false_eq_true, if_false]
    show HasSign .positive (unpack .binary64 (UnpackedFloat.pack .binary64
      (UnpackedFloat.mul .binary64 _ _)))
    apply hasSign_unpack_pack
    rw [hone]
    exact hasSign_mul_finite hword _ _ _
  · apply hasSign_unpack_pack
    show HasSign .positive (UnpackedFloat.ofScientific .binary64 k (Int.ofNat 0))
    unfold UnpackedFloat.ofScientific
    split
    · trivial
    · have h2 : (2 : Int) ^ Format.binary64.exponentBits = 2048 := by decide
      rw [if_neg (by simp [h2]), if_neg (by simp [h2]), if_pos (by decide)]
      simp only [UnpackedFloat.mul]
      exact hasSign_roundWithAccuracy _ _ _ _ _

theorem hasSign_neg {s : Sign} {u : UnpackedFloat} (h : HasSign s u) : HasSign (-s) u.neg := by
  cases u with
  | notANumber => exact absurd h id
  | infinity t => cases h; rfl
  | zero t => trivial
  | finite t m e hm => cases h; rfl

/-- The double of an integer has a sign: it is never NaN. -/
theorem exists_hasSign_ofInt (n : Int) : ∃ s, HasSign s (Float.ofInt n).toModel.unpack := by
  cases n with
  | ofNat k => exact ⟨.positive, nonNeg_ofNat k⟩
  | negSucc k =>
    exact ⟨-.positive, hasSign_unpack_pack (hasSign_neg (nonNeg_ofNat (k + 1)))⟩

/-- A cell offset scaled by a finite positive edge and squared is not below zero. -/
theorem nonNeg_sq {s : Float} {m : Nat} {e : Int} {hm : 0 < m}
    (hs : s.toModel.unpack = .finite .positive m e hm) (n : Int) : NonNeg (NearestObstacle.sq s n) := by
  obtain ⟨σ, hσ⟩ := exists_hasSign_ofInt n
  have ht : HasSign σ (Float.ofInt n * s).toModel.unpack := by
    apply hasSign_unpack_pack
    show HasSign σ (UnpackedFloat.mul .binary64 (Float.ofInt n).toModel.unpack s.toModel.unpack)
    rw [hs]
    exact hasSign_mul_finite hσ m e hm
  exact hasSign_unpack_pack (hasSign_mul_self _ ht.isNaN_eq_false)

/-- NaN or positive infinity: what an infinite edge makes of a squared offset. -/
def Huge (u : UnpackedFloat) : Prop := u = .notANumber ∨ u = .infinity .positive

theorem huge_unpack_pack {u : UnpackedFloat} (h : Huge u) :
    Huge (unpack .binary64 (UnpackedFloat.pack .binary64 u)) := by
  rcases h with rfl | rfl
  · exact .inl unpack_packedNaN
  · exact .inr rfl

theorem huge_add {a b : UnpackedFloat} (ha : Huge a) (hb : Huge b) :
    Huge (UnpackedFloat.add .binary64 a b) := by
  rcases ha with rfl | rfl <;> rcases hb with rfl | rfl
  · exact .inl rfl
  · exact .inl rfl
  · exact .inl rfl
  · exact .inr rfl

theorem huge_sqrt {a : UnpackedFloat} (ha : Huge a) : Huge (UnpackedFloat.sqrt .binary64 a) := by
  rcases ha with rfl | rfl
  · exact .inl rfl
  · exact .inr rfl

/-- Scaled by an infinite edge, a cell offset squared is NaN (no offset) or infinite. -/
theorem huge_sq {s : Float} (hs : s.toModel.unpack = .infinity .positive) (n : Int) :
    Huge (NearestObstacle.sq s n).toModel.unpack := by
  obtain ⟨σ, hσ⟩ := exists_hasSign_ofInt n
  have ht : (Float.ofInt n * s).toModel.unpack = .notANumber ∨
      (Float.ofInt n * s).toModel.unpack = .infinity σ := by
    have key : (Float.ofInt n * s).toModel.unpack = unpack .binary64 (UnpackedFloat.pack .binary64
        (UnpackedFloat.mul .binary64 (Float.ofInt n).toModel.unpack s.toModel.unpack)) := rfl
    rw [key, hs]
    cases hu : (Float.ofInt n).toModel.unpack with
    | notANumber => rw [hu] at hσ; exact absurd hσ id
    | zero t => exact .inl unpack_packedNaN
    | infinity t =>
      rw [hu] at hσ; cases hσ
      cases σ <;> exact .inr rfl
    | finite t m e hm =>
      rw [hu] at hσ; cases hσ
      right
      simp only [UnpackedFloat.mul]
      cases σ <;> rfl
  apply huge_unpack_pack
  show Huge (UnpackedFloat.mul .binary64 (Float.ofInt n * s).toModel.unpack
    (Float.ofInt n * s).toModel.unpack)
  rcases ht with h | h <;> rw [h]
  · exact .inl rfl
  · cases σ <;> exact .inr rfl

theorem nonNeg_inf : NonNeg ((1.0 : Float) / 0.0) := by
  show HasSign .positive ((1.0 : Float) / 0.0).toModel.unpack
  rw [show ((1.0 : Float) / 0.0).toModel.unpack = .infinity .positive from rfl]
  rfl

/-- A double that is NaN or infinite is not zero. -/
theorem ne_zero_of_huge {v : Float} (h : Huge v.toModel.unpack) : v ≠ 0.0 := by
  intro hv
  rw [hv, show (0.0 : Float).toModel.unpack = .zero .positive from rfl] at h
  rcases h with h | h <;> cases h

end Exploration.Float

namespace Exploration

namespace GridFrame

open NearestObstacle

/-- Every entry of the obstacle distances is infinite or the root of three squared offsets, each
a whole number of cells scaled by the edge. -/
theorem obstacleDistance_entry (g : GridFrame) (occ : Nat → Bool) {n : Nat} {v : Float}
    (hv : (g.obstacleDistance occ)[n]? = some v) :
    v = 1.0 / 0.0 ∨ ∃ a b c : Int, v = ((sq g.size a + sq g.size b) + sq g.size c).sqrt := by
  unfold obstacleDistance at hv
  split at hv
  · rw [FloatArray.getElem?_eq, Array.getElem?_replicate] at hv
    split at hv
    · exact .inl (Option.some.inj hv).symm
    · cases hv
  · rw [FloatArray.getElem?_eq, Array.getElem?_map, Array.getElem?_range] at hv
    split at hv
    · simp only [Option.map_some, Option.some.injEq] at hv
      split at hv
      · exact .inr ⟨_, _, _, hv.symm⟩
      · exact .inl hv.symm
    · cases hv

/-- With no occupied cell the obstacle distances are all infinite. -/
theorem obstacleDistance_of_none (g : GridFrame) {occ : Nat → Bool}
    (hnone : ∀ n < g.count, occ n = false) {n : Nat} {v : Float}
    (hv : (g.obstacleDistance occ)[n]? = some v) : v = 1.0 / 0.0 := by
  have hany : (List.range g.count).any occ = false := by
    rw [List.any_eq_false]
    intro k hk
    simp [hnone k (List.mem_range.1 hk)]
  unfold obstacleDistance at hv
  rw [hany, Bool.not_false, if_pos rfl, FloatArray.getElem?_eq, Array.getElem?_replicate] at hv
  split at hv
  · exact (Option.some.inj hv).symm
  · cases hv

/-- With a finite edge every obstacle distance is a double not below zero. -/
theorem obstacleDistance_nonNeg (g : GridFrame) (occ : Nat → Bool) {m : Nat} {e : Int} {hm : 0 < m}
    (hs : g.size.toModel.unpack = .finite .positive m e hm) {n : Nat} {v : Float}
    (hv : (g.obstacleDistance occ)[n]? = some v) : Float.NonNeg v := by
  rcases obstacleDistance_entry g occ hv with rfl | ⟨a, b, c, rfl⟩
  · exact Float.nonNeg_inf
  · exact Float.nonNeg_sqrt (Float.nonNeg_add (Float.nonNeg_add (Float.nonNeg_sq hs a)
      (Float.nonNeg_sq hs b)) (Float.nonNeg_sq hs c))

/-- With an infinite edge no obstacle distance is zero. -/
theorem obstacleDistance_ne_zero (g : GridFrame) (occ : Nat → Bool)
    (hs : g.size.toModel.unpack = .infinity .positive) {n : Nat} {v : Float}
    (hv : (g.obstacleDistance occ)[n]? = some v) : v ≠ 0.0 := by
  rcases obstacleDistance_entry g occ hv with rfl | ⟨a, b, c, rfl⟩
  · exact Float.ne_zero_of_huge (.inr rfl)
  · apply Float.ne_zero_of_huge
    -- the root of a sum of NaN or infinite squares is NaN or infinite
    apply Float.huge_unpack_pack
    apply Float.huge_sqrt
    apply Float.huge_unpack_pack
    apply Float.huge_add _ (Float.huge_sq hs c)
    exact Float.huge_unpack_pack (Float.huge_add (Float.huge_sq hs a) (Float.huge_sq hs b))

/-- Every place of the flat arrays is the place of a cell on the grid. -/
theorem exists_cell_of_lt_count {g : GridFrame} {n : Nat} (hn : n < g.count) :
    ∃ c, g.OnGrid c ∧ g.flat c = n := by
  have hpos : 0 < g.nx * g.ny * g.nz := Nat.lt_of_le_of_lt (Nat.zero_le n) hn
  have hz : 0 < g.nz := Nat.pos_of_mul_pos_left hpos
  have hy : 0 < g.ny := Nat.pos_of_mul_pos_left (Nat.pos_of_mul_pos_right hpos)
  refine ⟨⟨n / g.nz / g.ny, n / g.nz % g.ny, n % g.nz⟩, ⟨?_, Nat.mod_lt _ hy, Nat.mod_lt _ hz⟩, ?_⟩
  · rw [Nat.div_div_eq_div_mul, Nat.div_lt_iff_lt_mul (Nat.mul_pos hz hy)]
    calc n < g.nx * g.ny * g.nz := hn
      _ = g.nx * (g.nz * g.ny) := by ring
  · unfold flat
    simp only
    rw [Nat.div_add_mod' (n / g.nz) g.ny, Nat.div_add_mod' n g.nz]

end GridFrame

namespace CellState

theorem ofCode_eq_occupied_iff (b : UInt8) : ofCode b = .occupied ↔ b = 2 := by
  unfold ofCode
  by_cases h1 : b = 1
  · simp [h1]
  · by_cases h2 : b = 2
    · simp [h2]
    · simp [h1, h2]

end CellState

namespace VoxelMap

/-- **The field of a map with a positive edge is never NaN** when it is zero at the occupied
cells. With a finite edge no entry is NaN. With an infinite edge no entry is zero, so no cell is
occupied, and then every entry is infinite. -/
theorem computeField_isNaN {m : VoxelMap} (hedge : 0.0 < m.frame.size) (hz : m.ZeroAtObstacles)
    {n : Nat} {v : Float} (hv : m.computeField[n]? = some v) : v.isNaN = false := by
  rcases Float.unpack_of_zero_lt hedge with ⟨k, e, hk, hfin⟩ | hinf
  · exact (GridFrame.obstacleDistance_nonNeg _ _ hfin hv).isNaN_eq_false
  · have hnone : ∀ i < m.frame.count,
        (m.cells[i]?.getD 0 == CellState.occupied.code) = false := by
      intro i hi
      by_contra hocc
      obtain ⟨c, hc, rfl⟩ := GridFrame.exists_cell_of_lt_count hi
      have hstate : m.state c = .occupied := by
        unfold state
        rw [CellState.ofCode_eq_occupied_iff]
        simpa [CellState.code] using hocc
      exact GridFrame.obstacleDistance_ne_zero _ _ hinf (hz c hc hstate) rfl
    rw [GridFrame.obstacleDistance_of_none _ hnone hv]
    rfl

end VoxelMap

end Exploration
