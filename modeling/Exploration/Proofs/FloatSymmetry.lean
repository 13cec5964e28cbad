import Mathlib
import Exploration.Proofs.FloatBits
import Exploration.Geometry.Vec3

/-!
# Distances read both ways

The planner measures the same distance twice, once each way: before it makes a connection it
measures the distance from the new viewpoint to the neighbour and checks it against the allowed
path lengths, and it stores as the cost of the connection the length measured from the neighbour
back to the new viewpoint. The two are one double (`Vec3.norm_sub_comm`), so the cost stored is
the length checked.

Over doubles this is a fact about rounding. A difference taken the other way is the negated
difference, or the same double when the exact difference is zero or a NaN comes out
(`Float.sub_swap`): rounding reads the magnitude and attaches the sign last
(`Unpacked.roundWithAccuracy_neg`). A square does not see a sign: the product of two negated
doubles is the product (`Float.mul_neg_neg`), and the exact value the fused multiply-add reads off
the bits of a negated double is the negated value (`Float.ofFloat?_neg`), so a multiply-add of a
square is the same either way (`Float.fusedMulAdd_neg_self`).

Negation turns the sign bit over and keeps the other bits (`Unpacked.pack_neg`,
`Unpacked.unpack_flipSign`); a NaN is negated to the NaN pattern. Every lemma about a negated
double crosses the repacking of the model through `Float.neg_mk_pack`.
-/

open Float.Model Float.Model.UnpackedFloat

namespace Exploration.Unpacked

/-! ## Signs and rounding -/

theorem neg_neg_sign (s : Sign) : -(-s) = s := by cases s <;> rfl

theorem neg_mul_neg_sign (s t : Sign) : (-s) * (-t) = s * t := by cases s <;> cases t <;> rfl

/-- Rounding attaches the sign last: it rounds the magnitude alone. -/
theorem roundWithAccuracy_neg (spec : Format) (s : Sign) (m : Nat) (e : Int) (acc : Accuracy) :
    roundWithAccuracy spec (-s) m e acc = (roundWithAccuracy spec s m e acc).neg := by
  unfold roundWithAccuracy
  simp only
  split <;> rfl

theorem round_neg (spec : Format) (s : Sign) (m : Nat) (e : Int) :
    UnpackedFloat.round spec (-s) m e = (UnpackedFloat.round spec s m e).neg := by
  unfold UnpackedFloat.round
  exact roundWithAccuracy_neg _ _ _ _ _

theorem normalize_neg (spec : Format) {x : Int} (hx : x ≠ 0) (e : Int) (z : Sign) :
    normalize spec (-x) e z = (normalize spec x e z).neg := by
  unfold UnpackedFloat.normalize
  rcases lt_or_gt_of_ne hx with h | h
  · rw [compare_gt_iff_gt.2 (show 0 < -x by omega), compare_lt_iff_lt.2 h]
    simp only
    rw [← round_neg, show -(Sign.negative) = Sign.positive from rfl]
  · rw [compare_lt_iff_lt.2 (show -x < 0 by omega), compare_gt_iff_gt.2 h]
    simp only
    rw [← round_neg, Int.neg_neg]
    rfl

theorem mul_neg_neg (spec : Format) (u v : UnpackedFloat) :
    UnpackedFloat.mul spec u.neg v.neg = UnpackedFloat.mul spec u v := by
  cases u <;> cases v <;> simp [UnpackedFloat.mul, UnpackedFloat.neg, neg_mul_neg_sign]

/-- **A difference taken the other way** is the negated difference, or the same value when the
exact difference is zero or the difference is NaN. -/
theorem sub_swap (spec : Format) (a b : UnpackedFloat) :
    UnpackedFloat.sub spec b a = (UnpackedFloat.sub spec a b).neg ∨
      UnpackedFloat.sub spec b a = UnpackedFloat.sub spec a b := by
  cases a with
  | notANumber => cases b <;> simp [UnpackedFloat.sub]
  | infinity s =>
    cases b with
    | notANumber => simp [UnpackedFloat.sub]
    | infinity t => cases s <;> cases t <;> exact .inl rfl
    | zero t => left; simp [UnpackedFloat.sub, UnpackedFloat.neg]
    | finite t n f hn => left; simp [UnpackedFloat.sub, UnpackedFloat.neg]
  | zero s =>
    cases b with
    | notANumber => simp [UnpackedFloat.sub]
    | infinity t => left; simp [UnpackedFloat.sub, UnpackedFloat.neg, neg_neg_sign]
    | zero t => cases s <;> cases t <;> first | exact .inl rfl | exact .inr rfl
    | finite t n f hn => left; simp [UnpackedFloat.sub, UnpackedFloat.neg, neg_neg_sign]
  | finite s m e hm =>
    cases b with
    | notANumber => simp [UnpackedFloat.sub]
    | infinity t => left; simp [UnpackedFloat.sub, UnpackedFloat.neg, neg_neg_sign]
    | zero t => left; simp [UnpackedFloat.sub, UnpackedFloat.neg]
    | finite t n f hn =>
      -- both brought to the smaller exponent: the exact differences are opposite
      simp only [UnpackedFloat.sub]
      rw [min_comm f e]
      generalize (decreaseExponent m e (min e f)).1 = M
      generalize (decreaseExponent n f (min e f)).1 = N
      by_cases hx : s.apply M - t.apply N = 0
      · right
        rw [hx, show t.apply N - s.apply M = 0 by omega]
      · left
        rw [← normalize_neg spec hx, neg_sub]


/-! ## The sign bit -/

/-- The bits of a double with the sign bit turned over. -/
def flipSign (b : BitVec Format.binary64.numBits) : BitVec Format.binary64.numBits :=
  packComponents .binary64 (-(Sign.ofBitVec (unpackSign b))) (unpackExponent b) (unpackMantissa b)

theorem flipSign_packComponents (s : Sign) (e : BitVec 11) (m : BitVec 52) :
    flipSign (packComponents .binary64 s e m) = packComponents .binary64 (-s) e m := by
  simp only [flipSign, unpackSign_packComponents, unpackExponent_packComponents,
    unpackMantissa_packComponents]

/-- Unpacking reads the sign bit apart from the rest of the bits. -/
theorem unpack_flipSign (b : BitVec Format.binary64.numBits) :
    unpack .binary64 (flipSign b) = (unpack .binary64 b).neg := by
  conv_rhs => rw [← packComponents_unpackSign_unpackExponent_unpackMantissa b]
  unfold flipSign
  generalize Sign.ofBitVec (unpackSign b) = s
  generalize unpackExponent b = e
  generalize unpackMantissa b = m
  rw [UnpackedFloat.unpack, UnpackedFloat.unpack]
  simp only [unpackMantissa_packComponents, unpackExponent_packComponents,
    unpackSign_packComponents]
  split
  · split <;> rfl
  · split
    · split <;> rfl
    · rfl

/-- Packing a negated value turns the sign bit over. -/
theorem pack_neg {u : UnpackedFloat} (hu : u.isNaN = false) :
    UnpackedFloat.pack .binary64 u.neg = flipSign (UnpackedFloat.pack .binary64 u) := by
  cases u with
  | notANumber => simp [UnpackedFloat.isNaN] at hu
  | infinity s => exact (flipSign_packComponents s _ _).symm
  | zero s => exact (flipSign_packComponents s _ _).symm
  | finite s m e hm =>
    simp only [UnpackedFloat.neg, UnpackedFloat.pack]
    split_ifs <;> exact (flipSign_packComponents s _ _).symm

end Exploration.Unpacked

namespace Exploration.Float

open Exploration.Unpacked

/-! ## Negated doubles -/

/-- A value that is not NaN has a sign, which packing keeps. -/
theorem isNaN_unpack_pack {u : UnpackedFloat} (hu : u.isNaN = false) :
    (unpack .binary64 (UnpackedFloat.pack .binary64 u)).isNaN = false := by
  obtain ⟨s, hs⟩ : ∃ s, HasSign s u := by
    cases u with
    | notANumber => simp [UnpackedFloat.isNaN] at hu
    | infinity s => exact ⟨s, rfl⟩
    | zero s => exact ⟨s, trivial⟩
    | finite s m e hm => exact ⟨s, rfl⟩
  exact (hasSign_unpack_pack hs).isNaN_eq_false

/-- **Negating a packed value** is packing its negation. -/
theorem neg_mk_pack (u : UnpackedFloat) :
    -(⟨Float.Model.pack u⟩ : Float) = ⟨Float.Model.pack u.neg⟩ := by
  have hbits : UnpackedFloat.pack .binary64 (unpack .binary64 (UnpackedFloat.pack .binary64 u)).neg =
      UnpackedFloat.pack .binary64 u.neg := by
    cases hu : u.isNaN with
    | true =>
      cases u <;> simp [UnpackedFloat.isNaN] at hu
      rfl
    | false =>
      have hvalid : UnpackedFloat.pack .binary64 (unpack .binary64 (UnpackedFloat.pack .binary64 u)) =
          UnpackedFloat.pack .binary64 u :=
        pack_unpack_of_valid (Float.Model.pack u).valid
      rw [pack_neg (isNaN_unpack_pack hu), hvalid, pack_neg hu]
  show (⟨Float.Model.pack (Float.Model.pack u).unpack.neg⟩ : Float) = _
  simp only [Float.Model.pack, Float.Model.unpack, hbits]

/-- **A difference taken the other way** is the negated difference, or the same double. -/
theorem sub_swap (a b : Float) : b - a = -(a - b) ∨ b - a = a - b := by
  show (⟨Float.Model.pack (UnpackedFloat.sub .binary64 b.toModel.unpack a.toModel.unpack)⟩ : Float) =
      -⟨Float.Model.pack (UnpackedFloat.sub .binary64 a.toModel.unpack b.toModel.unpack)⟩ ∨
    (⟨Float.Model.pack (UnpackedFloat.sub .binary64 b.toModel.unpack a.toModel.unpack)⟩ : Float) =
      ⟨Float.Model.pack (UnpackedFloat.sub .binary64 a.toModel.unpack b.toModel.unpack)⟩
  rw [neg_mk_pack]
  rcases Unpacked.sub_swap .binary64 a.toModel.unpack b.toModel.unpack with h | h <;> rw [h]
  · exact .inl rfl
  · exact .inr rfl

/-- A negated double unpacks to the negated value. -/
theorem unpack_neg (x : Float) : (-x).toModel.unpack = x.toModel.unpack.neg := by
  show unpack .binary64 (UnpackedFloat.pack .binary64 x.toModel.unpack.neg) = _
  cases hu : x.toModel.unpack.isNaN with
  | true =>
    cases hx : x.toModel.unpack <;> rw [hx] at hu <;> simp [UnpackedFloat.isNaN] at hu
    rfl
  | false =>
    have hvalid : UnpackedFloat.pack .binary64 x.toModel.unpack = x.toModel.toBits.toBitVec :=
      pack_unpack_of_valid x.toModel.valid
    rw [pack_neg hu, hvalid, unpack_flipSign]
    rfl

/-- Squares, and products of two negated doubles, do not see the signs. -/
theorem mul_neg_neg (x y : Float) : (-x) * (-y) = x * y := by
  show (⟨Float.Model.pack (UnpackedFloat.mul .binary64 (-x).toModel.unpack (-y).toModel.unpack)⟩ : Float) =
    ⟨Float.Model.pack (UnpackedFloat.mul .binary64 x.toModel.unpack y.toModel.unpack)⟩
  rw [unpack_neg, unpack_neg, Unpacked.mul_neg_neg]


/-! ## The exact value of a negated double -/

/-- The bits of a double as a number: sign bit, then 11 exponent bits, then 52 fraction bits. -/
theorem toNat_packComponents (s : Sign) (e : BitVec 11) (m : BitVec 52) :
    (packComponents .binary64 s e m).toNat = s.toBitVec.toNat * 2 ^ 63 + e.toNat * 2 ^ 52 + m.toNat := by
  have he := e.isLt
  have hm := m.isLt
  simp only [packComponents, BitVec.toNat_append]
  rw [← Nat.shiftLeft_add_eq_or_of_lt he, ← Nat.shiftLeft_add_eq_or_of_lt hm, Nat.shiftLeft_eq,
    Nat.shiftLeft_eq]
  ring

/-- The fields `Binary` reads off the bits of a double are the sign, exponent and fraction it was
packed with. -/
theorem fields_of_bits {x : Float} {s : Sign} {e : BitVec 11} {m : BitVec 52}
    (h : x.toModel.toBits.toBitVec = packComponents .binary64 s e m) :
    Binary.fields x = (s == .negative, e.toNat, m.toNat) := by
  have he := e.isLt
  have hm := m.isLt
  have hs : s.toBitVec.toNat < 2 := s.toBitVec.isLt
  have hn : x.toBits.toNat = s.toBitVec.toNat * 2 ^ 63 + e.toNat * 2 ^ 52 + m.toNat := by
    rw [show x.toBits.toNat = x.toModel.toBits.toBitVec.toNat from rfl, h, toNat_packComponents]
  unfold Binary.fields
  simp only [Nat.pow_eq, hn, Prod.mk.injEq]
  refine ⟨?_, by omega, by omega⟩
  cases s <;> simp [Sign.toBitVec] <;> omega


/-- Bits that unpack to NaN have the exponent field all ones. -/
theorem unpackExponent_of_isNaN {b : BitVec Format.binary64.numBits}
    (h : (unpack .binary64 b).isNaN = true) : unpackExponent b = -1#11 := by
  unfold UnpackedFloat.unpack at h
  by_contra hne
  simp only at h
  rw [if_neg hne] at h
  split at h
  · split at h <;> simp [UnpackedFloat.isNaN] at h
  · simp [UnpackedFloat.isNaN] at h

/-- **The exact value of a negated double** is the negated exact value; a NaN or an infinity has
none either way. -/
theorem ofFloat?_neg (x : Float) :
    Binary.ofFloat? (-x) = (Binary.ofFloat? x).map fun b => ⟨-b.mant, b.exp⟩ := by
  have hx := (@packComponents_unpackSign_unpackExponent_unpackMantissa .binary64
    x.toModel.toBits.toBitVec).symm
  have hfx := fields_of_bits hx
  cases hu : x.toModel.unpack.isNaN with
  | true =>
    -- a NaN is negated to the NaN pattern: both have the exponent field all ones
    have hneg : (-x).toModel.toBits.toBitVec =
        packComponents .binary64 .positive (-1#11) (1#52 <<< 51) := by
      show UnpackedFloat.pack .binary64 x.toModel.unpack.neg = _
      cases hxu : x.toModel.unpack <;> rw [hxu] at hu <;> simp [UnpackedFloat.isNaN] at hu
      rfl
    have hexp := unpackExponent_of_isNaN hu
    unfold Binary.ofFloat? Binary.magnitude
    rw [hfx, fields_of_bits hneg, hexp]
    simp
  | false =>
    have hneg : (-x).toModel.toBits.toBitVec = packComponents .binary64
        (-(Sign.ofBitVec (@unpackSign .binary64 x.toModel.toBits.toBitVec)))
        (@unpackExponent .binary64 x.toModel.toBits.toBitVec)
        (@unpackMantissa .binary64 x.toModel.toBits.toBitVec) := by
      show UnpackedFloat.pack .binary64 x.toModel.unpack.neg = _
      have hvalid : UnpackedFloat.pack .binary64 x.toModel.unpack = x.toModel.toBits.toBitVec :=
        pack_unpack_of_valid x.toModel.valid
      rw [pack_neg hu, hvalid]
      rfl
    unfold Binary.ofFloat? Binary.magnitude
    rw [hfx, fields_of_bits hneg]
    clear hx hfx hneg hu
    generalize Sign.ofBitVec (@unpackSign .binary64 x.toModel.toBits.toBitVec) = s
    cases s <;>
      simp only [show -Sign.negative = Sign.positive from rfl,
        show -Sign.positive = Sign.negative from rfl,
        show (Sign.positive == Sign.negative) = false from rfl,
        show (Sign.negative == Sign.negative) = true from rfl] <;>
      split_ifs <;> simp_all


/-! ## Squares and lengths -/

/-- A fused multiply-add of a square does not see the sign of the number squared. -/
theorem fusedMulAdd_neg_self (x c : Float) :
    Float.fusedMulAdd (-x) (-x) c = Float.fusedMulAdd x x c := by
  unfold Float.fusedMulAdd
  rw [ofFloat?_neg, mul_neg_neg]
  cases Binary.ofFloat? x <;> cases Binary.ofFloat? c <;> simp [Binary.mul]

/-- A fused multiply-add of the square of a difference does not see the order of the
difference. -/
theorem fusedMulAdd_sub_swap (a b c : Float) :
    Float.fusedMulAdd (b - a) (b - a) c = Float.fusedMulAdd (a - b) (a - b) c := by
  rcases sub_swap a b with h | h <;> rw [h]
  exact fusedMulAdd_neg_self _ _

end Exploration.Float

namespace Exploration.Vec3

/-- **The length of a difference does not depend on its order**: the distance from `a` to `b`
is the distance from `b` to `a`. -/
theorem norm_sub_comm (a b : Vec3) : (a - b).norm = (b - a).norm := by
  show (Float.fusedMulAdd (a.z - b.z) (a.z - b.z) (Float.fusedMulAdd (a.y - b.y) (a.y - b.y)
      (Float.fusedMulAdd (a.x - b.x) (a.x - b.x) 0))).sqrt =
    (Float.fusedMulAdd (b.z - a.z) (b.z - a.z) (Float.fusedMulAdd (b.y - a.y) (b.y - a.y)
      (Float.fusedMulAdd (b.x - a.x) (b.x - a.x) 0))).sqrt
  rw [Float.fusedMulAdd_sub_swap a.x, Float.fusedMulAdd_sub_swap a.y, Float.fusedMulAdd_sub_swap a.z]

end Exploration.Vec3
