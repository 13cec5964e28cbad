import Mathlib

/-!
# The order of doubles, and the doubles that are never NaN

The nearest-point searches of this library sort candidates by a double distance. Two facts
about doubles make such a sort mean "nearest first":

1. **Order.** Away from NaN, the comparisons `<`, `≤` and `==` of doubles are those of one
   linear order. `Unpacked.rank` places every double that is not NaN in a lexicographic order
   (class, then exponent, then mantissa, read backwards for negative numbers), and
   `Float.lt_iff_rank_lt`, `Float.le_iff_rank_le` and `Float.beq_iff_rank_eq` read the three
   comparisons off it. Both zeros share one place, as `0.0 == -0.0` says.
2. **No NaN.** A distance is a square root of a sum of squares of differences of finite
   coordinates. A difference of finite doubles has a sign (`exists_hasSign_sub`), a square is
   never below zero (`hasSign_mul_self`), and sums and square roots of values not below zero
   stay so (`hasSign_add`, `hasSign_sqrt`); packing a result into its 64 bits keeps its sign
   (`hasSign_unpack_pack`). So such a distance is `Float.NonNeg`, and in particular not NaN.

Everything is read off the logical model of doubles (`Float.Model`, `UnpackedFloat`), whose
operations unpack their arguments, compute, and pack the result.
-/

open Float.Model Float.Model.UnpackedFloat

namespace Exploration

namespace Unpacked

/-! ## The order of unpacked doubles -/

/-- The place of an unpacked double in the order of doubles: negative infinity, the negative
    numbers (larger exponent, then larger mantissa, first), the zeros, the positive numbers,
    positive infinity. NaN, which no comparison orders, is put last. -/
def rank : UnpackedFloat → ℕ ×ₗ ℤ ×ₗ ℤ
  | .infinity .negative => toLex (0, toLex (0, 0))
  | .finite .negative m e _ => toLex (1, toLex (-e, -(m : ℤ)))
  | .zero _ => toLex (2, toLex (0, 0))
  | .finite .positive m e _ => toLex (3, toLex (e, m))
  | .infinity .positive => toLex (4, toLex (0, 0))
  | .notANumber => toLex (5, toLex (0, 0))

theorem compare_toLex {α β : Type} [LinearOrder α] [LinearOrder β] (a c : α) (b d : β) :
    compare (toLex (a, b)) (toLex (c, d)) = (compare a c).then (compare b d) := rfl

theorem compare_neg_neg (a b : ℤ) : compare (-a) (-b) = (compare a b).swap := by
  rcases lt_trichotomy a b with h | rfl | h
  · rw [compare_gt_iff_gt.2 (show -b < -a by omega), compare_lt_iff_lt.2 h]; rfl
  · simp
  · rw [compare_lt_iff_lt.2 (show -a < -b by omega), compare_gt_iff_gt.2 h]; rfl

theorem compare_natCast (m n : ℕ) : compare (m : ℤ) (n : ℤ) = compare m n := by
  rcases lt_trichotomy m n with h | rfl | h
  · rw [compare_lt_iff_lt.2 h, compare_lt_iff_lt.2 (by exact_mod_cast h)]
  · simp
  · rw [compare_gt_iff_gt.2 h, compare_gt_iff_gt.2 (by exact_mod_cast h)]

/-- **The comparison of doubles is the comparison of their ranks**, for doubles that are not
    NaN. Finite numbers of one sign compare by exponent and then mantissa, which the rank keeps
    (backwards for negative numbers, whose comparison the model swaps). -/
theorem compare_eq_rank {a b : UnpackedFloat} (ha : a.isNaN = false) (hb : b.isNaN = false) :
    a.compare b = some (compare (rank a) (rank b)) := by
  cases a with
  | notANumber => simp [UnpackedFloat.isNaN] at ha
  | infinity s =>
    cases b with
    | notANumber => simp [UnpackedFloat.isNaN] at hb
    | infinity t => cases s <;> cases t <;> rfl
    | zero t => cases s <;> rfl
    | finite t m e hm => cases s <;> cases t <;> rfl
  | zero s =>
    cases b with
    | notANumber => simp [UnpackedFloat.isNaN] at hb
    | infinity t => cases t <;> rfl
    | zero t => rfl
    | finite t m e hm => cases t <;> rfl
  | finite s m e hm =>
    cases b with
    | notANumber => simp [UnpackedFloat.isNaN] at hb
    | infinity t => cases s <;> cases t <;> rfl
    | zero t => cases s <;> rfl
    | finite t n f hn =>
      cases s <;> cases t
      · -- two negative numbers: the model swaps the comparison of (exponent, mantissa)
        simp only [UnpackedFloat.compare, rank, compare_toLex]
        simp [compare_neg_neg, compare_natCast, Ordering.swap_then]
      · rfl
      · rfl
      · simp only [UnpackedFloat.compare, rank, compare_toLex]
        simp [compare_natCast]

/-! ## Signs that survive the operations -/

/-- `HasSign s u`: `u` is not NaN, and unless it is a zero its sign is `s`. A zero has either
    sign, so a value not below zero is one with `HasSign .positive`. -/
def HasSign (s : Sign) : UnpackedFloat → Prop
  | .infinity t => t = s
  | .finite t .. => t = s
  | .zero _ => True
  | .notANumber => False

theorem HasSign.isNaN_eq_false {s : Sign} {u : UnpackedFloat} (h : HasSign s u) :
    u.isNaN = false := by
  cases u <;> simp_all [HasSign, UnpackedFloat.isNaN]

/-- The sign bit of a packed double is the sign it was packed with. -/
theorem unpackSign_packComponents (s : Sign) (e : BitVec 11) (m : BitVec 52) :
    Sign.ofBitVec (unpackSign (packComponents .binary64 s e m)) = s := by
  simp only [unpackSign, packComponents, BitVec.extractLsb]
  rw [BitVec.extractLsb'_append_eq_of_le (by omega), BitVec.extractLsb'_append_eq_of_le (by omega)]
  cases s <;> rfl

/-- Bits whose exponent field is all ones only with a zero fraction unpack to a value of the
    sign they carry: the only NaN patterns are excluded. -/
theorem hasSign_unpack_packComponents (s : Sign) (e : BitVec 11) (m : BitVec 52)
    (h : e = -1#11 → m = 0#52) :
    HasSign s (unpack .binary64 (packComponents .binary64 s e m)) := by
  rw [UnpackedFloat.unpack]
  simp only [unpackMantissa_packComponents, unpackExponent_packComponents,
    unpackSign_packComponents]
  split
  · rename_i he
    rw [if_pos (h he)]
    rfl
  · split
    · split <;> trivial
    · rfl

/-- **Packing keeps the sign.** A value with a sign is packed into bits that unpack to a value
    of that sign: an overflow becomes the infinity of its sign, and a normal number never fills
    the exponent field. -/
theorem hasSign_unpack_pack {s : Sign} {u : UnpackedFloat} (h : HasSign s u) :
    HasSign s (unpack .binary64 (UnpackedFloat.pack .binary64 u)) := by
  cases u with
  | notANumber => exact absurd h id
  | infinity t =>
    cases h
    exact hasSign_unpack_packComponents _ _ _ fun _ => rfl
  | zero t => cases t <;> exact trivial
  | finite t m e hm =>
    cases h
    rw [UnpackedFloat.pack]
    simp only
    split
    · exact hasSign_unpack_packComponents _ _ _ fun _ => rfl
    · split
      · -- normal: the biased exponent is below the all-ones pattern
        apply hasSign_unpack_packComponents
        intro he
        rename_i hover _
        have := congrArg BitVec.toNat he
        simp [BitVec.toNat_ofNat] at this hover
        omega
      · exact hasSign_unpack_packComponents _ _ _ fun he => absurd he (by decide)

/-- Rounding keeps the sign it is given. -/
theorem hasSign_roundWithAccuracy (spec : Format) (s : Sign) (m : Nat) (e : Int)
    (acc : Accuracy) : HasSign s (roundWithAccuracy spec s m e acc) := by
  unfold roundWithAccuracy
  simp only
  split
  · trivial
  · rfl

theorem hasSign_normalize_pos (spec : Format) {m : Int} (hm : 0 < m) (e : Int) (z : Sign) :
    HasSign .positive (normalize spec m e z) := by
  unfold UnpackedFloat.normalize
  split
  · rename_i h; have := Int.compare_eq_lt.mp h; omega
  · rename_i h; have := Int.compare_eq_eq.mp h; omega
  · exact hasSign_roundWithAccuracy _ _ _ _ _

/-- A difference of finite values has a sign: it is never NaN. -/
theorem exists_hasSign_sub (spec : Format) {a b : UnpackedFloat} (ha : a.isFinite = true)
    (hb : b.isFinite = true) : ∃ s, HasSign s (UnpackedFloat.sub spec a b) := by
  cases a <;> cases b <;> simp_all [UnpackedFloat.isFinite]
  case zero.zero s t => exact ⟨.positive, by simp only [UnpackedFloat.sub]; split <;> trivial⟩
  case zero.finite s t m e hm => exact ⟨-t, rfl⟩
  case finite.zero s m e hm t => exact ⟨s, rfl⟩
  case finite.finite s m e hm t n f hn =>
    simp only [UnpackedFloat.sub]
    unfold UnpackedFloat.normalize
    split
    · exact ⟨_, hasSign_roundWithAccuracy _ _ _ _ _⟩
    · exact ⟨.positive, trivial⟩
    · exact ⟨_, hasSign_roundWithAccuracy _ _ _ _ _⟩

/-- A value times itself is not below zero, unless it is NaN. -/
theorem hasSign_mul_self (spec : Format) {a : UnpackedFloat} (ha : a.isNaN = false) :
    HasSign .positive (UnpackedFloat.mul spec a a) := by
  cases a with
  | notANumber => simp [UnpackedFloat.isNaN] at ha
  | infinity s => cases s <;> rfl
  | zero s => trivial
  | finite s m e hm => cases s <;> exact hasSign_roundWithAccuracy _ _ _ _ _

/-- A sum of values not below zero is not below zero (no `∞ - ∞` can arise). -/
theorem hasSign_add (spec : Format) {a b : UnpackedFloat} (ha : HasSign .positive a)
    (hb : HasSign .positive b) : HasSign .positive (UnpackedFloat.add spec a b) := by
  cases a <;> cases b <;> simp_all [HasSign]
  case infinity.infinity => exact rfl
  case infinity.zero => rfl
  case infinity.finite => rfl
  case zero.infinity => rfl
  case zero.zero s t => simp only [UnpackedFloat.add]; split_ifs <;> trivial
  case zero.finite => rfl
  case finite.infinity => rfl
  case finite.zero => rfl
  case finite.finite _ m e hm _ n f hn =>
    -- two positive mantissas aligned to the smaller exponent add to a positive one
    simp only [UnpackedFloat.add]
    apply hasSign_normalize_pos
    simp only [Sign.apply, decreaseExponent, Nat.shiftLeft_eq]
    have : 0 < m * 2 ^ (e - min e f).toNat := Nat.mul_pos hm (Nat.two_pow_pos _)
    omega

/-- The square root of a value not below zero is not below zero. -/
theorem hasSign_sqrt (spec : Format) {a : UnpackedFloat} (ha : HasSign .positive a) :
    HasSign .positive (UnpackedFloat.sqrt spec a) := by
  cases a with
  | notANumber => exact absurd ha id
  | infinity s => cases ha; rfl
  | zero s => trivial
  | finite s m e hm => cases ha; exact hasSign_roundWithAccuracy _ _ _ _ _

end Unpacked

namespace Float

/-! ## Doubles -/

/-- The place of a double in the order of doubles (see `Unpacked.rank`). -/
def rank (x : Float) : ℕ ×ₗ ℤ ×ₗ ℤ := Unpacked.rank x.toModel.unpack

theorem compare_eq_rank {a b : Float} (ha : a.isNaN = false) (hb : b.isNaN = false) :
    a.toModel.unpack.compare b.toModel.unpack = some (compare (rank a) (rank b)) :=
  Unpacked.compare_eq_rank ha hb

theorem lt_iff_compare {a b : Float} :
    a < b ↔ (a.toModel.unpack.compare b.toModel.unpack == some .lt) = true := by
  show Float.lt a b = true ↔ _
  simp only [Float.lt, decide_eq_true_iff]
  rfl

theorem le_iff_compare {a b : Float} :
    a ≤ b ↔ (a.toModel.unpack.compare b.toModel.unpack).any (·.isLE) = true := by
  show Float.le a b = true ↔ _
  simp only [Float.le, decide_eq_true_iff]
  rfl

theorem lt_iff_rank_lt {a b : Float} (ha : a.isNaN = false) (hb : b.isNaN = false) :
    a < b ↔ rank a < rank b := by
  rw [lt_iff_compare, compare_eq_rank ha hb]
  simp [compare_lt_iff_lt]

theorem le_iff_rank_le {a b : Float} (ha : a.isNaN = false) (hb : b.isNaN = false) :
    a ≤ b ↔ rank a ≤ rank b := by
  rw [le_iff_compare, compare_eq_rank ha hb]
  simp [Ordering.isLE_iff_ne_gt, compare_gt_iff_gt]

theorem beq_iff_rank_eq {a b : Float} (ha : a.isNaN = false) (hb : b.isNaN = false) :
    (a == b) = true ↔ rank a = rank b := by
  show (a.toModel.unpack.compare b.toModel.unpack == some .eq) = true ↔ _
  rw [compare_eq_rank ha hb]
  simp [compare_eq_iff_eq]

/-- Only doubles that are not NaN are compared: a NaN is below nothing and above nothing. -/
theorem isNaN_eq_false_of_lt {a b : Float} (h : a < b) : a.isNaN = false ∧ b.isNaN = false := by
  rw [lt_iff_compare] at h
  constructor
  · change a.toModel.unpack.isNaN = false
    cases hu : a.toModel.unpack with
    | notANumber =>
      rw [hu] at h
      simp [UnpackedFloat.compare] at h
    | _ => rfl
  · change b.toModel.unpack.isNaN = false
    cases hu : b.toModel.unpack with
    | notANumber =>
      rw [hu] at h
      cases ha : a.toModel.unpack <;> rw [ha] at h <;> simp [UnpackedFloat.compare] at h
    | _ => rfl

theorem not_lt_self (a : Float) : ¬ a < a := by
  intro h
  obtain ⟨ha, -⟩ := isNaN_eq_false_of_lt h
  exact (lt_irrefl (rank a)) ((lt_iff_rank_lt ha ha).1 h)

theorem lt_trans {a b c : Float} (hab : a < b) (hbc : b < c) : a < c := by
  obtain ⟨ha, hb⟩ := isNaN_eq_false_of_lt hab
  obtain ⟨-, hc⟩ := isNaN_eq_false_of_lt hbc
  rw [lt_iff_rank_lt ha hb] at hab
  rw [lt_iff_rank_lt hb hc] at hbc
  exact (lt_iff_rank_lt ha hc).2 (hab.trans hbc)

/-- Away from NaN, a double not below another is at least as large. -/
theorem le_of_not_lt {a b : Float} (ha : a.isNaN = false) (hb : b.isNaN = false) (h : ¬ a < b) :
    b ≤ a := by
  rw [lt_iff_rank_lt ha hb] at h
  exact (le_iff_rank_le hb ha).2 (not_lt.1 h)

/-- Away from NaN, "not below" is transitive. -/
theorem not_lt_trans {a b c : Float} (ha : a.isNaN = false) (hb : b.isNaN = false)
    (hc : c.isNaN = false) (hab : ¬ b < a) (hbc : ¬ c < b) : ¬ c < a := by
  rw [lt_iff_rank_lt hb ha] at hab
  rw [lt_iff_rank_lt hc hb] at hbc
  rw [lt_iff_rank_lt hc ha]
  exact not_lt.2 ((not_lt.1 hab).trans (not_lt.1 hbc))

/-- Away from NaN, a double not above one below a third is below the third. -/
theorem lt_of_not_lt_of_lt {a b c : Float} (ha : a.isNaN = false) (hb : b.isNaN = false)
    (hc : c.isNaN = false) (hab : ¬ b < a) (hbc : b < c) : a < c := by
  rw [lt_iff_rank_lt hb ha] at hab
  rw [lt_iff_rank_lt hb hc] at hbc
  exact (lt_iff_rank_lt ha hc).2 (lt_of_le_of_lt (not_lt.1 hab) hbc)

theorem not_le_of_lt {a b : Float} (h : a < b) : ¬ b ≤ a := by
  obtain ⟨ha, hb⟩ := isNaN_eq_false_of_lt h
  rw [lt_iff_rank_lt ha hb] at h
  rw [le_iff_rank_le hb ha]
  exact not_le.2 h

theorem le_of_lt {a b : Float} (h : a < b) : a ≤ b := by
  obtain ⟨ha, hb⟩ := isNaN_eq_false_of_lt h
  rw [lt_iff_rank_lt ha hb] at h
  exact (le_iff_rank_le ha hb).2 h.le

/-- Away from NaN, two doubles neither below the other are equal as doubles compare. -/
theorem beq_of_not_lt {a b : Float} (ha : a.isNaN = false) (hb : b.isNaN = false)
    (hab : ¬ a < b) (hba : ¬ b < a) : (a == b) = true := by
  rw [lt_iff_rank_lt ha hb] at hab
  rw [lt_iff_rank_lt hb ha] at hba
  exact (beq_iff_rank_eq ha hb).2 (le_antisymm (not_lt.1 hba) (not_lt.1 hab))

/-- A double that is not NaN and not below zero. -/
def NonNeg (x : Float) : Prop := Unpacked.HasSign .positive x.toModel.unpack

theorem NonNeg.isNaN_eq_false {x : Float} (h : NonNeg x) : x.isNaN = false :=
  Unpacked.HasSign.isNaN_eq_false h

theorem nonNeg_zero : NonNeg (0.0 : Float) := by
  have h : (0.0 : Float).toModel.unpack = .zero .positive := rfl
  simp only [NonNeg, h]
  trivial

theorem nonNeg_add {a b : Float} (ha : NonNeg a) (hb : NonNeg b) : NonNeg (a + b) :=
  Unpacked.hasSign_unpack_pack (Unpacked.hasSign_add _ ha hb)

theorem nonNeg_sqrt {a : Float} (ha : NonNeg a) : NonNeg a.sqrt :=
  Unpacked.hasSign_unpack_pack (Unpacked.hasSign_sqrt _ ha)

/-- The square of a difference of finite doubles is not below zero. -/
theorem nonNeg_sub_mul_self {a b : Float} (ha : a.isFinite = true) (hb : b.isFinite = true) :
    NonNeg ((a - b) * (a - b)) := by
  obtain ⟨s, hs⟩ := Unpacked.exists_hasSign_sub .binary64 ha hb
  have hd : Unpacked.HasSign s (a - b).toModel.unpack := Unpacked.hasSign_unpack_pack hs
  exact Unpacked.hasSign_unpack_pack (Unpacked.hasSign_mul_self _ hd.isNaN_eq_false)

end Float

end Exploration
