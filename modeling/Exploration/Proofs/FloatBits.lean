import Mathlib
import Exploration.Proofs.FloatOrder
import Exploration.Json.Loose

/-!
# Doubles read off their bits

Settings that must be positive are checked by an exact comparison with zero, and the checked
value is then read as a double. This module carries the check over to the doubles: a value that
compares above zero reads as a double above zero as doubles compare (`Value.zero_lt_toReal`).

The argument goes through the bits. A double whose sign bit is clear, whose bits are not all zero
and that is no NaN pattern unpacks to a positive value (`Unpacked.zero_compare_unpack`), so it is
above zero (`Float.zero_lt_of_bits`, and `Float.zero_lt_ofBits` for a double made from bits). A
double compared exactly with zero through its exact binary value has those bits
(`Loose.zero_lt_of_cmpIntFloat`), and so does the double nearest a positive integer, which stands
at a normal significand of 53 bits (`Binary.zero_lt_roundMagnitude`).

A double above zero is a positive finite value or positive infinity (`Float.unpack_of_zero_lt`).
The last lemmas order doubles against each other where one of them may be infinite.

A NaN goes through a division and a floor as a NaN, and a double with an exact binary value is no
NaN, so a quotient whose floor truncates to an integer has a number for its dividend
(`Value.isNaN_eq_false_of_truncate_floor`). Between numbers that are not NaN, a comparison that
finds one not below the other finds it at least the other (`Value.atMost_of_lessThan_eq_false`).
-/

open Float.Model Float.Model.UnpackedFloat

namespace Exploration.Unpacked

theorem sign_of_lt (b : BitVec 64) (h : b.toNat < 2 ^ 63) :
    Sign.ofBitVec (@unpackSign Format.binary64 b) = .positive := by
  rw [unpackSign_def]
  have : (b.extractLsb' (52 + 11) 1) = 0#1 := by
    apply BitVec.eq_of_toNat_eq
    simp only [BitVec.extractLsb'_toNat, BitVec.toNat_ofNat]
    rw [Nat.shiftRight_eq_div_pow]
    omega
  simp [this]
  rfl

/-- Bits with a clear sign bit, not all zero and not a NaN pattern, unpack to a value above
    zero. -/
theorem zero_compare_unpack (b : BitVec 64) (hsign : b.toNat < 2 ^ 63) (hne : b.toNat ≠ 0)
    (hnan : b.toNat / 2 ^ 52 % 2 ^ 11 = 2047 → b.toNat % 2 ^ 52 = 0) :
    (UnpackedFloat.zero .positive).compare (unpack .binary64 b) = some .lt := by
  have hs := sign_of_lt b hsign
  have hexp : (@unpackExponent Format.binary64 b).toNat = b.toNat / 2 ^ 52 % 2 ^ 11 := by
    rw [unpackExponent_def, BitVec.extractLsb'_toNat, Nat.shiftRight_eq_div_pow]
  have hman : (@unpackMantissa Format.binary64 b).toNat = b.toNat % 2 ^ 52 := by
    rw [unpackMantissa_def, BitVec.extractLsb'_toNat, Nat.shiftRight_zero]
  unfold UnpackedFloat.unpack
  simp only [hs]
  split
  · rename_i he
    have he' := congrArg BitVec.toNat he
    rw [hexp] at he'
    simp at he'
    rw [if_pos]
    · rfl
    · apply BitVec.eq_of_toNat_eq
      rw [hman]
      exact hnan he'
  · split
    · rename_i he
      have he' := congrArg BitVec.toNat he
      rw [hexp] at he'
      simp at he'
      split
      · rename_i hm
        have hm' := congrArg BitVec.toNat hm
        rw [hman] at hm'
        simp at hm'
        omega
      · rfl
    · rfl

/-- Bits whose exponent field is all ones only with a zero fraction are no NaN pattern. -/
theorem isNaNBits_eq_false (b : BitVec 64)
    (hnan : b.toNat / 2 ^ 52 % 2 ^ 11 = 2047 → b.toNat % 2 ^ 52 = 0) :
    @isNaNBits Format.binary64 b = false := by
  have hexp : (@unpackExponent Format.binary64 b).toNat = b.toNat / 2 ^ 52 % 2 ^ 11 := by
    rw [unpackExponent_def, BitVec.extractLsb'_toNat, Nat.shiftRight_eq_div_pow]
  have hman : (@unpackMantissa Format.binary64 b).toNat = b.toNat % 2 ^ 52 := by
    rw [unpackMantissa_def, BitVec.extractLsb'_toNat, Nat.shiftRight_zero]
  simp only [isNaNBits, decide_eq_false_iff_not, not_and, not_not]
  intro he
  have he' := congrArg BitVec.toNat he
  rw [hexp] at he'
  apply BitVec.eq_of_toNat_eq
  rw [hman]
  exact hnan (by simpa using he')

end Exploration.Unpacked

namespace Exploration.Float

/-- Bits that are no NaN pattern are kept as they are. -/
theorem unpack_ofBits {w : UInt64} (h : @isNaNBits Format.binary64 w.toBitVec = false) :
    (Float.ofBits w).toModel.unpack = unpack .binary64 w.toBitVec := by
  show unpack .binary64 (UInt64.ofBitVec (UnpackedFloat.pack .binary64 (unpack .binary64 w.toBitVec))).toBitVec = _
  rw [pack_unpack, h]
  rfl

/-- A double whose bits have a clear sign bit, are not all zero and are no NaN pattern is above
    zero. -/
theorem zero_lt_of_bits {x : Float} (hsign : x.toBits.toNat < 2 ^ 63) (hne : x.toBits.toNat ≠ 0)
    (hnan : x.toBits.toNat / 2 ^ 52 % 2 ^ 11 = 2047 → x.toBits.toNat % 2 ^ 52 = 0) : 0.0 < x := by
  rw [Exploration.Float.lt_iff_compare]
  have h0 : (0.0 : Float).toModel.unpack = .zero .positive := rfl
  rw [h0]
  have := Exploration.Unpacked.zero_compare_unpack x.toModel.toBits.toBitVec hsign hne hnan
  simp [Float.Model.unpack, this]

/-- The double of bits with a clear sign bit, not all zero and no NaN pattern is above zero. -/
theorem zero_lt_ofBits {w : UInt64} (hsign : w.toNat < 2 ^ 63) (hne : w.toNat ≠ 0)
    (hnan : w.toNat / 2 ^ 52 % 2 ^ 11 = 2047 → w.toNat % 2 ^ 52 = 0) : 0.0 < Float.ofBits w := by
  rw [Exploration.Float.lt_iff_compare]
  have h0 : (0.0 : Float).toModel.unpack = .zero .positive := rfl
  rw [h0, unpack_ofBits (Exploration.Unpacked.isNaNBits_eq_false _ hnan)]
  simp [Exploration.Unpacked.zero_compare_unpack _ hsign hne hnan]

end Exploration.Float

namespace Exploration.Binary

/-- A normal significand with an exponent in range packs to a double above zero. -/
theorem zero_lt_pack {s : Nat} {u : Int} (hs : 2 ^ 52 ≤ s) (hs' : s < 2 ^ 53) (hu : 1 ≤ u + 1075) :
    0.0 < pack false s u := by
  have hp : Nat.pow 2 52 = 2 ^ 52 := rfl
  unfold pack
  simp only [Bool.false_eq_true, if_false, Nat.zero_add, hp]
  rw [if_neg (by omega)]
  split
  · apply Exploration.Float.zero_lt_ofBits <;> norm_num
  · rename_i hb
    have hX : (u + 1075).toNat * 2 ^ 52 + (s - 2 ^ 52) < 2 ^ 63 := by omega
    apply Exploration.Float.zero_lt_ofBits <;>
      rw [UInt64.toNat_ofNat_of_lt' (by simp [UInt64.size]; omega)] <;> omega

/-- Rounding a quotient by a power of two gives the quotient or one more. -/
theorem shiftRound_bounds (n k : Nat) :
    n / 2 ^ k ≤ shiftRound n k ∧ shiftRound n k ≤ n / 2 ^ k + 1 := by
  unfold shiftRound
  split
  · rename_i hk
    subst hk
    simp
  · have hp : Nat.pow 2 k = 2 ^ k := rfl
    simp only [hp]
    split <;> omega

/-- A whole number from one up rounds to a double above zero: it stands at a normal significand
    of 53 bits, with the binary exponent of its leading bit. -/
theorem zero_lt_roundMagnitude {n : Nat} (hn : 0 < n) : 0.0 < roundMagnitude false n 0 := by
  have hlo : 2 ^ n.log2 ≤ n := Nat.log2_self_le (by omega)
  have hhi : n < 2 ^ (n.log2 + 1) := Nat.lt_log2_self
  have hp : Nat.pow 2 53 = 2 ^ 53 := rfl
  unfold roundMagnitude
  rw [if_neg (by omega)]
  simp only [zero_add, hp]
  have hu : max ((n.log2 : Int) - 52) (-1074) = (n.log2 : Int) - 52 := by omega
  rw [hu]
  split
  · -- the number fits in 53 bits: it is shifted up to a normal significand
    rename_i hle
    have hk : ((0 : Int) - ((n.log2 : Int) - 52)).toNat = 52 - n.log2 := by omega
    rw [hk]
    have hsplit : 2 ^ 52 = 2 ^ n.log2 * 2 ^ (52 - n.log2) := by
      rw [← Nat.pow_add]; congr 1; omega
    have hsplit' : 2 ^ 53 = 2 ^ (n.log2 + 1) * 2 ^ (52 - n.log2) := by
      rw [← Nat.pow_add]; congr 1; omega
    apply zero_lt_pack
    · rw [hsplit]; exact Nat.mul_le_mul_right _ hlo
    · rw [hsplit']; exact Nat.mul_lt_mul_of_pos_right hhi (Nat.two_pow_pos _)
    · omega
  · -- a longer number is rounded to 53 bits
    rename_i hgt
    have hk : ((n.log2 : Int) - 52 - 0).toNat = n.log2 - 52 := by omega
    rw [hk]
    have hsplit : 2 ^ n.log2 = 2 ^ 52 * 2 ^ (n.log2 - 52) := by
      rw [← Nat.pow_add]; congr 1; omega
    have hsplit' : 2 ^ (n.log2 + 1) = 2 ^ 53 * 2 ^ (n.log2 - 52) := by
      rw [← Nat.pow_add]; congr 1; omega
    have hq : 2 ^ 52 ≤ n / 2 ^ (n.log2 - 52) :=
      (Nat.le_div_iff_mul_le (Nat.two_pow_pos _)).2 (hsplit ▸ hlo)
    have hq' : n / 2 ^ (n.log2 - 52) < 2 ^ 53 :=
      (Nat.div_lt_iff_lt_mul (Nat.two_pow_pos _)).2 (hsplit' ▸ hhi)
    have hr := shiftRound_bounds n (n.log2 - 52)
    split
    · exact zero_lt_pack le_rfl (by norm_num) (by omega)
    · exact zero_lt_pack (by omega) (by omega) (by omega)

end Exploration.Binary

namespace Exploration.Loose

/-- The double nearest a positive integer is above zero. -/
theorem zero_lt_intToFloat {n : Int} (hn : 0 < n) : 0.0 < intToFloat n := by
  unfold intToFloat Binary.toFloat
  simp only [show ¬ n < 0 by omega, decide_false]
  exact Binary.zero_lt_roundMagnitude (by omega)

/-- An exact comparison that finds zero below a double finds it above zero as doubles compare:
    the double is a positive infinity, or finite with a clear sign bit and bits not all zero. -/
theorem zero_lt_of_cmpIntFloat {x : Float} (h : cmpIntFloat 0 x = some .lt) : 0.0 < x := by
  unfold cmpIntFloat at h
  split at h
  · cases h
  · cases hb : Binary.ofFloat? x with
    | none =>
      rw [hb] at h
      have hx : (0 : Float) < x := by
        by_contra hx
        simp [hx] at h
      have h0 : (0 : Float) = 0.0 := by decide
      rwa [h0] at hx
    | some b =>
      rw [hb] at h
      have hmant : 0 < b.mant := by
        unfold cmpIntBinary at h
        simp only [Option.some.injEq] at h
        split at h
        · have := Int.compare_eq_lt.mp h
          rcases Int.lt_or_le 0 b.mant with hm | hm
          · exact hm
          · have : b.mant * Int.pow 2 b.exp.toNat ≤ 0 :=
              Int.mul_nonpos_of_nonpos_of_nonneg hm (Int.pow_nonneg (by decide))
            omega
        · have := Int.compare_eq_lt.mp h
          simpa using this
      have hN : x.toBits.toNat < 2 ^ 64 := x.toBits.toNat_lt
      unfold Binary.ofFloat? Binary.magnitude Binary.fields at hb
      simp only [Nat.pow_eq, beq_iff_eq] at hb
      split at hb
      · cases hb
      · rename_i he
        simp only [Option.some.injEq] at hb
        subst hb
        simp only at hmant
        apply Exploration.Float.zero_lt_of_bits
        · by_contra hs
          rw [if_pos (by omega)] at hmant
          split at hmant <;> simp at hmant <;> omega
        · intro h0
          simp [h0] at hmant
        · intro he'; exact absurd he' he

end Exploration.Loose

namespace Exploration.Value

/-- **A setting checked positive is a double above zero.** A value that compares above zero
    exactly (an integer, a truth value or a double) reads as a double above zero. -/
theorem zero_lt_toReal {v : Value} {x : Float} (hpos : Value.lessThan (.int 0) v = .ok true)
    (hx : v.toReal = .ok x) : 0.0 < x := by
  cases v with
  | int n =>
    have hn : 0 < n := by
      simp [Value.lessThan, numeric?, Numeric.compare?] at hpos
      exact Int.compare_eq_lt.mp hpos
    simp only [toReal] at hx
    split at hx
    · cases hx
    · cases hx
      exact Loose.zero_lt_intToFloat hn
  | bool b =>
    cases b with
    | false => simp [Value.lessThan, numeric?, Numeric.compare?] at hpos
    | true =>
      simp only [toReal, if_true, Except.ok.injEq] at hx
      subst hx
      decide
  | num y =>
    simp only [toReal, Except.ok.injEq] at hx
    subst hx
    simp only [Value.lessThan, numeric?, Numeric.compare?, Except.ok.injEq, beq_iff_eq] at hpos
    exact Loose.zero_lt_of_cmpIntFloat hpos
  | str s => simp [Value.lessThan, numeric?] at hpos
  | null => simp [Value.lessThan, numeric?] at hpos
  | list xs => simp [Value.lessThan, numeric?] at hpos
  | dict kvs => simp [Value.lessThan, numeric?] at hpos

end Exploration.Value

namespace Exploration.Float

/-- A double above zero is a positive finite value or positive infinity. -/
theorem unpack_of_zero_lt {s : Float} (h : 0.0 < s) :
    (∃ m e hm, s.toModel.unpack = .finite .positive m e hm) ∨
      s.toModel.unpack = .infinity .positive := by
  rw [lt_iff_compare] at h
  have h0 : (0.0 : Float).toModel.unpack = .zero .positive := rfl
  rw [h0] at h
  cases hs : s.toModel.unpack with
  | finite t m e hm =>
    rw [hs] at h
    cases t with
    | positive => exact .inl ⟨m, e, hm, rfl⟩
    | negative => simp [UnpackedFloat.compare] at h
  | infinity t =>
    rw [hs] at h
    cases t with
    | positive => exact .inr rfl
    | negative => simp [UnpackedFloat.compare] at h
  | zero t => rw [hs] at h; simp [UnpackedFloat.compare] at h
  | notANumber => rw [hs] at h; simp [UnpackedFloat.compare] at h

theorem isNaN_eq_false_of_le {a b : Float} (h : a ≤ b) : a.isNaN = false ∧ b.isNaN = false := by
  rw [le_iff_compare] at h
  constructor
  · change a.toModel.unpack.isNaN = false
    cases hu : a.toModel.unpack with
    | notANumber =>
      rw [hu] at h
      simp [UnpackedFloat.compare] at h
    | _ => rfl
  · change b.toModel.unpack.isNaN = false
    cases hu : b.toModel.unpack with
    | notANumber =>
      rw [hu] at h
      cases ha : a.toModel.unpack <;> rw [ha] at h <;> simp [UnpackedFloat.compare] at h
    | _ => rfl

theorem lt_of_lt_of_le {a b c : Float} (hab : a < b) (hbc : b ≤ c) : a < c := by
  obtain ⟨ha, hb⟩ := isNaN_eq_false_of_lt hab
  obtain ⟨-, hc⟩ := isNaN_eq_false_of_le hbc
  rw [lt_iff_rank_lt ha hb] at hab
  rw [le_iff_rank_le hb hc] at hbc
  exact (lt_iff_rank_lt ha hc).2 (hab.trans_le hbc)

/-- Positive infinity is the last double in the order. -/
theorem rank_le_inf {x : Float} (hx : x.isNaN = false) : rank x ≤ rank ((1.0 : Float) / 0.0) := by
  have hinf : ((1.0 : Float) / 0.0).toModel.unpack = .infinity .positive := by rfl
  change x.toModel.unpack.isNaN = false at hx
  simp only [rank, hinf]
  cases hu : x.toModel.unpack with
  | notANumber => rw [hu] at hx; simp [UnpackedFloat.isNaN] at hx
  | infinity s => cases s <;> simp [Unpacked.rank, Prod.Lex.le_iff]
  | zero s => simp [Unpacked.rank, Prod.Lex.le_iff]
  | finite s m e hm => cases s <;> simp [Unpacked.rank, Prod.Lex.le_iff]

/-- A double that is not below positive infinity is below nothing. -/
theorem not_lt_of_not_lt_inf {t x : Float} (ht : t.isNaN = false) (h : ¬ t < (1.0 : Float) / 0.0) :
    ¬ t < x := by
  intro htx
  obtain ⟨-, hx⟩ := isNaN_eq_false_of_lt htx
  have hinf : ((1.0 : Float) / 0.0).isNaN = false := by decide
  rw [lt_iff_rank_lt ht hinf] at h
  rw [lt_iff_rank_lt ht hx] at htx
  exact h (htx.trans_le (rank_le_inf hx))

end Exploration.Float

namespace Exploration.Float

/-- A NaN divided by anything is a NaN. -/
theorem isNaN_div {a : Float} (b : Float) (ha : a.isNaN = true) : (a / b).isNaN = true := by
  have hu : a.toModel.unpack = .notANumber := by
    revert ha
    show a.toModel.unpack.isNaN = true → _
    cases a.toModel.unpack <;> simp [UnpackedFloat.isNaN]
  have hdiv : ∀ u, UnpackedFloat.div .binary64 .notANumber u = .notANumber := by
    intro u
    cases u <;> rfl
  show (Float.Model.pack (UnpackedFloat.div .binary64 a.toModel.unpack b.toModel.unpack)).isNaN = true
  rw [hu, hdiv]
  rfl

/-- A double whose exponent field is not all ones is no NaN. -/
theorem isNaN_eq_false_of_exponent {x : Float} (h : x.toBits.toNat / 2 ^ 52 % 2 ^ 11 ≠ 2047) :
    x.isNaN = false := by
  have hexp : (@unpackExponent Format.binary64 x.toModel.toBits.toBitVec).toNat =
      x.toBits.toNat / 2 ^ 52 % 2 ^ 11 := by
    rw [unpackExponent_def, BitVec.extractLsb'_toNat, Nat.shiftRight_eq_div_pow]
    rfl
  show (unpack .binary64 x.toModel.toBits.toBitVec).isNaN = false
  unfold UnpackedFloat.unpack
  rw [if_neg]
  · split_ifs <;> rfl
  · intro he
    have := congrArg BitVec.toNat he
    rw [hexp] at this
    exact h (by simpa using this)

/-- Two doubles that compare equal are no NaN. -/
theorem isNaN_eq_false_of_beq {a b : Float} (h : (a == b) = true) : a.isNaN = false := by
  change (a.toModel.unpack.compare b.toModel.unpack == some .eq) = true at h
  change a.toModel.unpack.isNaN = false
  cases hu : a.toModel.unpack with
  | notANumber =>
    rw [hu] at h
    simp [UnpackedFloat.compare] at h
  | _ => rfl

end Exploration.Float

namespace Exploration.Binary

/-- A double with an exact binary value is no NaN. -/
theorem isNaN_eq_false_of_ofFloat? {x : Float} {b : Binary} (h : ofFloat? x = some b) :
    x.isNaN = false := by
  apply Exploration.Float.isNaN_eq_false_of_exponent
  intro he
  have hf : (fields x).2.1 = 2047 := he
  unfold ofFloat? at h
  obtain ⟨s, e, f⟩ := fields x
  dsimp only at hf h
  rw [if_pos hf] at h
  cases h

/-- The floor of a NaN is a NaN: a double whose floor is no NaN is none. -/
theorem isNaN_eq_false_of_floor {x : Float} (h : (floor x).isNaN = false) : x.isNaN = false := by
  unfold floor at h
  cases hx : ofFloat? x with
  | none => simpa [hx] using h
  | some b => exact isNaN_eq_false_of_ofFloat? hx

end Exploration.Binary

namespace Exploration.Value

/-- A double that truncates to an integer is no NaN. -/
theorem isNaN_eq_false_of_truncate {x : Float} {n : Int} (h : truncate x = .ok n) :
    x.isNaN = false := by
  unfold truncate at h
  cases hx : x.isNaN
  · rfl
  · rw [if_pos hx] at h
    cases h

/-- **A length cut into whole steps is a number.** Where the floor of `d / e` truncates to an
integer, `d` is no NaN. -/
theorem isNaN_eq_false_of_truncate_floor {d e : Float} {n : Int}
    (h : truncate (Binary.floor (d / e)) = .ok n) : d.isNaN = false := by
  have hq : (d / e).isNaN = false := Binary.isNaN_eq_false_of_floor (isNaN_eq_false_of_truncate h)
  cases hd : d.isNaN
  · rfl
  · rw [Float.isNaN_div e hd] at hq
    cases hq

/-- An integer and a double that is no NaN compare. -/
theorem cmpIntFloat_isSome (n : Int) {d : Float} (hd : d.isNaN = false) :
    ∃ o, Loose.cmpIntFloat n d = some o := by
  unfold Loose.cmpIntFloat
  simp only [hd, Bool.false_eq_true, if_false]
  split
  · exact ⟨_, rfl⟩
  · exact ⟨_, rfl⟩

/-- A double comparable with itself is no NaN. -/
theorem isNaN_eq_false_of_atMost_self {y : Float} (h : (Value.num y).atMost (.num y) = .ok true) :
    y.isNaN = false := by
  simp only [atMost, numeric?, Numeric.compare?, Except.ok.injEq] at h
  by_cases hlt : y < y
  · exact (Float.isNaN_eq_false_of_lt hlt).1
  · simp only [hlt, if_false] at h
    by_cases hbeq : (y == y) = true
    · exact Float.isNaN_eq_false_of_beq hbeq
    · simp [hbeq] at h

/-- **Not above is at most.** A setting comparable with itself that is not below a double `d`,
no NaN, is at least `d`. -/
theorem atMost_num_of_lessThan_eq_false {a : Value} {d : Float} (hd : d.isNaN = false)
    (ha : a.atMost a = .ok true) (h : a.lessThan (.num d) = .ok false) :
    (Value.num d).atMost a = .ok true := by
  cases a with
  | num y =>
    have hy := isNaN_eq_false_of_atMost_self ha
    simp only [lessThan, numeric?, Numeric.compare?, Except.ok.injEq] at h
    simp only [atMost, numeric?, Numeric.compare?, Except.ok.injEq]
    by_cases hdy : d < y
    · simp [hdy]
    · have hyd : ¬ y < d := fun hyd => by simp [hyd] at h
      simp [hdy, hyd, Float.beq_of_not_lt hd hy hdy hyd]
  | int n =>
    obtain ⟨o, ho⟩ := cmpIntFloat_isSome n hd
    simp only [lessThan, numeric?, Numeric.compare?, ho, Except.ok.injEq] at h
    simp only [atMost, numeric?, Numeric.compare?, ho, Except.ok.injEq]
    cases o <;> simp_all [Ordering.swap]
  | bool b =>
    obtain ⟨o, ho⟩ := cmpIntFloat_isSome (if b then 1 else 0) hd
    simp only [lessThan, numeric?, Numeric.compare?, ho, Except.ok.injEq] at h
    simp only [atMost, numeric?, Numeric.compare?, ho, Except.ok.injEq]
    cases o <;> simp_all [Ordering.swap]
  | _ => simp [lessThan, numeric?] at h

/-- **Not below is at least.** A setting comparable with itself that a double `d`, no NaN, is not
below is at most `d`. -/
theorem atMost_of_lessThan_num_eq_false {a : Value} {d : Float} (hd : d.isNaN = false)
    (ha : a.atMost a = .ok true) (h : (Value.num d).lessThan a = .ok false) :
    a.atMost (.num d) = .ok true := by
  cases a with
  | num y =>
    have hy := isNaN_eq_false_of_atMost_self ha
    simp only [lessThan, numeric?, Numeric.compare?, Except.ok.injEq] at h
    simp only [atMost, numeric?, Numeric.compare?, Except.ok.injEq]
    by_cases hyd : y < d
    · simp [hyd]
    · have hdy : ¬ d < y := fun hdy => by simp [hdy] at h
      simp [hdy, hyd, Float.beq_of_not_lt hy hd hyd hdy]
  | int n =>
    obtain ⟨o, ho⟩ := cmpIntFloat_isSome n hd
    simp only [lessThan, numeric?, Numeric.compare?, ho, Except.ok.injEq] at h
    simp only [atMost, numeric?, Numeric.compare?, ho, Except.ok.injEq]
    cases o <;> simp_all [Ordering.swap]
  | bool b =>
    obtain ⟨o, ho⟩ := cmpIntFloat_isSome (if b then 1 else 0) hd
    simp only [lessThan, numeric?, Numeric.compare?, ho, Except.ok.injEq] at h
    simp only [atMost, numeric?, Numeric.compare?, ho, Except.ok.injEq]
    cases o <;> simp_all [Ordering.swap]
  | _ => simp [lessThan, numeric?] at h

end Exploration.Value
