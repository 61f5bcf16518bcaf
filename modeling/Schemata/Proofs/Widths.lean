import Mathlib.Algebra.Group.Nat.Defs
import Mathlib.Tactic.DefEqTransformations
import Schemata.DecimalType

/-!
# The Widths of Decimal Types

When there is a decimal type of a precision and a scale, and how wide it is.

A type without fraction gets a width that is computed from its digits by
rounding to double precision, and a type of no width at all is refused. So
whether a precision is taken, and how its values are held, hangs on that
rounding. All that is needed of it is that it does not fall below an integer
that the exact fraction reaches (`Format.le_nearest`). While the exponent is
negative such an integer is a multiple of the unit that is rounded to. Otherwise
the exponent is chosen from the lengths of the numerator and the denominator,
and a mantissa of that length is greater than the integer by itself.

## Theorems

* `Format.scaled_le`: A fraction keeps a whole part at a small exponent.
* `Format.le_nearest`: Rounding does not fall below an integer.
* `DecimalType.le_bitsForPrecision`: A width that the digits need in any case.
* `DecimalType.bitsForPrecision_pos`: Every number of digits has a width.
* `DecimalType.exists_new_iff`: The precisions and scales that are taken.
-/

namespace Schemata

namespace Format

theorem scaled_pos (num den : Nat) (exponent : Int) (hd : 0 < den) :
    0 < (scaled num den exponent).2 := by
  unfold scaled
  split
  · exact Nat.mul_pos hd (Nat.two_pow_pos _)
  · exact hd

/-- A fraction of at least one keeps a whole part, unless the exponent makes up for its
    length. -/
theorem scaled_le (num den : Nat) (exponent : Int) (hle : den ≤ num) (hd : 0 < den)
    (he : exponent < 0 ∨ exponent < num.log2 - den.log2) :
    (scaled num den exponent).2 ≤ (scaled num den exponent).1 := by
  unfold scaled
  split
  · -- A power at the denominator: the whole part has enough bits to make up for it.
    next hpos =>
      have hlt : exponent < num.log2 - den.log2 := he.resolve_left (Int.not_lt.mpr hpos)
      have hlog : den.log2 + 1 + exponent.toNat ≤ num.log2 := by omega
      calc den * 2 ^ exponent.toNat
          ≤ 2 ^ (den.log2 + 1) * 2 ^ exponent.toNat :=
            Nat.mul_le_mul_right _ (Nat.le_of_lt Nat.lt_log2_self)
        _ = 2 ^ (den.log2 + 1 + exponent.toNat) := (Nat.pow_add 2 _ _).symm
        _ ≤ 2 ^ num.log2 := Nat.pow_le_pow_right Nat.two_pos hlog
        _ ≤ num := Nat.log2_self_le (Nat.ne_of_gt (Nat.lt_of_lt_of_le hd hle))
  · -- A power at the numerator only helps.
    exact Nat.le_trans hle (Nat.le_mul_of_pos_right num (Nat.two_pow_pos _))

theorem exponentFor_le (format : Format) (num den : Nat) :
    format.exponentFor num den ≤
      max ((num.log2 : Int) - den.log2 - format.precision + 1) format.least := by
  unfold exponentFor
  simp only []
  split <;> omega

/-- An integer that a fraction reaches is reached by the nearest integer. -/
theorem le_roundHalfEven {bound num den : Nat} (h : bound * den ≤ num) (hd : 0 < den) :
    bound ≤ roundHalfEven num den := by
  have hq : bound ≤ num / den := (Nat.le_div_iff_mul_le hd).mpr h
  unfold roundHalfEven
  simp only []
  split
  · exact hq
  · exact Nat.le_succ_of_le hq

theorem log2_mul_lt (a b : Nat) (ha : 0 < a) (hb : 0 < b) :
    (a * b).log2 < a.log2 + b.log2 + 2 := by
  rw [Nat.log2_lt (Nat.ne_of_gt (Nat.mul_pos ha hb))]
  calc a * b
      < 2 ^ (a.log2 + 1) * 2 ^ (b.log2 + 1) :=
        Nat.mul_lt_mul'' Nat.lt_log2_self Nat.lt_log2_self
    _ = 2 ^ (a.log2 + b.log2 + 2) := by rw [← Nat.pow_add]; congr 1; omega

/-- The number that a mantissa and an exponent stand for is at least an integer. -/
def Spans (bound mantissa : Nat) (exponent : Int) : Prop :=
  bound * (scaled mantissa 1 (-exponent)).2 ≤ (scaled mantissa 1 (-exponent)).1

/-- It is enough that the mantissa is, in units of the last bit. -/
theorem spans_of_le {bound mantissa : Nat} {exponent : Int}
    (h : bound * 2 ^ (-exponent).toNat ≤ mantissa) : Spans bound mantissa exponent := by
  unfold Spans scaled
  split
  · next hneg =>
      rw [Nat.one_mul]
      exact h
  · next hpos =>
      rw [show (-exponent).toNat = 0 by omega, Nat.pow_zero] at h
      exact Nat.le_trans h (Nat.le_mul_of_pos_right _ (Nat.two_pow_pos _))

section

variable (format : Format) (bound num den : Nat) (hb : 0 < bound)
  (hroom : bound.log2 + 2 < format.precision)

include hb hroom

/-- In units of the last bit an integer that the fraction reaches is reached by the mantissa, if
    the mantissas have room for the integer. -/
theorem le_rounded (hl : format.least < 0) (hd : 0 < den) (hle : bound * den ≤ num)
    (exponent : Int) (he : exponent = format.exponentFor num den) :
    bound * 2 ^ (-exponent).toNat ≤
      roundHalfEven (scaled num den exponent).1 (scaled num den exponent).2 := by
  have hexp := format.exponentFor_le num den
  refine le_roundHalfEven ?_ (scaled_pos num den exponent hd)
  by_cases hneg : exponent < 0
  · -- The last bit stands behind the point, and the bound is scaled with the fraction.
    rw [scaled, if_neg (Int.not_le.mpr hneg)]
    calc bound * 2 ^ (-exponent).toNat * den
        = bound * den * 2 ^ (-exponent).toNat := Nat.mul_right_comm _ _ _
      _ ≤ num * 2 ^ (-exponent).toNat := Nat.mul_le_mul_right _ hle
  · -- The last bit is worth a whole number. The mantissa has room for the bound, so the fraction is
    -- larger than the bound by at least that factor.
    have hlog := log2_mul_lt bound den hb hd
    have hwhole := scaled_le num (bound * den) exponent hle (Nat.mul_pos hb hd) (by omega)
    rw [show (-exponent).toNat = 0 by omega, Nat.pow_zero, Nat.mul_one]
    rw [scaled, if_pos (Int.not_lt.mp hneg)] at hwhole ⊢
    rw [← Nat.mul_assoc]
    exact hwhole

omit hb in
/-- A mantissa that has grown by a bit is halved, and the number stays what it is. -/
theorem spans_half (exponent : Int) (h : bound * 2 ^ (-exponent).toNat ≤ 2 ^ format.precision) :
    Spans bound (2 ^ format.precision / 2) (exponent + 1) := by
  refine spans_of_le ((Nat.le_div_iff_mul_le Nat.two_pos).mpr ?_)
  rw [Nat.mul_assoc, ← Nat.pow_succ]
  by_cases hneg : exponent < 0
  · rw [show (-(exponent + 1)).toNat.succ = (-exponent).toNat by omega]
    exact h
  · rw [show (-(exponent + 1)).toNat.succ = 1 by omega]
    calc bound * 2 ^ 1
        ≤ 2 ^ (bound.log2 + 1) * 2 ^ 1 := Nat.mul_le_mul_right _ (Nat.le_of_lt Nat.lt_log2_self)
      _ = 2 ^ (bound.log2 + 2) := (Nat.pow_add 2 _ 1).symm
      _ ≤ 2 ^ format.precision := Nat.pow_le_pow_right Nat.two_pos (Nat.le_of_lt hroom)

/-- Rounding does not fall below an integer that the fraction reaches, if the mantissas have
    room for the integer. -/
theorem le_nearest (hl : format.least < 0) (hd : 0 < den) (hle : bound * den ≤ num)
    (negative : Bool) (number : Finite) (h : format.nearest negative num den = .finite number) :
    Spans bound number.mantissa number.exponent := by
  have hround := format.le_rounded bound num den hb hroom hl hd hle _ rfl
  -- The check for the greatest exponent comes last and does not touch the number.
  have hspans : ∀ n : Finite, Spans bound n.mantissa n.exponent →
      (if format.greatest < n.exponent then Binary.infinite negative else .finite n) =
        .finite number → Spans bound number.mantissa number.exponent := by
    intro n hn he
    split at he
    · exact nomatch he
    · rw [Binary.finite.injEq] at he
      exact he ▸ hn
  refine hspans _ ?_ h
  generalize format.exponentFor num den = exponent at hround
  split
  · -- Rounding went up to a power of two, which is halved.
    next hgrown =>
      exact format.spans_half bound hroom exponent (Nat.le_trans hround (Nat.le_of_eq hgrown))
  · exact spans_of_le hround

end

end Format

namespace DecimalType

/-- The digits need every width that, as a number of bits, their product with the binary
    logarithm of ten reaches. -/
theorem le_bitsForPrecision (precision bound : Nat) (hb : 0 < bound) (hmax : bound ≤ greatestWidth)
    (h : bound * 2 ^ 51 ≤ precision * log2Ten) : bound ≤ bitsForPrecision precision := by
  have hroom : bound.log2 + 2 < Format.double.precision := by
    have hlog : bound.log2 < 32 :=
      (Nat.log2_lt (Nat.ne_of_gt hb)).mpr (Nat.lt_of_le_of_lt hmax (by decide))
    exact Nat.lt_trans (Nat.add_lt_add_right hlog 2) (by decide)
  -- Unfolded at its argument the definition would have its rounding evaluated, so it is
  -- unfolded as a function.
  have hunfold : ∀ width, width = bitsForPrecision → bound ≤ width precision := by
    intro width hw
    delta bitsForPrecision at hw
    rw [hw]
    beta_reduce
    generalize hn : Format.double.nearest false (precision * log2Ten) (Nat.pow 2 51) = binary
    cases binary with
    | finite number =>
        have hspans := Format.double.le_nearest bound _ _ hb hroom (by decide)
          (Nat.two_pow_pos 51) h false number hn
        have hd := Format.scaled_pos number.mantissa 1 (-number.exponent) Nat.one_pos
        rw [Format.Spans] at hspans
        rcases hs : Format.scaled number.mantissa 1 (-number.exponent) with ⟨n, d⟩
        rw [hs] at hd hspans
        simp only [hs]
        change bound * d ≤ n at hspans
        change 0 < d at hd
        exact Nat.le_min.mpr ⟨(Nat.le_div_iff_mul_le hd).mpr (by omega), hmax⟩
    | infinite negative => exact hmax
    | nan => exact hmax
  exact hunfold _ rfl

/-- Every number of digits has a width. -/
theorem bitsForPrecision_pos (precision : Nat) (h : 0 < precision) :
    0 < bitsForPrecision precision := by
  have hone : 2 ^ 51 ≤ log2Ten := by decide +kernel
  refine le_bitsForPrecision precision 1 Nat.one_pos (by decide) ?_
  rw [Nat.one_mul]
  exact Nat.le_trans hone (Nat.le_mul_of_pos_left log2Ten h)

/-- There is a decimal type exactly if there are digits, and no more behind the point than
    there are. -/
theorem exists_new_iff (precision scale : Nat) :
    (∃ type, new precision scale = .ok type) ↔ 0 < precision ∧ scale ≤ precision := by
  unfold new
  by_cases hs : scale = 0
  · -- Without a scale it is an integer, and the bits are computed from the digits.
    rw [if_pos hs, hs]
    by_cases hp : precision = 0
    · rw [if_pos hp, hp]
      simp only [reduceCtorEq, exists_false, Nat.lt_irrefl, false_and]
    · have hpos := Nat.pos_of_ne_zero hp
      have hbits := Nat.ne_of_gt (bitsForPrecision_pos precision hpos)
      rw [if_neg hp, integer, dif_neg hbits, dif_neg hp]
      exact ⟨fun _ => ⟨hpos, Nat.zero_le _⟩, fun _ => ⟨_, rfl⟩⟩
  · -- With a scale it is a fraction, which refuses no digits and a scale beyond them.
    rw [if_neg hs, fraction, dif_neg hs]
    by_cases hp : precision = 0
    · rw [dif_pos hp, hp]
      simp only [reduceCtorEq, exists_false, Nat.lt_irrefl, false_and]
    · rw [dif_neg hp]
      by_cases hlt : precision < scale
      · rw [dif_pos hlt]
        simp only [reduceCtorEq, exists_false, false_iff, not_and]
        exact fun _ => Nat.not_le_of_lt hlt
      · rw [dif_neg hlt]
        exact ⟨fun _ => ⟨Nat.pos_of_ne_zero hp, Nat.le_of_not_lt hlt⟩, fun _ => ⟨_, rfl⟩⟩

end DecimalType

end Schemata
