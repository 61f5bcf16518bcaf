import Schemata.Proofs.DecimalTypes

/-!
# The Cost of Scaling

How large a power of ten is computed to bring a decimal to the scale of a type.

A literal of a few characters can have an exponent whose power of ten fits into no
memory. So digits are counted before anything is computed
(`DecimalType.screen`). The first count refuses decimals with too many digits in
front of the point, and bounds the zeros that are added. The second one refuses
decimals of which no digit would be left, and bounds the digits that are cut. Only
both together bound the power of ten, whichever way the scale moves: it has no more
zeros than the type has digits or the mantissa has them already
(`DecimalType.screen_eq_ok_iff`, `DecimalType.factor_lt`). Differences of scales
stop at the ends of 64 bits, which changes neither count
(`DecimalType.withinReach`).

A literal has no more digits than characters, so what the mantissa has already is
paid for by the text, and can be counted in 64 bits
(`Decimal.Literal.digitCount_le`).

## Main definitions

* `Decimal.factor`: The power of ten between a decimal and a scale.
* `DecimalType.screen`: The counts of digits that come first.
* `DecimalType.Moderate`: What holds of a decimal that is brought to the scale.

## Theorems

* `Decimal.digitCount_rescale_le`: The digits at another scale.
* `DecimalType.fit_eq_screen`: The counts come before the arithmetic.
* `DecimalType.screen_eq_ok_iff`: What passes the counts.
* `DecimalType.not_holdsExact_of_screen`: What they refuse does not fit.
* `DecimalType.fit_without_expansion`: The cost is bounded, and nothing is lost
  for it.
-/

namespace Schemata

namespace Decimal

/-! ### Digits at another scale -/

section

variable (d : Decimal) (scale : Int)

/-- The power of ten between a decimal and a scale. -/
def factor : Nat :=
  10 ^ (scale - d.scale).natAbs

/-- The mantissa is multiplied by the power of ten, or divided by it. -/
theorem rescale_eq : d.rescale scale =
    if d.scale ≤ scale then ⟨d.mantissa * d.factor scale, scale⟩
    else ⟨d.mantissa.tdiv (d.factor scale), scale⟩ := by
  rw [rescale, factor]
  by_cases hle : d.scale ≤ scale
  · have habs : (scale - d.scale).natAbs = (scale - d.scale).toNat := by omega
    rw [if_pos hle, if_pos hle, habs]
    rfl
  · have habs : (scale - d.scale).natAbs = (d.scale - scale).toNat := by omega
    rw [if_neg hle, if_neg hle, habs]
    rfl

/-- As many digits are added or cut as the scale moves. -/
theorem digitCount_rescale_le (precision : Nat) (hpos : 0 < precision)
    (h : d.digitCount - d.scale ≤ precision - scale) :
    (d.rescale scale).digitCount ≤ precision := by
  have hcount : 0 < d.digitCount := Nat.length_toDigits_pos
  have hlt : d.mantissa.natAbs < 10 ^ d.digitCount :=
    (Integer.digitCount_le_iff _ _ hcount).mp (Nat.le_refl _)
  rw [digitCount, Integer.digitCount_le_iff _ _ hpos, rescale_eq, factor]
  split
  · -- Digits are added: as many zeros as the scale grows by.
    rw [Int.natAbs_mul, Int.natAbs_natCast]
    calc d.mantissa.natAbs * 10 ^ (scale - d.scale).natAbs
        < 10 ^ d.digitCount * 10 ^ (scale - d.scale).natAbs :=
          Nat.mul_lt_mul_of_pos_right hlt (Nat.pow_pos (by decide))
      _ = 10 ^ (d.digitCount + (scale - d.scale).natAbs) := (Nat.pow_add _ _ _).symm
      _ ≤ 10 ^ precision := Nat.pow_le_pow_right (by decide) (by omega)
  · -- Digits are cut: as many as the scale shrinks by.
    rw [Int.natAbs_tdiv, Int.natAbs_natCast]
    refine Nat.div_lt_of_lt_mul ?_
    calc d.mantissa.natAbs
        < 10 ^ d.digitCount := hlt
      _ ≤ 10 ^ ((scale - d.scale).natAbs + precision) :=
          Nat.pow_le_pow_right (by decide) (by omega)
      _ = 10 ^ (scale - d.scale).natAbs * 10 ^ precision := Nat.pow_add _ _ _

end

/-! ### Digits of a literal -/

theorem Run.digitCount_le (cs : List Char) (size : Nat) (h : Run cs size) :
    Integer.digitCount size ≤ cs.length := by
  rcases h with ⟨first, rest, rfl, hfirst, hrest, rfl⟩
  have hdigits : ∀ c ∈ (first :: rest).filter (· ≠ '_'), c.isDigit = true := by
    intro c hc
    rcases List.mem_filter.mp hc with ⟨hm, hscore⟩
    rcases List.mem_cons.mp hm with rfl | hm
    · exact hfirst
    · exact (hrest c hm).resolve_left (of_decide_eq_true hscore)
  rw [Integer.digitCount_le_iff _ _ (List.length_pos_of_mem List.mem_cons_self)]
  have hlt := Integer.ofDigitChars_lt _ 0 0 hdigits (by decide)
  refine Nat.lt_of_lt_of_le hlt (Nat.pow_le_pow_right (by decide) ?_)
  rw [Nat.zero_add]
  exact List.length_filter_le _ _

theorem Pointed.length_le (base digits : List Char) (places : Nat)
    (h : Pointed base digits places) : digits.length ≤ base.length := by
  cases h with
  | plain _ _ => exact Nat.le_refl _
  | point whole part _ =>
      rw [List.length_append, List.length_append, List.length_cons]
      omega

/-- A literal has no more digits than characters, whatever its exponent. -/
theorem Literal.digitCount_le (cs : List Char) (d : Decimal) (h : Literal cs d) :
    d.digitCount ≤ cs.length := by
  rcases h with ⟨base, tail, _, places, _, rfl, _, hp, _, ⟨sign, _, run, size, _, rfl, hr, hm⟩, _⟩
  have hbase := hp.length_le base _ places
  have hrun := hr.digitCount_le run size
  rw [List.length_append] at hbase ⊢
  rw [digitCount, hm, Integer.natAbs_signed]
  omega

end Decimal

namespace DecimalType

variable (type : DecimalType) (d : Decimal)

/-! ### The counts of digits -/

/-- The digits that are counted before any power of ten is computed: those in front of the point,
    and those that would be left. -/
def screen : Except LossFault Unit :=
  if ((type.precision - type.scale : Nat) : Int)
      < Decimal.scaleRange.clamp (d.digitCount - d.scale) then
    .error (.integerDigits (type.precision - type.scale))
  else if (d.digitCount : Int) ≤ Decimal.scaleRange.clamp (d.scale - type.scale) then
    .error (.fractionDigits type.scale)
  else .ok ()

/-- Only what passes the counts is brought to the scale, compared and checked. -/
theorem fit_eq_screen (hne : d.mantissa ≠ 0) : type.fit d = (do
    type.screen d
    if (d.rescale type.scale).SameValue d then do
      type.checkDigits (d.rescale type.scale).digitCount
      return d.rescale type.scale
    else .error (.fractionDigits type.scale)) := by
  rw [fit, if_neg hne, screen]
  simp only []
  split
  · rfl
  split
  · rfl
  · rfl

/-- What passes the counts has room for the zeros that are added, and digits that are not cut. -/
theorem screen_eq_ok_iff (hreach : type.WithinReach d) : type.screen d = .ok () ↔
    (type.scale : Int) - d.scale ≤ (type.precision : Int) - d.digitCount ∧
      d.scale - type.scale < d.digitCount := by
  simp only [screen, hreach.whole, hreach.behind]
  constructor
  · intro h
    split at h
    · exact nomatch h
    split at h
    · exact nomatch h
    · omega
  · rintro ⟨hadded, hcut⟩
    rw [if_neg (by omega), if_neg (by omega)]

/-- What the counts refuse is no number that the type can hold. -/
theorem not_holdsExact_of_screen (hne : d.mantissa ≠ 0) (fault : LossFault)
    (h : type.screen d = .error fault) : ¬ type.HoldsExact d.value := by
  intro hholds
  have hfit := type.fit_of_holdsExact d hne hholds
  rw [type.fit_eq_screen d hne, h] at hfit
  exact nomatch hfit

/-! ### The cost -/

section

variable (hadded : (type.scale : Int) - d.scale ≤ (type.precision : Int) - d.digitCount)

include hadded

theorem factor_lt (hcut : d.scale - type.scale < d.digitCount) :
    d.factor type.scale < 10 ^ max type.precision d.digitCount := by
  have hpos : 0 < d.digitCount := Nat.length_toDigits_pos
  exact Nat.pow_lt_pow_right (by decide) (by omega)

theorem digitCount_fitted_le : (d.rescale type.scale).digitCount ≤ type.precision :=
  d.digitCount_rescale_le type.scale type.precision type.precision_pos (by omega)

end

/-- What holds of a decimal that is brought to the scale of a type. -/
structure Moderate : Prop where
  /-- The zeros that are added and the digits that are there fit into the precision. -/
  added : (type.scale : Int) - d.scale ≤ (type.precision : Int) - d.digitCount
  /-- Fewer digits are cut than are there. -/
  cut : d.scale - type.scale < d.digitCount
  /-- The mantissa is multiplied or divided by less than a power of ten with as many zeros as the
      type or the mantissa has digits. -/
  factor_lt : d.factor type.scale < 10 ^ max type.precision d.digitCount
  /-- The comparison with the decimal itself computes no greater power. -/
  compared : (d.rescale type.scale).factor (max type.scale d.scale) ≤ d.factor type.scale ∧
    d.factor (max type.scale d.scale) ≤ d.factor type.scale
  /-- There are no more digits in the end than the type has. -/
  digits_le : (d.rescale type.scale).digitCount ≤ type.precision
  /-- The last check never fails. -/
  checked : type.checkDigits (d.rescale type.scale).digitCount = .ok ()

/-- The counts are passed by moderate decimals and by no others. -/
theorem screen_eq_ok_iff_moderate (hreach : type.WithinReach d) :
    type.screen d = .ok () ↔ type.Moderate d := by
  rw [type.screen_eq_ok_iff d hreach]
  refine ⟨fun ⟨hadded, hcut⟩ => ?_, fun h => ⟨h.added, h.cut⟩⟩
  have hdigits := type.digitCount_fitted_le d hadded
  refine ⟨hadded, hcut, type.factor_lt d hadded hcut, ⟨?_, ?_⟩, hdigits, ?_⟩
  -- One of the two scales is the greater one, so only the other decimal is moved, and as far back.
  · rw [Decimal.factor, Decimal.factor, d.rescale_scale]
    exact Nat.pow_le_pow_right (by decide) (by omega)
  · exact Nat.pow_le_pow_right (by decide) (by omega)
  · rw [checkDigits, if_neg (Nat.not_lt.mpr hdigits)]

/-- No decimal is refused by the check that comes last. -/
theorem fit_ne_digits (hne : d.mantissa ≠ 0) (hreach : type.WithinReach d) (count limit : Nat) :
    type.fit d ≠ .error (.digits count limit) := by
  intro h
  rw [type.fit_eq_screen d hne] at h
  rcases hscreen : type.screen d with fault | _
  · -- The counts that come first have faults of their own.
    rw [hscreen] at h
    rw [Except.error.inj h, screen] at hscreen
    split at hscreen
    · exact nomatch hscreen
    split at hscreen
    · exact nomatch hscreen
    · exact nomatch hscreen
  · have hmoderate := (type.screen_eq_ok_iff_moderate d hreach).mp hscreen
    rw [hscreen, hmoderate.checked] at h
    change (if _ then _ else _) = _ at h
    split at h
    · exact nomatch h
    · exact nomatch h

/-- The cost of a decimal is bounded, and no number is lost for it. Digits are counted first, and
    what passes the counts is moderate: it is brought to the scale of the type by a bounded power
    of ten, and has no more digits then than the type. So no decimal is refused by the check that
    comes last, and what the counts refuse is no number that the type can hold. The precision is a
    number of 32 bits, and the scale is any that there is. A literal has no more digits than
    characters, so the bound is one in the length of a text as well. -/
theorem fit_without_expansion (hp : type.precision < 2 ^ 32) (hne : d.mantissa ≠ 0)
    (hd : d.scale ∈ Decimal.scaleRange) :
    (type.fit d = do
      type.screen d
      if (d.rescale type.scale).SameValue d then do
        type.checkDigits (d.rescale type.scale).digitCount
        return d.rescale type.scale
      else .error (.fractionDigits type.scale)) ∧
    (d.rescale type.scale = if d.scale ≤ type.scale
      then ⟨d.mantissa * d.factor type.scale, type.scale⟩
      else ⟨d.mantissa.tdiv (d.factor type.scale), type.scale⟩) ∧
    (type.screen d = .ok () ↔ type.Moderate d) ∧
    (∀ count limit, type.fit d ≠ .error (.digits count limit)) ∧
    (∀ fault, type.screen d = .error fault → ¬ type.HoldsExact d.value) ∧
    ∀ text, Decimal.read text = .ok d → d.digitCount ≤ text.length := by
  have hreach := type.withinReach hp d hd
  refine ⟨type.fit_eq_screen d hne, d.rescale_eq type.scale,
    type.screen_eq_ok_iff_moderate d hreach, type.fit_ne_digits d hne hreach,
    type.not_holdsExact_of_screen d hne, fun text h => ?_⟩
  rw [← String.length_toList]
  exact Decimal.Literal.digitCount_le _ d ((Decimal.read_eq_ok_iff text d).mp h)

/-- Of the decimals of six digits with two places, exponents at both ends of the scales are refused
    by the counts, the one as a literal of a few characters. A decimal of which zeros are cut and
    one to which they are added are moderate, and so is one that is refused because its last digit
    is no zero. -/
theorem fit_without_expansion_cents : ∃ cents, fraction 6 2 = .ok cents ∧
    cents.precision < 2 ^ 32 ∧
    (-9223372036854775808 ∈ Decimal.scaleRange ∧ 9223372036854775807 ∈ Decimal.scaleRange) ∧
    Decimal.read "7e9223372036854775808" = .ok ⟨7, -9223372036854775808⟩ ∧
    ¬ cents.HoldsExact (Decimal.value ⟨7, -9223372036854775808⟩) ∧
    ¬ cents.HoldsExact (Decimal.value ⟨7, 9223372036854775807⟩) ∧
    cents.Moderate ⟨123400, 4⟩ ∧ cents.fit ⟨123400, 4⟩ = .ok ⟨1234, 2⟩ ∧
    cents.Moderate ⟨-12, -2⟩ ∧ cents.fit ⟨-12, -2⟩ = .ok ⟨-120000, 2⟩ ∧
    cents.Moderate ⟨1005, 3⟩ ∧ cents.fit ⟨1005, 3⟩ = .error (.fractionDigits 2) := by
  let cents : DecimalType := ⟨6, 2, none, by decide, by decide, rfl, by decide⟩
  -- Both ends are refused by the counts, so the general statement says that they are no number of
  -- the type.
  have hgreat := fit_without_expansion cents ⟨7, -9223372036854775808⟩ (by decide) (by decide)
    (by decide)
  have hsmall := fit_without_expansion cents ⟨7, 9223372036854775807⟩ (by decide) (by decide)
    (by decide)
  have hmoderate (d : Decimal) (hne : d.mantissa ≠ 0) (hd : d.scale ∈ Decimal.scaleRange)
      (h : cents.screen d = .ok ()) : cents.Moderate d :=
    (fit_without_expansion cents d (by decide) hne hd).2.2.1.mp h
  refine ⟨cents, rfl, by decide, by decide, by decide,
    hgreat.2.2.2.2.1 (.integerDigits 4) (by decide),
    hsmall.2.2.2.2.1 (.fractionDigits 2) (by decide), ?_, by decide, ?_, by decide, ?_, by decide⟩
  · exact hmoderate _ (by decide) (by decide) rfl
  · exact hmoderate _ (by decide) (by decide) rfl
  · exact hmoderate _ (by decide) (by decide) rfl

end DecimalType

end Schemata
