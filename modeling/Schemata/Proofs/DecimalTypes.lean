import Schemata.DecimalType
import Schemata.Proofs.Number.Decimals

/-!
# Reading Numbers

Which texts are values of a decimal type, and how the others are refused.

A text that says no number is refused for its syntax, and one that says a
number the type cannot hold is refused for the loss. For exact decimals that is
all there is to it (`parse_exact`): neither the digits that are counted ahead
of the arithmetic nor the bounds of that arithmetic refuse a number that could
be held, and no number is taken that would have to be rounded.

Native integers draw that line elsewhere (`parse_native`). They are read digit
by digit, and a digit that leads out of the range ends the reading. What stands
behind it is not looked at, so a text is refused for the loss as soon as it
begins with an integer out of the range, whether it says a number or not.

## Main definitions

* `Fails`: A computation ends with an error of some kind.
* `DecimalType.nativeRange`, `DecimalType.nativeValue`: The integers that a
  type holds natively, and its values of them.
* `DecimalType.WithinReach`: The arithmetic for a decimal stays within its
  bounds.

## Theorems

* `DecimalType.parse_native`: The outcomes for native integers.
* `DecimalType.fit_eq_ok_iff`: Which decimals fit a type.
* `DecimalType.withinReach`: The bounds of the arithmetic do not matter.
* `DecimalType.parse_exact`: The outcomes for exact decimals.
-/

namespace Schemata

/-- A computation ends with an error of a kind. -/
def Fails {α : Type} (kind : SchemaError → Bool) (result : Except SchemaError α) : Prop :=
  ∃ e, result = .error e ∧ kind e = true

namespace DecimalType

/-! ### Refusals -/

section

variable (type : DecimalType) (text : String)

theorem parse_eq_ok_iff (v : Option Value) :
    type.parse (some text) = .ok v ↔ ∃ value, type.read text = .ok value ∧ v = some value := by
  rw [parse, mapError_eq_ok_iff]
  cases type.read text with
  | error refusal => simp only [Except.map, reduceCtorEq, false_and, exists_false]
  | ok value => simp only [Except.map, Except.ok.injEq, exists_eq_left', eq_comm]

theorem parse_fails_iff (kind : SchemaError → Bool) : Fails kind (type.parse (some text)) ↔
    ∃ refusal, type.read text = .error refusal ∧ kind (refusal.error type.name text) = true := by
  rw [parse]
  rcases type.read text with refusal | value
  · change Fails kind (.error (refusal.error type.name text)) ↔ _
    simp only [Fails, Except.error.injEq, exists_eq_left']
  · change Fails kind (.ok (some value)) ↔ _
    simp only [Fails, reduceCtorEq, false_and, exists_false]

theorem parse_isSyntax_iff : Fails SchemaError.isSyntax (type.parse (some text)) ↔
    ∃ fault, type.read text = .error (.malformed fault) := by
  rw [parse_fails_iff]
  constructor
  · rintro ⟨refusal, hr, hk⟩
    cases refusal with
    | malformed fault => exact ⟨fault, hr⟩
    | lossy fault => exact absurd hk Bool.false_ne_true
  · rintro ⟨fault, hr⟩
    exact ⟨_, hr, rfl⟩

theorem parse_isPrecision_iff : Fails SchemaError.isPrecision (type.parse (some text)) ↔
    ∃ fault, type.read text = .error (.lossy fault) := by
  rw [parse_fails_iff]
  constructor
  · rintro ⟨refusal, hr, hk⟩
    cases refusal with
    | malformed fault => exact absurd hk Bool.false_ne_true
    | lossy fault => exact ⟨fault, hr⟩
  · rintro ⟨fault, hr⟩
    exact ⟨_, hr, rfl⟩

/-- What is neither read nor refused for its syntax is refused for the loss. -/
theorem read_lossy_iff : (∃ fault, type.read text = .error (.lossy fault)) ↔
    ¬ (∃ value, type.read text = .ok value) ∧
      ¬ ∃ fault, type.read text = .error (.malformed fault) := by
  rcases type.read text with (fault | fault) | value
  · simp only [Except.error.injEq, reduceCtorEq, Refusal.malformed.injEq, exists_eq', exists_false,
      not_true_eq_false, and_false]
  · simp only [Except.error.injEq, reduceCtorEq, Refusal.lossy.injEq, exists_eq', exists_false,
      not_false_eq_true, and_self]
  · simp only [reduceCtorEq, Except.ok.injEq, exists_eq', exists_false, not_true_eq_false,
      false_and]

/-- The digits of a number are not too many exactly if it lies below a power of ten. -/
theorem checkDigits_eq (n : Nat) : type.checkDigits (Integer.digitCount n) =
    if n < 10 ^ type.precision then .ok ()
    else .error (.digits (Integer.digitCount n) type.precision) := by
  have hiff := Integer.digitCount_le_iff n type.precision type.precision_pos
  rw [checkDigits]
  by_cases hlt : n < 10 ^ type.precision
  · rw [if_neg (Nat.not_lt.mpr (hiff.mpr hlt)), if_pos hlt]
  · rw [if_pos (Nat.lt_of_not_le fun hle => hlt (hiff.mp hle)), if_neg hlt]

end

/-! ### Native integers -/

/-- The integers that a type of a width holds natively. -/
def nativeRange (bits : Nat) : Integer.Range :=
  .signed (if bits ≤ 32 then 32 else 64)

/-- The value of a native integer. -/
def nativeValue (bits : Nat) (n : Int) : Value :=
  if bits ≤ 32 then .int n else .long n

/-- A type of a width can hold the integer. -/
def HoldsNative (type : DecimalType) (bits : Nat) (n : Int) : Prop :=
  n ∈ nativeRange bits ∧ n.natAbs < 10 ^ type.precision

section

variable (type : DecimalType) (bits : Nat) (hb : type.bits = some bits) (hle : bits ≤ 64)
  (text : String)

include hb hle

theorem read_eq_readNative : type.read text =
    (type.readNative (if bits ≤ 32 then 32 else 64) text).map (nativeValue bits) := by
  have hvalue : nativeValue bits = if bits ≤ 32 then Value.int else Value.long := by
    funext n
    rw [nativeValue]
    split
    · rfl
    · rfl
  rw [read, representation, hb, hvalue]
  by_cases h32 : bits ≤ 32
  · simp only [if_pos h32]
  · simp only [if_neg h32, if_pos hle]

theorem read_of_ok (n : Int) (h : (nativeRange bits).read text.toList = .ok n) :
    type.read text =
      if n.natAbs < 10 ^ type.precision then .ok (nativeValue bits n)
      else .error (.lossy (.digits (Integer.digitCount n.natAbs) type.precision)) := by
  rw [type.read_eq_readNative bits hb hle, readNative]
  rw [nativeRange] at h
  rw [h]
  change ((type.checkDigits (Integer.digitCount n.natAbs)).mapError Refusal.lossy >>=
    fun _ => pure n).map (nativeValue bits) = _
  rw [checkDigits_eq]
  split
  · rfl
  · rfl

theorem read_of_error (fault : Integer.Fault)
    (h : (nativeRange bits).read text.toList = .error fault) :
    type.read text = .error (.ofInteger fault) := by
  rw [type.read_eq_readNative bits hb hle, readNative]
  rw [nativeRange] at h
  rw [h]
  rfl

theorem read_native_eq_ok_iff (value : Value) : type.read text = .ok value ↔
    ∃ n, Integer.Denotes text.toList n ∧ type.HoldsNative bits n ∧ value = nativeValue bits n := by
  have hok := Integer.read_eq_ok_iff (nativeRange bits) (Integer.zero_mem_signed _) text.toList
  rcases hread : (nativeRange bits).read text.toList with fault | n
  · rw [type.read_of_error bits hb hle text fault hread]
    refine ⟨nofun, ?_⟩
    rintro ⟨n, hn, hh, _⟩
    exact nomatch hread.symm.trans ((hok n).mpr ⟨hn, hh.1⟩)
  · rw [type.read_of_ok bits hb hle text n hread]
    -- The digits have been read within the bits. What is left is the count of the digits, and a
    -- text denotes no other integer.
    rcases (hok n).mp hread with ⟨hn, hin⟩
    constructor
    · intro hvalue
      split at hvalue
      · next hlt => exact ⟨n, hn, ⟨hin, hlt⟩, (Except.ok.inj hvalue).symm⟩
      · exact nomatch hvalue
    · rintro ⟨m, hm, hh, rfl⟩
      rw [Integer.denotes_unique text.toList m n hm hn] at hh ⊢
      rw [if_pos hh.2]

theorem read_native_malformed_iff : (∃ fault, type.read text = .error (.malformed fault)) ↔
    (∀ n, ¬ Integer.Denotes text.toList n) ∧
      ∀ front n, front <+: text.toList → Integer.Denotes front n → n ∈ nativeRange bits := by
  have hok := Integer.read_eq_ok_iff (nativeRange bits) (Integer.zero_mem_signed _) text.toList
  have hover := Integer.read_overflow_iff (nativeRange bits) (Integer.zero_mem_signed _)
    text.toList
  -- A fault of the range is one of loss, and every other fault is one of syntax. So the text is
  -- malformed where it is not read and no front of it is out of range.
  rcases hread : (nativeRange bits).read text.toList with fault | n
  · rw [type.read_of_error bits hb hle text fault hread]
    rw [hread] at hok hover
    simp only [Except.error.injEq, exists_eq_left', reduceCtorEq, false_iff, not_and] at hok hover
    have hfault : (∃ f, Except.error (Refusal.ofInteger fault) =
        (.error (.malformed f) : Except Refusal Value)) ↔ ¬ fault.isRange = true := by
      cases fault <;> simp only [Refusal.ofInteger, Integer.Fault.isRange, reduceIte, reduceCtorEq,
        Bool.false_eq_true, Except.error.injEq, Refusal.malformed.injEq, exists_eq', exists_false,
        not_true_eq_false, not_false_eq_true]
    rw [hfault, hover]
    constructor
    · intro h
      refine ⟨fun n hn => h ⟨text.toList, n, List.prefix_rfl, hn, hok n hn⟩, ?_⟩
      intro front n hf hn
      by_contra hout
      exact h ⟨front, n, hf, hn, hout⟩
    · rintro ⟨_, h⟩ ⟨front, n, hf, hn, hout⟩
      exact hout (h front n hf hn)
  · rw [type.read_of_ok bits hb hle text n hread]
    refine ⟨?_, fun h => absurd ((hok n).mp hread).1 (h.1 n)⟩
    rintro ⟨fault, hfault⟩
    split at hfault
    · cases hfault
    · cases hfault

theorem read_native_lossy_iff : (∃ fault, type.read text = .error (.lossy fault)) ↔
    (∃ n, Integer.Denotes text.toList n ∧ ¬ type.HoldsNative bits n) ∨
      ∃ front n, front <+: text.toList ∧ Integer.Denotes front n ∧ n ∉ nativeRange bits := by
  rw [read_lossy_iff, type.read_native_malformed_iff bits hb hle text]
  simp only [type.read_native_eq_ok_iff bits hb hle text]
  -- What is neither read nor malformed is lossy: a whole literal that is not held, or a front of
  -- the text that is out of range.
  constructor
  · rintro ⟨hnot, hwell⟩
    by_cases hn : ∃ n, Integer.Denotes text.toList n
    · -- A literal is not held, or it would have been read.
      rcases hn with ⟨n, hn⟩
      exact Or.inl ⟨n, hn, fun hh => hnot ⟨_, n, hn, hh, rfl⟩⟩
    · right
      by_contra hout
      refine hwell ⟨not_exists.mp hn, fun front n hf hn => ?_⟩
      by_contra hmem
      exact hout ⟨front, n, hf, hn, hmem⟩
  · -- Each text denotes one integer at most, and a literal in range has all its fronts in range.
    rintro (⟨m, hm, hnot⟩ | ⟨front, m, hf, hm, hout⟩)
    · refine ⟨?_, fun h => h.1 m hm⟩
      rintro ⟨_, n, hn, hh, _⟩
      exact hnot (Integer.denotes_unique text.toList n m hn hm ▸ hh)
    · refine ⟨?_, fun h => hout (h.2 front m hf hm)⟩
      rintro ⟨_, n, hn, hh, _⟩
      exact hout (Integer.mem_of_prefix (nativeRange bits) (Integer.zero_mem_signed _) text.toList
        n hn hh.1 front m hf hm)

/-- The outcomes for native integers. A literal of an integer that the type can hold is read,
    and every other literal is refused for the loss. A text that is no literal is refused for
    its syntax, unless it begins with a literal of an integer out of the range: then it is
    refused for the loss as well. -/
theorem parse_native :
    (∀ v, type.parse (some text) = .ok v ↔
      ∃ n, Integer.Denotes text.toList n ∧ type.HoldsNative bits n ∧
        v = some (nativeValue bits n)) ∧
    (Fails SchemaError.isSyntax (type.parse (some text)) ↔
      (∀ n, ¬ Integer.Denotes text.toList n) ∧
        ∀ front n, front <+: text.toList → Integer.Denotes front n → n ∈ nativeRange bits) ∧
    (Fails SchemaError.isPrecision (type.parse (some text)) ↔
      (∃ n, Integer.Denotes text.toList n ∧ ¬ type.HoldsNative bits n) ∨
        ∃ front n, front <+: text.toList ∧ Integer.Denotes front n ∧ n ∉ nativeRange bits) := by
  refine ⟨fun v => ?_, ?_, ?_⟩
  · rw [parse_eq_ok_iff]
    constructor
    · rintro ⟨value, hvalue, rfl⟩
      rcases (type.read_native_eq_ok_iff bits hb hle text value).mp hvalue with ⟨n, hn, hh, rfl⟩
      exact ⟨n, hn, hh, rfl⟩
    · rintro ⟨n, hn, hh, rfl⟩
      exact ⟨_, (type.read_native_eq_ok_iff bits hb hle text _).mpr ⟨n, hn, hh, rfl⟩, rfl⟩
  · rw [parse_isSyntax_iff, type.read_native_malformed_iff bits hb hle text]
  · rw [parse_isPrecision_iff, type.read_native_lossy_iff bits hb hle text]

end

/-- A text with a point is no literal of an integer. -/
theorem not_denotes_of_point (cs : List Char) (h : '.' ∈ cs) (n : Int) :
    ¬ Integer.Denotes cs n := by
  rintro ⟨sign, negative, ds, hs, rfl, _, hds, _⟩
  rcases List.mem_append.mp h with hm | hm
  · cases hs with
    | none => exact absurd hm List.not_mem_nil
    | plus => exact absurd (List.mem_singleton.mp hm) (by decide)
    | minus => exact absurd (List.mem_singleton.mp hm) (by decide)
  · exact absurd (hds _ hm) (by decide)

/-- Of the 32-bit integers, one literal is read, one text is refused for a point behind digits
    within the range, and one for the range though a point follows. -/
theorem parse_native_int :
    (int.bits = some 32 ∧ 32 ≤ 64) ∧
      int.parse (some "-12") = .ok (some (.int (-12))) ∧
      Fails SchemaError.isSyntax (int.parse (some "1.5")) ∧
      Fails SchemaError.isPrecision (int.parse (some "99999999999.5")) := by
  refine ⟨⟨rfl, by decide⟩, ?_, ?_, ?_⟩
  · refine ((parse_native int 32 rfl (by decide) "-12").1 _).mpr ⟨-12, ?_, ?_, rfl⟩
    · exact ⟨['-'], true, ['1', '2'], .minus, rfl, by decide, List.all_eq_true.mp rfl, by decide⟩
    · exact ⟨by decide, by decide⟩
  · refine (parse_native int 32 rfl (by decide) "1.5").2.1.mpr
      ⟨not_denotes_of_point _ (by decide), fun front n hf hn => ?_⟩
    -- A front out of range would have been met before the
    -- point, and then another fault would be reported.
    by_contra hout
    rcases (Integer.read_overflow_iff (nativeRange 32) (Integer.zero_mem_signed _) _).mpr
      ⟨front, n, hf, hn, hout⟩ with ⟨fault, hfault, hrange⟩
    have hread : (nativeRange 32).read "1.5".toList = .error .badDigit := by decide
    rw [← Except.error.inj (hread.symm.trans hfault)] at hrange
    exact absurd hrange (by decide)
  · refine (parse_native int 32 rfl (by decide) "99999999999.5").2.2.mpr
      (Or.inr ⟨"99999999999".toList, 99999999999, by decide, ?_, by decide⟩)
    exact ⟨[], false, _, .none, rfl, by decide, List.all_eq_true.mp rfl, by decide⟩

/-- A point behind digits that lead out of the range is not refused for the syntax. -/
theorem fraction_behind_range_not_syntax :
    ¬ (Fails SchemaError.isSyntax (int.parse (some "99999999999.5")) ↔
      ∀ n, ¬ Integer.Denotes "99999999999.5".toList n) := by
  intro h
  rcases h.mpr (not_denotes_of_point _ (by decide)) with ⟨e, he, hsyntax⟩
  have hparse : int.parse (some "99999999999.5") =
      .error (.lossy int.name "99999999999.5" (.range .tooLarge)) := by
    rfl
  rw [← Except.error.inj (hparse.symm.trans he)] at hsyntax
  exact absurd hsyntax Bool.false_ne_true

/-! ### Exact decimals -/

/-- What does not exceed an integer brought into a range does not exceed the integer itself,
    unless it lies at the lower end of the range. -/
theorem le_of_le_clamp (range : Integer.Range) (a n : Int) (hl : range.least < a)
    (h : a ≤ range.clamp n) : a ≤ n := by
  unfold Integer.Range.clamp at h
  omega

section

variable (type : DecimalType)

/-- The type can hold the number: in units of its last place it is an integer, and one of no
    more digits than the precision. -/
def HoldsExact (x : ℚ) : Prop :=
  ∃ n : Int, x * 10 ^ type.scale = n ∧ n.natAbs < 10 ^ type.precision

/-- Zero fits every type. -/
theorem fit_zero_eq_ok_iff (d d' : Decimal) (hzero : d.mantissa = 0) : type.fit d = .ok d' ↔
    type.HoldsExact d.value ∧ d'.value = d.value ∧ d'.scale = type.scale := by
  have hv (scale : Int) : (⟨0, scale⟩ : Decimal).value = d.value := by
    rw [Decimal.value, Decimal.value, hzero, Int.cast_zero, zero_mul, zero_mul]
  rw [fit, if_pos hzero, Except.ok.injEq]
  constructor
  · rintro rfl
    refine ⟨⟨0, ?_, Nat.pow_pos (by decide)⟩, hv _, rfl⟩
    rw [← hv 0, Decimal.value, Int.cast_zero, zero_mul, zero_mul]
  · rintro ⟨_, hd, hs⟩
    exact Decimal.ext_value _ _ ((hv _).trans hd.symm) hs.symm

/-- A decimal that fits is one that the type can hold. -/
theorem holdsExact_of_fit (d d' : Decimal) (hne : d.mantissa ≠ 0) (h : type.fit d = .ok d') :
    type.HoldsExact d.value ∧ d'.value = d.value ∧ d'.scale = type.scale := by
  -- Past both guards the value is kept by the rescaling, and its digits are counted.
  rw [fit, if_neg hne] at h
  simp only [] at h
  split at h
  · exact nomatch h
  split at h
  · exact nomatch h
  split at h
  · next hsame =>
      rcases bind_eq_ok_iff.mp h with ⟨_, hdigits, hd⟩
      rw [pure_eq_ok_iff] at hd
      have hv := (Decimal.sameValue_iff _ _).mp hsame
      have hscale := d.rescale_scale type.scale
      rw [hd] at hdigits hv hscale
      rw [Decimal.digitCount, checkDigits_eq] at hdigits
      refine ⟨⟨d'.mantissa, ?_, ?_⟩, hv, hscale⟩
      · -- The digits of the rescaled decimal are the integer over the scale of the type.
        rw [← hv, ← zpow_natCast, ← hscale]
        exact ((Decimal.value_eq_iff d' _).mp rfl).symm
      · by_contra hlt
        rw [if_neg hlt] at hdigits
        exact nomatch hdigits
  · exact nomatch h

/-- Neither count of digits refuses a decimal that the type can hold, and nothing of it is
    cut. -/
theorem fit_of_holdsExact (d : Decimal) (hne : d.mantissa ≠ 0) (h : type.HoldsExact d.value) :
    type.fit d = .ok (d.rescale type.scale) := by
  rcases h with ⟨n, hn, hlt⟩
  rw [← zpow_natCast] at hn
  have hwhole := d.digits_le_of_natAbs_lt hne type.scale n hn type.precision hlt
  have hbehind := d.sub_lt_digits hne type.scale n hn
  have hpos : 0 < d.digitCount := Nat.length_toDigits_pos
  have hleast : Decimal.scaleRange.least < 0 := by decide
  have hle := type.scale_le
  have hv := (d.rescale_value_iff type.scale).mpr ⟨n, hn⟩
  -- The guards are on clamped counts. The counts of a decimal that can be held lie within the
  -- range, where the clamp changes nothing.
  rw [fit, if_neg hne]
  simp only []
  rw [if_neg fun h => absurd (le_of_le_clamp Decimal.scaleRange _ _ (by omega)
      (Int.add_one_le_of_lt h)) (by omega),
    if_neg fun h => absurd (le_of_le_clamp Decimal.scaleRange _ _ (by omega) h) (by omega),
    if_pos ((Decimal.sameValue_iff _ _).mpr hv)]
  -- The digits that are counted in the end are those of the integer in hand.
  have hmantissa : (d.rescale type.scale).mantissa = n := by
    have hcast : ((d.rescale type.scale).mantissa : ℚ) = n := by
      rw [(Decimal.value_eq_iff _ _).mp hv, d.rescale_scale, hn]
    exact Int.cast_injective hcast
  rw [Decimal.digitCount, checkDigits_eq, hmantissa, if_pos hlt]
  rfl

/-- A decimal fits exactly if the type can hold it, and then it is kept as it is but for the
    scale. -/
theorem fit_eq_ok_iff (d d' : Decimal) : type.fit d = .ok d' ↔
    type.HoldsExact d.value ∧ d'.value = d.value ∧ d'.scale = type.scale := by
  by_cases hzero : d.mantissa = 0
  · exact type.fit_zero_eq_ok_iff d d' hzero
  refine ⟨type.holdsExact_of_fit d d' hzero, ?_⟩
  rintro ⟨hh, hv, hs⟩
  have hfit := type.fit_of_holdsExact d hzero hh
  rcases type.holdsExact_of_fit d _ hzero hfit with ⟨_, hv', hs'⟩
  rw [hfit, Decimal.ext_value _ _ (hv'.trans hv.symm) (hs'.trans hs.symm)]

theorem exists_of_holdsExact (x : ℚ) (h : type.HoldsExact x) :
    ∃ d : Decimal, d.value = x ∧ d.scale = type.scale := by
  rcases h with ⟨n, hn, _⟩
  refine ⟨⟨n, type.scale⟩, (Decimal.value_eq_iff _ x).mpr ?_, rfl⟩
  rw [← hn, zpow_natCast]

/-- The differences that are computed to fit a decimal stay within 64 bits, or nothing depends
    on by how much they leave them. -/
structure WithinReach (d : Decimal) : Prop where
  /-- The places behind the point are not more than the digits. -/
  scale_le : type.scale ≤ type.precision
  /-- The digits in front of the point are compared as if there were no bounds. -/
  whole : ((type.precision - type.scale : Nat) : Int)
        < Decimal.scaleRange.clamp (d.digitCount - d.scale) ↔
      (type.precision : Int) - type.scale < d.digitCount - d.scale
  /-- So are the places that are to be cut. -/
  behind : (d.digitCount : Int) ≤ Decimal.scaleRange.clamp (d.scale - type.scale) ↔
      (d.digitCount : Int) ≤ d.scale - type.scale
  /-- A decimal that is not refused for its digits is moved by a difference within the
      bounds. -/
  moved : (d.digitCount : Int) - d.scale ≤ (type.precision : Int) - type.scale →
      (type.scale : Int) - d.scale ∈ Decimal.scaleRange ∧
        d.scale - type.scale ∈ Decimal.scaleRange

/-- With a precision of 32 bits the bounds of the arithmetic do not matter. -/
theorem withinReach (hp : type.precision < 2 ^ 32) (d : Decimal)
    (hd : d.scale ∈ Decimal.scaleRange) : type.WithinReach d := by
  -- A scale is held in 64 bits. A precision of 32 bits and the digits of one text stay far below
  -- the rest of the range.
  have hle := type.scale_le
  have hpos : 0 < d.digitCount := Nat.length_toDigits_pos
  have hleast : Decimal.scaleRange.least = -(2 ^ 63) := by decide
  have hgreatest : Decimal.scaleRange.greatest = 2 ^ 63 - 1 := by decide
  rw [Integer.mem_range_iff, hleast, hgreatest] at hd
  constructor
  · exact hle
  · rw [Integer.Range.clamp, hleast, hgreatest]
    omega
  · rw [Integer.Range.clamp, hleast, hgreatest]
    omega
  · intro h
    rw [Integer.mem_range_iff, Integer.mem_range_iff, hleast, hgreatest]
    omega

variable (h : type.representation = .arbitrary) (text : String)

include h

theorem read_eq_readExact : type.read text = (type.readExact text).map .decimal := by
  rw [read, h]

theorem read_exact_eq_ok_iff (value : Value) : type.read text = .ok value ↔
    ∃ x d, Decimal.Denotes text.toList x ∧ type.HoldsExact x ∧ value = .decimal d ∧
      d.value = x ∧ d.scale = type.scale := by
  have hexact (d' : Decimal) : type.readExact text = .ok d' ↔
      ∃ d, Decimal.read text = .ok d ∧ type.fit d = .ok d' := by
    simp only [readExact, bind_eq_ok_iff, mapError_eq_ok_iff]
  have hread : type.read text = .ok value ↔
      ∃ d', type.readExact text = .ok d' ∧ value = .decimal d' := by
    rw [type.read_eq_readExact h text]
    cases type.readExact text with
    | error refusal => simp only [Except.map, reduceCtorEq, false_and, exists_false]
    | ok d => simp only [Except.map, Except.ok.injEq, exists_eq_left', eq_comm]
  -- What is denoted is the value of the decimal that
  -- is read, so the two sides name the same decimal.
  simp only [hread, hexact, Decimal.denotes_iff, fit_eq_ok_iff]
  constructor
  · rintro ⟨d', ⟨d, hd, hh, hv, hs⟩, rfl⟩
    exact ⟨d.value, d', ⟨d, hd, rfl⟩, hh, rfl, hv, hs⟩
  · rintro ⟨_, d', ⟨d, hd, rfl⟩, hh, rfl, hv, hs⟩
    exact ⟨d', ⟨d, hd, hh, hv, hs⟩, rfl⟩

theorem read_exact_malformed_iff : (∃ fault, type.read text = .error (.malformed fault)) ↔
    ¬ ∃ x, Decimal.Denotes text.toList x := by
  rw [type.read_eq_readExact h text, readExact]
  simp only [Decimal.denotes_iff]
  rcases Decimal.read text with fault | d
  · refine iff_of_true ⟨.decimal fault, rfl⟩ ?_
    simp only [reduceCtorEq, false_and, exists_false, not_false_eq_true]
  · refine iff_of_false ?_ (not_not_intro ⟨d.value, d, rfl, rfl⟩)
    change ¬ ∃ fault, ((type.fit d).mapError Refusal.lossy).map Value.decimal =
      .error (.malformed fault)
    rcases type.fit d with loss | d'
    · exact fun ⟨_, hloss⟩ => (nomatch hloss)
    · exact fun ⟨_, hfit⟩ => (nomatch hfit)

theorem read_exact_lossy_iff : (∃ fault, type.read text = .error (.lossy fault)) ↔
    ∃ x, Decimal.Denotes text.toList x ∧ ¬ type.HoldsExact x := by
  rw [read_lossy_iff, type.read_exact_malformed_iff h text, not_not]
  simp only [type.read_exact_eq_ok_iff h text]
  constructor
  · rintro ⟨hnot, x, hx⟩
    refine ⟨x, hx, fun hh => ?_⟩
    rcases type.exists_of_holdsExact x hh with ⟨d, hv, hs⟩
    exact hnot ⟨_, x, d, hx, hh, rfl, hv, hs⟩
  · rintro ⟨x, hx, hnot⟩
    refine ⟨?_, x, hx⟩
    rintro ⟨_, y, _, hy, hh, _⟩
    exact hnot (Decimal.denotes_unique text y x hy hx ▸ hh)

/-- The outcomes for exact decimals. A literal of a number that the type can hold is read as that
    number at the scale of the type, every other literal is refused for the loss, and a text
    that is no literal is refused for its syntax. -/
theorem parse_exact :
    (∀ v, type.parse (some text) = .ok v ↔
      ∃ x d, Decimal.Denotes text.toList x ∧ type.HoldsExact x ∧ v = some (.decimal d) ∧
        d.value = x ∧ d.scale = type.scale) ∧
    (Fails SchemaError.isSyntax (type.parse (some text)) ↔
      ¬ ∃ x, Decimal.Denotes text.toList x) ∧
    (Fails SchemaError.isPrecision (type.parse (some text)) ↔
      ∃ x, Decimal.Denotes text.toList x ∧ ¬ type.HoldsExact x) ∧
    (type.precision < 2 ^ 32 → ∀ d, Decimal.Literal text.toList d → type.WithinReach d) := by
  refine ⟨fun v => ?_, ?_, ?_, ?_⟩
  · rw [parse_eq_ok_iff]
    constructor
    · rintro ⟨value, hvalue, rfl⟩
      rcases (type.read_exact_eq_ok_iff h text value).mp hvalue with ⟨x, d, hx, hh, rfl, hd⟩
      exact ⟨x, d, hx, hh, rfl, hd⟩
    · rintro ⟨x, d, hx, hh, rfl, hd⟩
      exact ⟨_, (type.read_exact_eq_ok_iff h text _).mpr ⟨x, d, hx, hh, rfl, hd⟩, rfl⟩
  · rw [parse_isSyntax_iff, type.read_exact_malformed_iff h text]
  · rw [parse_isPrecision_iff, type.read_exact_lossy_iff h text]
  · rintro hp d ⟨_, _, _, _, _, _, _, _, _, _, _, hd⟩
    exact type.withinReach hp d hd

end

/-- Of the decimals of six digits with two places, one literal with more places is read because
    they are zeros, one is refused because a place is not, one because it would have too many
    digits, and one text because it says no number. An exponent at the end of the scales stays
    within reach. -/
theorem parse_exact_cents : ∃ cents, fraction 6 2 = .ok cents ∧
    cents.representation = .arbitrary ∧
    cents.parse (some "12.3400") = .ok (some (.decimal ⟨1234, 2⟩)) ∧
    Fails SchemaError.isPrecision (cents.parse (some "0.005")) ∧
    Fails SchemaError.isPrecision (cents.parse (some "1e4")) ∧
    Fails SchemaError.isSyntax (cents.parse (some "1,5")) ∧
    cents.WithinReach ⟨1, -9223372036854775807⟩ := by
  let cents : DecimalType := ⟨6, 2, none, by decide, by decide, rfl, by decide⟩
  have hdenotes (text : String) (d : Decimal) (hr : Decimal.read text = .ok d) :
      Decimal.Denotes text.toList d.value := (Decimal.denotes_iff text _).mpr ⟨d, hr, rfl⟩
  refine ⟨cents, rfl, rfl, ?_, ?_, ?_, ?_, ?_⟩
  · refine ((parse_exact cents rfl "12.3400").1 _).mpr ⟨_, ⟨1234, 2⟩,
      hdenotes "12.3400" ⟨123400, 4⟩ (by decide), ⟨1234, ?_, by decide⟩, rfl, ?_, rfl⟩
    · norm_num [Decimal.value, cents]
    · norm_num [Decimal.value]
  · refine (parse_exact cents rfl "0.005").2.2.1.mpr ⟨_,
      hdenotes "0.005" ⟨5, 3⟩ (by decide), ?_⟩
    -- No integer over a hundred is five thousandths: twice as many would be one.
    rintro ⟨n, hn, _⟩
    norm_num [Decimal.value, cents] at hn
    have htwice : (1 : ℚ) = (2 * n : Int) := by
      rw [Int.cast_mul, ← hn]
      norm_num
    have hone : (1 : Int) = 2 * n := by exact_mod_cast htwice
    omega
  · refine (parse_exact cents rfl "1e4").2.2.1.mpr ⟨_, hdenotes "1e4" ⟨1, -4⟩ (by decide), ?_⟩
    -- The integer in hand is a million, which has seven digits.
    rintro ⟨n, hn, hlt⟩
    norm_num [Decimal.value, cents] at hn
    have hmillion : (1000000 : Int) = n := by exact_mod_cast hn
    rw [← hmillion] at hlt
    exact absurd hlt (by decide)
  · refine (parse_exact cents rfl "1,5").2.1.mpr ?_
    rw [← read_exact_malformed_iff cents rfl]
    exact ⟨.decimal (.digits .badDigit), by decide⟩
  · exact (parse_exact cents rfl "1e9223372036854775807").2.2.2 (by decide) _
      ((Decimal.read_eq_ok_iff _ _).mp (by decide))

end DecimalType

end Schemata
