import Schemata.Proofs.DecimalTypes
import Schemata.Proofs.Widths

/-!
# Room for Digits

Which integers a type holds that is made for a number of digits.

A type without fraction is given as many bits as its digits need, and the bits
choose how values are held. But the native integers have a sign, and it takes
one of their bits. So the bits are enough only if the native integer that they
choose has one to spare. For all but one number of digits it has: widths of 30
and of 60 bits are the last ones before another kind of integer is chosen. For
nineteen digits it has none. They need 64 bits, are held as 64-bit integers,
and the greatest of those is less than the greatest number of nineteen digits.

`DecimalType.parse_digits` says this of literals. It follows from what the
types hold natively and exactly, once it is known where the widths pass 32 and
64 bits (`DecimalType.bitsForPrecision_cases`).

## Main definitions

* `Integer.DenotesWithin`: What a text of so many digits says as an integer.
* `DecimalType.wholeValue`: The value of an integer, as a type holds it.
* `DecimalType.HasRoom`: The integer is held by a type for so many digits.
* `DecimalType.ReadsWhole`: The literal is read, or refused for the loss.

## Theorems

* `Decimal.denotes_of_integer`: Integer literals are decimal literals.
* `DecimalType.bitsForPrecision_cases`: Where the widths pass 32 and 64 bits.
* `DecimalType.parse_digits`: Literals of so many digits.
* `DecimalType.nines_refused`: Nineteen digits can be more than a type for
  nineteen digits holds.
-/

namespace Schemata

namespace Integer

/-- The text is a sign, or none, and one or more decimal digits, of which there are no more than
    a number. -/
def DenotesWithin (count : Nat) (cs : List Char) (n : Int) : Prop :=
  ∃ sign negative ds, Sign sign negative ∧ cs = sign ++ ds ∧ ds ≠ [] ∧
    (∀ c ∈ ds, c.isDigit = true) ∧ ds.length ≤ count ∧
    n = signed negative (Nat.ofDigitChars 10 ds 0)

section

variable (count : Nat) (cs : List Char) (n : Int) (h : DenotesWithin count cs n)

include h

theorem DenotesWithin.denotes : Denotes cs n := by
  rcases h with ⟨sign, negative, ds, hs, heq, hne, hd, _, hn⟩
  exact ⟨sign, negative, ds, hs, heq, hne, hd, hn⟩

theorem DenotesWithin.natAbs_lt : n.natAbs < 10 ^ count := by
  rcases h with ⟨_, negative, ds, _, _, _, hd, hle, rfl⟩
  rw [natAbs_signed]
  calc Nat.ofDigitChars 10 ds 0
      < 10 ^ (0 + ds.length) := ofDigitChars_lt ds 0 0 hd Nat.one_pos
    _ ≤ 10 ^ count := Nat.pow_le_pow_right (by decide) (by omega)

theorem DenotesWithin.count_pos : 0 < count := by
  rcases h with ⟨_, _, ds, _, _, hne, _, hle, _⟩
  exact Nat.lt_of_lt_of_le (List.length_pos_iff.mpr hne) hle

end

theorem mem_signed_of_natAbs_lt (bits : Nat) (n : Int) (h : n.natAbs < 2 ^ (bits - 1)) :
    n ∈ Range.signed bits := by
  rw [mem_range_iff, Range.signed]
  change -((2 ^ (bits - 1) : Nat) : Int) ≤ n ∧ n ≤ ((2 ^ (bits - 1) : Nat) : Int) - 1
  omega

end Integer

namespace Decimal

/-- An integer literal is a decimal literal of the same number. -/
theorem denotes_of_integer (cs : List Char) (n : Int) (h : Integer.Denotes cs n) :
    Denotes cs n := by
  rcases h with ⟨sign, negative, ds, hs, rfl, hne, hd, rfl⟩
  rcases ds with _ | ⟨first, rest⟩
  · exact absurd rfl hne
  -- A character that is neither a sign nor a digit does not occur.
  have hchar : ∀ c ∈ sign ++ first :: rest, c.isDigit = true ∨ c = '+' ∨ c = '-' := by
    intro c hc
    rcases List.mem_append.mp hc with hc | hc
    · cases hs with
      | none => exact absurd hc List.not_mem_nil
      | plus => exact Or.inr (Or.inl (List.mem_singleton.mp hc))
      | minus => exact Or.inr (Or.inr (List.mem_singleton.mp hc))
    · exact Or.inl (hd c hc)
  have hmark : ∀ c ∈ sign ++ first :: rest, isExponentMark c = false := by
    intro c hc
    by_contra hm
    rw [Bool.not_eq_false, isExponentMark, Bool.or_eq_true, beq_iff_eq, beq_iff_eq] at hm
    rcases hm with rfl | rfl <;> exact absurd (hchar _ hc) (by decide)
  have hpoint : '.' ∉ sign ++ first :: rest := fun hc => absurd (hchar '.' hc) (by decide)
  have hscore : (first :: rest).filter (· ≠ '_') = first :: rest := by
    refine List.filter_eq_self.mpr fun c hc => decide_eq_true ?_
    rintro rfl
    exact absurd (hd '_' hc) (by decide)
  have hscale : (0 : Int) ∈ scaleRange := by decide
  rcases List.forall_mem_cons.mp hd with ⟨hfirst, hrest⟩
  refine ⟨⟨Integer.signed negative (Nat.ofDigitChars 10 (first :: rest) 0), 0⟩, ⟨_, [], _, 0, 0,
    (List.append_nil _).symm, hmark, .plain _ hpoint, .none, ?_, rfl, hscale⟩, ?_⟩
  · exact ⟨sign, negative, first :: rest, _, hs, rfl,
      ⟨first, rest, rfl, hfirst, fun c hc => Or.inr (hrest c hc), by rw [hscore]⟩, rfl⟩
  · rw [value_eq_iff, zpow_zero, mul_one]

end Decimal

namespace DecimalType

/-- The value of an integer, as a type holds it. -/
def wholeValue (type : DecimalType) (n : Int) : Value :=
  match type.representation with
  | .int32 => .int n
  | .int64 => .long n
  | .arbitrary => .decimal ⟨n, 0⟩

/-- An integer of so many digits is held by the type that is made for them. The one exception
    are nineteen digits. -/
def HasRoom (precision : Nat) (n : Int) : Prop :=
  precision = 19 → n ∈ Integer.Range.signed 64

instance (precision : Nat) (n : Int) : Decidable (HasRoom precision n) :=
  inferInstanceAs (Decidable (precision = 19 → n ∈ Integer.Range.signed 64))

/-- What a type without fraction is made of. -/
theorem new_zero_eq_ok_iff (precision : Nat) (type : DecimalType) :
    new precision 0 = .ok type ↔ 0 < precision ∧ type.precision = precision ∧ type.scale = 0 ∧
      type.bits = some (bitsForPrecision precision) := by
  rw [new, if_pos rfl]
  by_cases hp : precision = 0
  · rw [if_pos hp, hp]
    exact ⟨nofun, fun h => absurd h.1 (Nat.lt_irrefl 0)⟩
  have hpos := Nat.pos_of_ne_zero hp
  have hbits := Nat.ne_of_gt (bitsForPrecision_pos precision hpos)
  rw [if_neg hp, integer, dif_neg hbits, dif_neg hp, Except.ok.injEq]
  constructor
  · rintro rfl
    exact ⟨hpos, rfl, rfl, rfl⟩
  · -- The other members of a type are proofs, so precision, scale and bits determine it.
    rintro ⟨_, rfl, hs, hb⟩
    rcases type with ⟨precision, scale, bits, _, _, _, _⟩
    simp only [] at hs hb
    simp only [hs, hb]

/-- Up to nine digits need no more than 32 bits, up to nineteen no more than 64, and more digits
    need more. -/
theorem bitsForPrecision_cases (precision : Nat) :
    (precision ≤ 9 ∧ bitsForPrecision precision ≤ 32) ∨
      (9 < precision ∧ precision ≤ 19 ∧ 32 < bitsForPrecision precision ∧
        bitsForPrecision precision ≤ 64) ∨
      (19 < precision ∧ 64 < bitsForPrecision precision) := by
  have hnarrow : ∀ p < 20, bitsForPrecision p ≤ if p ≤ 9 then 32 else 64 := by decide +kernel
  have hten : 33 * 2 ^ 51 ≤ 10 * log2Ten := by decide +kernel
  have htwenty : 65 * 2 ^ 51 ≤ 20 * log2Ten := by decide +kernel
  -- More digits need no fewer bits, so it is enough to know the first that need too many.
  have hwide : ∀ first bound, 0 < bound → bound ≤ greatestWidth →
      bound * 2 ^ 51 ≤ first * log2Ten → first ≤ precision → bound ≤ bitsForPrecision precision :=
    fun first bound hpos hmax hfirst hle => le_bitsForPrecision precision bound hpos hmax
      (Nat.le_trans hfirst (Nat.mul_le_mul_right _ hle))
  by_cases h9 : precision ≤ 9
  · have hle := hnarrow precision (by omega)
    rw [if_pos h9] at hle
    exact Or.inl ⟨h9, hle⟩
  right
  have h33 := hwide 10 33 (by decide) (by decide) hten (by omega)
  by_cases h19 : precision ≤ 19
  · have hle := hnarrow precision (by omega)
    rw [if_neg h9] at hle
    exact Or.inl ⟨by omega, h19, h33, hle⟩
  · exact Or.inr ⟨by omega, hwide 20 65 (by decide) (by decide) htwenty (by omega)⟩

section

variable (type : DecimalType) (text : String) (n : Int)

/-- An integer of few enough digits is read where the type can hold it, and is refused for the
    loss where it cannot. -/
def ReadsWhole (holds : Prop) : Prop :=
  (type.parse (some text) = .ok (some (type.wholeValue n)) ↔ holds) ∧
    (¬ holds → Fails SchemaError.isPrecision (type.parse (some text)))

theorem readsWhole_iff {p q : Prop} (h : p ↔ q) (hp : type.ReadsWhole text n p) :
    type.ReadsWhole text n q :=
  propext h ▸ hp

variable (hn : Integer.Denotes text.toList n) (hlt : n.natAbs < 10 ^ type.precision)

include hn hlt

theorem readsWhole_native (bits : Nat) (hb : type.bits = some bits) (hle : bits ≤ 64) :
    type.ReadsWhole text n (n ∈ nativeRange bits) := by
  rcases type.parse_native bits hb hle text with ⟨hok, _, hloss⟩
  have hvalue : type.wholeValue n = nativeValue bits n := by
    rw [wholeValue, representation, hb, nativeValue]
    by_cases h32 : bits ≤ 32
    · simp only [if_pos h32]
    · simp only [if_neg h32, if_pos hle]
  refine ⟨?_, fun hout => hloss.mpr (Or.inl ⟨n, hn, fun hh => hout hh.1⟩)⟩
  rw [hok, hvalue]
  constructor
  · rintro ⟨m, hm, hh, _⟩
    exact Integer.denotes_unique text.toList m n hm hn ▸ hh.1
  · exact fun hin => ⟨n, hn, ⟨hin, hlt⟩, rfl⟩

theorem readsWhole_exact (h : type.representation = .arbitrary) (hs : type.scale = 0) :
    type.ReadsWhole text n True := by
  refine ⟨iff_of_true (((type.parse_exact h text).1 _).mpr ⟨n, ⟨n, 0⟩, ?_, ?_, ?_, ?_, ?_⟩) trivial,
    fun hnot => absurd trivial hnot⟩
  · exact Decimal.denotes_of_integer text.toList n hn
  · exact ⟨n, by rw [hs, pow_zero, mul_one], hlt⟩
  · rw [wholeValue, h]
  · rw [Decimal.value_eq_iff, zpow_zero, mul_one]
  · rw [hs]
    rfl

end

/-- For a number of digits there is a type, as wide as the width of the digits. It reads every
    literal of so many digits as the integer that it says, but for integers of nineteen digits
    that are out of the range of 64 bits: these it refuses for the loss. -/
theorem parse_digits (precision : Nat) (text : String) (n : Int)
    (h : Integer.DenotesWithin precision text.toList n) :
    ∃ type, new precision 0 = .ok type ∧ type.bits = some (bitsForPrecision precision) ∧
      type.ReadsWhole text n (HasRoom precision n) := by
  have hpos := h.count_pos
  have hlt := h.natAbs_lt
  rcases (exists_new_iff precision 0).mpr ⟨hpos, Nat.zero_le _⟩ with ⟨type, hnew⟩
  rcases (new_zero_eq_ok_iff precision type).mp hnew with ⟨_, hp, hs, hb⟩
  refine ⟨type, hnew, hb, ?_⟩
  rw [← hp] at hlt
  -- The width decides the representation: 32 bits, 64 bits or the decimal itself.
  rcases bitsForPrecision_cases precision with ⟨h9, hbits⟩ | ⟨h9, h19, hwide, hbits⟩ |
    ⟨h19, hwide⟩
  · refine type.readsWhole_iff text n (iff_of_true ?_ fun he => absurd he (by omega))
      (type.readsWhole_native text n h.denotes hlt _ hb (by omega))
    rw [nativeRange, if_pos hbits]
    exact Integer.mem_signed_of_natAbs_lt 32 n (Nat.lt_of_lt_of_le hlt (by
      rw [hp]
      exact Nat.le_trans (Nat.pow_le_pow_right (by decide) h9) (by decide)))
  · refine type.readsWhole_iff text n ?_ (type.readsWhole_native text n h.denotes hlt _ hb hbits)
    rw [nativeRange, if_neg (Nat.not_le.mpr hwide)]
    -- Ten to the nineteenth is more than 64 bits hold with a sign, ten to the eighteenth is less.
    by_cases hfull : precision = 19
    · exact ⟨fun hin _ => hin, fun hroom => hroom hfull⟩
    · refine iff_of_true ?_ fun he => absurd he hfull
      exact Integer.mem_signed_of_natAbs_lt 64 n (Nat.lt_of_lt_of_le hlt (by
        rw [hp]
        exact Nat.le_trans (Nat.pow_le_pow_right (by decide) (show precision ≤ 18 by omega))
          (by decide)))
  · refine type.readsWhole_iff text n (iff_of_true trivial fun he => absurd he (by omega))
      (type.readsWhole_exact text n h.denotes hlt ?_ hs)
    rw [representation, hb]
    simp only []
    rw [if_neg (by omega), if_neg (by omega)]

/-- Of the integers of nineteen digits the greatest of 64 bits is read, also with a sign, and the
    next one is refused. -/
theorem parse_digits_nineteen :
    Integer.DenotesWithin 19 "+9223372036854775807".toList 9223372036854775807 ∧
      Integer.DenotesWithin 19 "9223372036854775808".toList 9223372036854775808 ∧
      ∃ type, new 19 0 = .ok type ∧
        type.parse (some "+9223372036854775807") = .ok (some (.long 9223372036854775807)) ∧
        Fails SchemaError.isPrecision (type.parse (some "9223372036854775808")) := by
  have hgreatest : Integer.DenotesWithin 19 "+9223372036854775807".toList 9223372036854775807 :=
    ⟨['+'], false, "9223372036854775807".toList, .plus, rfl, by decide,
      List.all_eq_true.mp rfl, by decide, by decide⟩
  have hnext : Integer.DenotesWithin 19 "9223372036854775808".toList 9223372036854775808 :=
    ⟨[], false, "9223372036854775808".toList, .none, rfl, by decide,
      List.all_eq_true.mp rfl, by decide, by decide⟩
  refine ⟨hgreatest, hnext, ?_⟩
  rcases parse_digits 19 _ _ hgreatest with ⟨type, hnew, hb, hread⟩
  rcases parse_digits 19 _ _ hnext with ⟨type', hnew', _, hread'⟩
  -- It is the same type that reads both texts.
  rw [← Except.ok.inj (hnew.symm.trans hnew')] at hread'
  have hvalue : type.wholeValue 9223372036854775807 = .long 9223372036854775807 := by
    rw [wholeValue, representation, hb]
    rfl
  exact ⟨type, hnew, hvalue ▸ hread.1.mpr (by decide), hread'.2 (by decide)⟩

/-- Nineteen digits can be more than a type for nineteen digits holds. -/
theorem nines_refused :
    new 19 0 = .ok long ∧
      Integer.DenotesWithin 19 "9999999999999999999".toList 9999999999999999999 ∧
      ∀ v, long.parse (some "9999999999999999999") ≠ .ok v := by
  have hparse : long.parse (some "9999999999999999999") =
      .error (.lossy long.name "9999999999999999999" (.range .tooLarge)) := by
    rfl
  refine ⟨by rfl, ?_, fun v => ?_⟩
  · exact ⟨[], false, "9999999999999999999".toList, .none, rfl, by decide,
      List.all_eq_true.mp rfl, by decide, by decide⟩
  · rw [hparse]
    exact nofun

end DecimalType

end Schemata
