import Mathlib.Algebra.Order.Field.Power
import Mathlib.Algebra.Order.Ring.Rat
import Mathlib.Data.Int.Cast.Lemmas
import Mathlib.Tactic.NormNum
import Schemata.Number.Decimal
import Schemata.Proofs.Results
import Schemata.Proofs.Number.Integers
import Schemata.Proofs.Registry.Lookup

/-!
# Decimals as Rationals

What a text says as a decimal, and which rational a decimal is.

A literal has digits, with a point among them or none, and an exponent or none
(`Decimal.Literal`). Both the point and the exponent only move the digits: the
number is an integer divided by a power of ten, and that power may be negative.
So a decimal is a rational (`Decimal.value`), and two decimals of different
scales can be the same one.

Everything that is computed with decimals is compared with the rational. The
test for the same number is equality of the rationals, and a number is left as
it is by another scale exactly if it is an integer in units of that scale.

## Main definitions

* `Decimal.Pointed`, `Decimal.Mantissa`, `Decimal.Exponent`: The parts of a
  literal.
* `Decimal.Literal`: The literals, and their decimals.
* `Decimal.value`: The rational that a decimal is.
* `Decimal.Denotes`: What a text says as a rational.

## Theorems

* `Decimal.read_eq_ok_iff`: What is read is what a text says.
* `Decimal.sameValue_iff`: The test for the same number.
* `Decimal.rescale_value_iff`: When another scale loses nothing.
* `Decimal.abs_mantissa_lt`, `Decimal.le_abs_mantissa`: The number of digits
  bounds the mantissa.
-/

namespace Schemata

namespace Decimal

/-! ### What a text says -/

/-- The text is digits with a point among them, or digits alone: the digits on both sides, and
    how many places stand behind the point. Underscores are no places. -/
inductive Pointed : List Char → List Char → Nat → Prop
  | plain (whole : List Char) (hw : '.' ∉ whole) : Pointed whole whole 0
  | point (whole part : List Char) (hw : '.' ∉ whole) :
      Pointed (whole ++ '.' :: part) (whole ++ part) (part.filter (· ≠ '_')).length

/-- The text is a run of decimal digits. Underscores may stand anywhere but at its beginning. -/
def Run (cs : List Char) (size : Nat) : Prop :=
  ∃ first rest, cs = first :: rest ∧ first.isDigit = true ∧
    (∀ c ∈ rest, c = '_' ∨ c.isDigit = true) ∧
    size = Nat.ofDigitChars 10 (cs.filter (· ≠ '_')) 0

/-- The text is a sign, or none, and a run of digits. -/
def Mantissa (cs : List Char) (mantissa : Int) : Prop :=
  ∃ sign negative run size, Integer.Sign sign negative ∧ cs = sign ++ run ∧ Run run size ∧
    mantissa = Integer.signed negative size

/-- The text is an exponent behind its mark, or there is none. -/
inductive Exponent : List Char → Int → Prop
  | none : Exponent [] 0
  | marked (mark : Char) (cs : List Char) (exponent : Int) (hm : isExponentMark mark = true)
      (hd : Integer.Denotes cs exponent) (hr : exponent ∈ exponentRange) :
      Exponent (mark :: cs) exponent

/-- The text is a decimal literal: digits around a point, and an exponent. The scale has to be
    one that there is. -/
def Literal (cs : List Char) (d : Decimal) : Prop :=
  ∃ base tail digits places exponent, cs = base ++ tail ∧
    (∀ c ∈ base, isExponentMark c = false) ∧ Pointed base digits places ∧
    Exponent tail exponent ∧ Mantissa digits d.mantissa ∧ d.scale = places - exponent ∧
    d.scale ∈ scaleRange

/-! ### The parts of a literal -/

/-- A list is divided in front of the first character that breaks a condition. -/
theorem divide_iff (p : Char → Bool) (cs : List Char) {front rest : List Char} :
    cs.takeWhile p = front ∧ cs.dropWhile p = rest ↔
      cs = front ++ rest ∧ (∀ c ∈ front, p c = true) ∧ ∀ c ∈ rest.head?, p c = false := by
  constructor
  · rintro ⟨rfl, rfl⟩
    refine ⟨List.takeWhile_append_dropWhile.symm, List.all_eq_true.mp List.all_takeWhile, ?_⟩
    intro c hc
    have hhead := List.head?_dropWhile_not p cs
    rwa [Option.mem_def.mp hc] at hhead
  · rintro ⟨rfl, hfront, hrest⟩
    rw [List.takeWhile_append_of_pos hfront, List.dropWhile_append_of_pos hfront]
    -- The front is taken as a whole, and the first character behind it stops the taking.
    rcases rest with _ | ⟨c, rest⟩
    · exact ⟨List.append_nil front, rfl⟩
    · have hc : ¬ p c = true := Bool.not_eq_true _ ▸ hrest c rfl
      rw [List.takeWhile_cons_of_neg hc, List.dropWhile_cons_of_neg hc]
      exact ⟨List.append_nil front, rfl⟩

theorem splitPoint_eq_iff (cs digits : List Char) (places : Nat) :
    splitPoint cs = (digits, places) ↔ Pointed cs digits places := by
  have hall (whole : List Char) (hw : '.' ∉ whole) : ∀ c ∈ whole, decide (c ≠ '.') = true :=
    fun c hc => decide_eq_true fun hdot => hw (hdot ▸ hc)
  unfold splitPoint
  constructor
  · have hdivide := (divide_iff (· ≠ '.') cs).mp ⟨rfl, rfl⟩
    generalize cs.takeWhile (· ≠ '.') = whole at hdivide ⊢
    generalize cs.dropWhile (· ≠ '.') = rest at hdivide ⊢
    rcases hdivide with ⟨rfl, hwhole, hrest⟩
    have hw : '.' ∉ whole := fun hd => absurd rfl (of_decide_eq_true (hwhole '.' hd))
    intro h
    -- Behind the first point everything is the fraction, points included.
    rcases rest with _ | ⟨c, part⟩
    · rcases Prod.mk.inj h with ⟨rfl, rfl⟩
      rw [List.append_nil]
      exact .plain whole hw
    · have hc : c = '.' := by
        have hhead := hrest c rfl
        rwa [decide_eq_false_iff_not, not_not] at hhead
      rcases Prod.mk.inj h with ⟨rfl, rfl⟩
      rw [hc]
      exact .point whole part hw
  · intro h
    cases h with
    | plain _ hw =>
        rcases (divide_iff (· ≠ '.') cs).mpr
          ⟨(List.append_nil _).symm, hall cs hw, fun c hc => nomatch hc⟩ with ⟨ht, hd⟩
        rw [ht, hd]
    | point whole part hw =>
        have hdot : ∀ c ∈ ('.' :: part).head?, decide (c ≠ '.') = false := by
          rintro c hc
          rw [← Option.some.inj hc]
          rfl
        rcases (divide_iff (· ≠ '.') _).mpr ⟨rfl, hall whole hw, hdot⟩ with ⟨ht, hd⟩
        rw [ht, hd]

/-! ### Runs of digits -/

theorem readDigits_eq_ok_iff (cs : List Char) (total size : Nat) :
    readDigits total cs = .ok size ↔ (∀ c ∈ cs, c = '_' ∨ c.isDigit = true) ∧
      size = Nat.ofDigitChars 10 (cs.filter (· ≠ '_')) total := by
  -- The total is that of the digits so far, and an underscore leaves it alone.
  induction cs generalizing total with
  | nil =>
      rw [readDigits, Except.ok.injEq]
      exact ⟨fun h => ⟨fun c hc => absurd hc List.not_mem_nil, h.symm⟩, fun h => h.2.symm⟩
  | cons c cs ih =>
      rw [List.forall_mem_cons]
      by_cases hc : c = '_'
      · rw [hc, readDigits, ih, List.filter_cons_of_neg (by decide)]
        simp only [true_or, true_and]
      · rw [List.filter_cons_of_pos (p := (· ≠ '_')) (decide_eq_true hc), Nat.ofDigitChars_cons]
        rcases hd : c.isDigit with _ | _
        · rw [readDigits, Integer.digitValue?_of_not_isDigit c hd]
          · simp only [reduceCtorEq, hc, Bool.false_eq_true, or_self, false_and]
          · exact hc
        · rw [readDigits, Integer.digitValue?_of_isDigit c hd]
          · simp only [ih, or_true, true_and]
          · exact hc

/-- A run begins with a digit. -/
theorem Run.isDigit (c : Char) (cs : List Char) (size : Nat) (h : Run (c :: cs) size) :
    c.isDigit = true := by
  rcases h with ⟨first, rest, heq, hd, _, _⟩
  rw [(List.cons.inj heq).1]
  exact hd

/-- No run begins with a sign. -/
theorem not_run_sign (c : Char) (hc : c.isDigit = false) (cs : List Char) (size : Nat) :
    ¬ Run (c :: cs) size := by
  intro h
  rw [h.isDigit c cs size] at hc
  exact absurd hc (by decide)

theorem not_run_nil (size : Nat) : ¬ Run [] size := by
  rintro ⟨first, rest, heq, _⟩
  exact List.cons_ne_nil _ _ heq.symm

/-- The digits of a text that has to be a run. -/
def readRun : List Char → Except Integer.Fault Nat
  | [] => .error .empty
  | '_' :: _ => .error .badDigit
  | cs => readDigits 0 cs

theorem readRun_eq_ok_iff (cs : List Char) (size : Nat) :
    readRun cs = .ok size ↔ Run cs size := by
  unfold readRun
  split
  · simp only [reduceCtorEq, not_run_nil]
  · simp only [reduceCtorEq, false_iff]
    exact not_run_sign '_' (by decide) _ size
  · -- There is a first character, and it is no underscore.
    next hne hscore =>
      rw [readDigits_eq_ok_iff]
      constructor
      · rintro ⟨hall, hsize⟩
        rcases cs with _ | ⟨first, rest⟩
        · exact absurd rfl hne
        rw [List.forall_mem_cons] at hall
        have hfirst : first ≠ '_' := fun h => hscore rest (h ▸ rfl)
        exact ⟨first, rest, rfl, hall.1.resolve_left hfirst, hall.2, hsize⟩
      · rintro ⟨first, rest, rfl, hd, hall, hsize⟩
        exact ⟨List.forall_mem_cons.mpr ⟨Or.inr hd, hall⟩, hsize⟩

/-- The text without a plus sign in front, unless another one follows. -/
def withoutPlus (cs : List Char) : List Char :=
  match cs with
  | '+' :: '+' :: _ => cs
  | '+' :: rest => rest
  | cs => cs

theorem readNatural_eq (cs : List Char) : readNatural cs = readRun (withoutPlus cs) :=
  rfl

theorem readNatural_eq_ok_iff (cs : List Char) (size : Nat) : readNatural cs = .ok size ↔
    Run cs size ∨ ∃ run, cs = '+' :: run ∧ Run run size := by
  have hplus := not_run_sign '+' (by decide)
  rw [readNatural_eq, readRun_eq_ok_iff]
  unfold withoutPlus
  split
  · simp only [hplus, List.cons.injEq, true_and, exists_eq_left', or_self]
  · simp only [hplus, List.cons.injEq, true_and, exists_eq_left', false_or]
  · next hne =>
      refine (or_iff_left ?_).symm
      rintro ⟨run, heq, _⟩
      exact hne run heq

theorem mantissa_iff (cs : List Char) (mantissa : Int) : Mantissa cs mantissa ↔
    (∃ size : Nat, readNatural cs = .ok size ∧ mantissa = size) ∨
      ∃ run, cs = '-' :: run ∧ ∃ size : Nat, Run run size ∧ mantissa = -(size : Int) := by
  simp only [readNatural_eq_ok_iff]
  constructor
  · rintro ⟨sign, negative, run, size, hs, rfl, hr, rfl⟩
    cases hs with
    | none => exact Or.inl ⟨size, Or.inl hr, rfl⟩
    | plus => exact Or.inl ⟨size, Or.inr ⟨run, rfl, hr⟩, rfl⟩
    | minus => exact Or.inr ⟨run, rfl, size, hr, rfl⟩
  · rintro (⟨size, hr | ⟨run, rfl, hr⟩, rfl⟩ | ⟨run, rfl, size, hr, rfl⟩)
    · exact ⟨[], false, cs, size, .none, rfl, hr, rfl⟩
    · exact ⟨['+'], false, run, size, .plus, rfl, hr, rfl⟩
    · exact ⟨['-'], true, run, size, .minus, rfl, hr, rfl⟩

theorem readMantissa_eq_ok_iff (cs : List Char) (mantissa : Int) :
    readMantissa cs = .ok mantissa ↔ Mantissa cs mantissa := by
  have hminus := not_run_sign '-' (by decide)
  rw [mantissa_iff]
  unfold readMantissa
  split
  · -- A plus sign behind the minus sign is not dropped, and it is no digit.
    simp only [bind_eq_ok_iff, readNatural_eq_ok_iff, hminus, List.cons.injEq, Char.reduceEq,
      false_and, exists_false, or_self, true_and, exists_eq_left',
      not_run_sign '+' (by decide)]
  · next run hne =>
      simp only [bind_eq_ok_iff, pure_eq_ok_iff, readNatural_eq_ok_iff, hminus, List.cons.injEq,
        Char.reduceEq, false_and, exists_false, or_self, true_and, exists_eq_left', false_or]
      refine exists_congr fun size => and_congr (or_iff_left ?_) eq_comm
      rintro ⟨rest, heq, _⟩
      exact hne rest heq
  · next hne =>
      simp only [bind_eq_ok_iff, pure_eq_ok_iff]
      refine Iff.trans (exists_congr fun size => and_congr_right fun _ => eq_comm)
        (or_iff_left ?_).symm
      rintro ⟨run, heq, _⟩
      exact hne run heq

/-! ### Literals -/

theorem readExponent_eq_ok_iff (cs : List Char) (exponent : Int)
    (hm : ∀ c ∈ cs.head?, isExponentMark c = true) :
    readExponent cs = .ok exponent ↔ Exponent cs exponent := by
  -- Without a mark there is no exponent. Behind one there is an integer of 128 bits.
  rcases cs with _ | ⟨mark, cs⟩
  · rw [readExponent, Except.ok.injEq]
    constructor
    · rintro rfl
      exact .none
    · rintro ⟨⟩
      rfl
  · rw [readExponent, Integer.read_eq_ok_iff exponentRange (Integer.zero_mem_signed 128)]
    constructor
    · rintro ⟨hd, hr⟩
      exact .marked mark cs exponent (hm mark rfl) hd hr
    · rintro ⟨⟩
      exact ⟨‹_›, ‹_›⟩

theorem Pointed.ne_nil (base digits : List Char) (places : Nat) (h : Pointed base digits places)
    (hne : digits ≠ []) : base ≠ [] := by
  cases h with
  | plain _ hw => exact hne
  | point whole part hw => exact List.append_ne_nil_of_right_ne_nil _ (List.cons_ne_nil _ _)

theorem Mantissa.ne_nil (cs : List Char) (mantissa : Int) (h : Mantissa cs mantissa) :
    cs ≠ [] := by
  rcases h with ⟨sign, negative, run, size, _, rfl, ⟨first, rest, rfl, _⟩, _⟩
  exact List.append_ne_nil_of_right_ne_nil _ (List.cons_ne_nil _ _)

/-- What is read is what a text says. -/
theorem read_eq_ok_iff (text : String) (d : Decimal) :
    read text = .ok d ↔ Literal text.toList d := by
  unfold read
  simp only [bind_eq_ok_iff, mapError_eq_ok_iff, pure_eq_ok_iff, refuse_eq_ok_iff]
  constructor
  · have hdivide := (divide_iff (!isExponentMark ·) text.toList).mp ⟨rfl, rfl⟩
    generalize text.toList.takeWhile (!isExponentMark ·) = base at hdivide ⊢
    generalize text.toList.dropWhile (!isExponentMark ·) = tail at hdivide ⊢
    rcases hdivide with ⟨htext, hbase, htail⟩
    rintro ⟨exponent, hexp, _, hscale, mantissa, hm, rfl⟩
    rw [readExponent_eq_ok_iff tail exponent
      fun c hc => Bool.not_eq_eq_eq_not.mp (htail c hc)] at hexp
    rw [readMantissa_eq_ok_iff] at hm
    rw [not_or, Int.not_lt, Int.not_lt] at hscale
    exact ⟨base, tail, _, _, exponent, htext, fun c hc => Bool.not_eq_eq_eq_not.mp (hbase c hc),
      (splitPoint_eq_iff base _ _).mp rfl, hexp, hm, rfl, hscale⟩
  · rintro ⟨base, tail, digits, places, exponent, htext, hbase, hp, hexp, hm, hd, hscale⟩
    -- What follows the digits is nothing or begins with a mark, and the digits have none.
    have hmark : ∀ c ∈ tail.head?, isExponentMark c = true := by
      cases hexp with
      | none => exact fun c hc => nomatch hc
      | marked mark cs _ hmark => exact fun c hc => Option.some.inj hc ▸ hmark
    have hne := hp.ne_nil base digits places (hm.ne_nil digits d.mantissa)
    rcases (divide_iff (!isExponentMark ·) text.toList).mpr ⟨htext,
      fun c hc => Bool.not_eq_eq_eq_not.mpr (hbase c hc),
      fun c hc => Bool.not_eq_eq_eq_not.mpr (hmark c hc)⟩ with ⟨htake, hdrop⟩
    rw [htake, hdrop, (splitPoint_eq_iff base digits places).mpr hp]
    refine ⟨exponent, (readExponent_eq_ok_iff tail exponent hmark).mpr hexp, hne, ?_,
      d.mantissa, (readMantissa_eq_ok_iff digits d.mantissa).mpr hm, ?_⟩
    · rw [← hd, not_or, Int.not_lt, Int.not_lt]
      exact hscale
    · rw [← hd]

/-! ### Rationals -/

/-- The rational that a decimal is. -/
def value (d : Decimal) : ℚ :=
  d.mantissa * (10 : ℚ) ^ (-d.scale)

/-- The text is a decimal literal of the rational. -/
def Denotes (cs : List Char) (x : ℚ) : Prop :=
  ∃ d, Literal cs d ∧ d.value = x

theorem denotes_iff (text : String) (x : ℚ) :
    Denotes text.toList x ↔ ∃ d, read text = .ok d ∧ d.value = x :=
  exists_congr fun d => and_congr_left fun _ => (read_eq_ok_iff text d).symm

/-- A text is a literal of one rational at most. -/
theorem denotes_unique (text : String) (x y : ℚ) (hx : Denotes text.toList x)
    (hy : Denotes text.toList y) : x = y := by
  rcases (denotes_iff text x).mp hx with ⟨d, hd, rfl⟩
  rcases (denotes_iff text y).mp hy with ⟨d', hd', rfl⟩
  rw [Except.ok.inj (hd.symm.trans hd')]

theorem ten_zpow_pos (k : Int) : (0 : ℚ) < 10 ^ k :=
  zpow_pos (by norm_num) k

theorem ten_zpow_ne_zero (k : Int) : (10 : ℚ) ^ k ≠ 0 :=
  ne_of_gt (ten_zpow_pos k)

theorem cast_ten_pow (k : Int) (h : 0 ≤ k) : ((Nat.pow 10 k.toNat : Int) : ℚ) = 10 ^ k := by
  rw [← Int.toNat_of_nonneg h, zpow_natCast, Int.toNat_natCast, Int.cast_natCast]
  exact Nat.cast_pow 10 k.toNat

/-- In units of a scale a decimal is its mantissa, moved by the difference of the scales. -/
theorem value_mul (d : Decimal) (scale : Int) :
    d.value * 10 ^ scale = d.mantissa * (10 : ℚ) ^ (scale - d.scale) := by
  rw [value, mul_assoc, ← zpow_add₀ (by norm_num), neg_add_eq_sub]

theorem value_eq_iff (d : Decimal) (x : ℚ) : d.value = x ↔ (d.mantissa : ℚ) = x * 10 ^ d.scale := by
  rw [value, zpow_neg, ← div_eq_mul_inv, div_eq_iff (ten_zpow_ne_zero _)]

/-- Decimals of one scale are apart as rationals. -/
theorem ext_value (d d' : Decimal) (hv : d.value = d'.value) (hs : d.scale = d'.scale) :
    d = d' := by
  have hm : (d.mantissa : ℚ) = d'.mantissa := by
    rw [(value_eq_iff d _).mp hv, (value_eq_iff d' _).mp rfl, hs]
  cases d
  cases d'
  simp only at hm hs
  rw [Int.cast_injective hm, hs]

/-! ### Other scales -/

theorem rescale_scale (d : Decimal) (scale : Int) : (d.rescale scale).scale = scale := by
  unfold rescale
  split
  · rfl
  · rfl

/-- More places lose nothing. -/
theorem rescale_mantissa_of_le (d : Decimal) (scale : Int) (h : d.scale ≤ scale) :
    ((d.rescale scale).mantissa : ℚ) = d.value * 10 ^ scale := by
  rw [rescale, if_pos h, Int.cast_mul, cast_ten_pow _ (Int.sub_nonneg_of_le h), value_mul]

/-- Another scale loses nothing if the number is an integer in its units. -/
theorem rescale_value_iff (d : Decimal) (scale : Int) :
    (d.rescale scale).value = d.value ↔ ∃ n : Int, d.value * 10 ^ scale = n := by
  rw [value_eq_iff, rescale_scale]
  constructor
  · exact fun h => ⟨_, h.symm⟩
  · rintro ⟨n, hn⟩
    by_cases hle : d.scale ≤ scale
    · exact d.rescale_mantissa_of_le scale hle
    · -- The mantissa is the integer with as many zeros as are cut.
      have hpos : 0 ≤ d.scale - scale := by omega
      have hm : d.mantissa = n * Nat.pow 10 (d.scale - scale).toNat := by
        have hcast : (d.mantissa : ℚ) = n * 10 ^ (d.scale - scale) := by
          rw [← hn, value_mul, mul_assoc, ← zpow_add₀ (by norm_num)]
          simp only [sub_add_sub_cancel, sub_self, zpow_zero, mul_one]
        rw [← cast_ten_pow _ hpos, ← Int.cast_mul] at hcast
        exact Int.cast_injective hcast
      have hne : (Nat.pow 10 (d.scale - scale).toNat : Int) ≠ 0 := by
        exact_mod_cast Nat.ne_of_gt (Nat.pow_pos (by decide))
      rw [rescale, if_neg hle, hn]
      simp only [hm, Int.mul_tdiv_cancel _ hne]

/-- The test for the same number is equality of the rationals. -/
theorem sameValue_iff (a b : Decimal) : SameValue a b ↔ a.value = b.value := by
  rw [SameValue, ← Int.cast_inj (α := ℚ), rescale_mantissa_of_le a _ (le_max_left _ _),
    rescale_mantissa_of_le b _ (le_max_right _ _), mul_left_inj' (ten_zpow_ne_zero _)]

/-! ### Digits -/

/-- The number of digits bounds the mantissa. -/
theorem abs_mantissa_lt (d : Decimal) :
    |(d.mantissa : ℚ)| < 10 ^ (d.digitCount : Int) := by
  have hpos : 0 < d.digitCount := Nat.length_toDigits_pos
  have hlt := (Integer.digitCount_le_iff _ _ hpos).mp (Nat.le_refl d.digitCount)
  rw [← Int.cast_abs, Int.abs_eq_natAbs, zpow_natCast]
  exact_mod_cast hlt

theorem le_abs_mantissa (d : Decimal) (h : d.mantissa ≠ 0) :
    10 ^ ((d.digitCount : Int) - 1) ≤ |(d.mantissa : ℚ)| := by
  have hpos : 0 < d.digitCount := Nat.length_toDigits_pos
  have hle : 10 ^ (d.digitCount - 1) ≤ d.mantissa.natAbs := by
    by_cases hone : d.digitCount = 1
    · rw [hone]
      exact Int.natAbs_pos.mpr h
    · by_contra hlt
      have hcount := (Integer.digitCount_le_iff d.mantissa.natAbs (d.digitCount - 1)
        (by omega)).mpr (Nat.lt_of_not_le hlt)
      have hself : Integer.digitCount d.mantissa.natAbs = d.digitCount := rfl
      omega
  rw [← Int.cast_abs, Int.abs_eq_natAbs, ← Nat.cast_pred hpos, zpow_natCast]
  exact_mod_cast hle

section

variable (d : Decimal) (hne : d.mantissa ≠ 0) (scale n : Int) (hn : d.value * 10 ^ scale = n)

include hne hn

/-- An integer in units of a scale has as many digits as the decimal, less those that the scale
    cuts. -/
theorem digits_le_of_natAbs_lt (precision : Nat) (h : n.natAbs < 10 ^ precision) :
    d.digitCount - d.scale ≤ precision - scale := by
  have hlt : |(n : ℚ)| < 10 ^ (precision : Int) := by
    rw [← Int.cast_abs, Int.abs_eq_natAbs, zpow_natCast]
    exact_mod_cast h
  rw [← hn, value_mul, abs_mul, abs_of_pos (ten_zpow_pos _)] at hlt
  have hle := mul_le_mul_of_nonneg_right (d.le_abs_mantissa hne)
    (ten_zpow_pos (scale - d.scale)).le
  rw [← zpow_add₀ (by norm_num)] at hle
  have hexp := (zpow_lt_zpow_iff_right₀ (by norm_num)).mp (lt_of_le_of_lt hle hlt)
  omega

/-- An integer in units of a scale is not zero, so the scale leaves some of the digits. -/
theorem sub_lt_digits : d.scale - scale < d.digitCount := by
  have hone : (1 : ℚ) ≤ |(n : ℚ)| := by
    have hn0 : n ≠ 0 := by
      rintro rfl
      rw [value_mul, Int.cast_zero, mul_eq_zero, Int.cast_eq_zero] at hn
      exact hn.elim hne (ten_zpow_ne_zero _)
    rw [← Int.cast_abs]
    exact_mod_cast Int.one_le_abs hn0
  rw [← hn, value_mul, abs_mul, abs_of_pos (ten_zpow_pos _)] at hone
  have hlt := mul_lt_mul_of_pos_right d.abs_mantissa_lt (ten_zpow_pos (scale - d.scale))
  rw [← zpow_add₀ (by norm_num)] at hlt
  have hexp := (zpow_lt_zpow_iff_right₀ (by norm_num)).mp
    (lt_of_le_of_lt (zpow_zero (10 : ℚ) ▸ hone) hlt)
  omega

end

end Decimal

end Schemata
