import Mathlib.Algebra.Group.Nat.Defs
import Schemata.Number.Integer

/-!
# Integer Literals

What a text says as an integer, and what a reader with a range makes of it.

A literal is a sign, or none, and decimal digits (`Integer.Denotes`). Nothing in
that depends on a range. A reader takes one digit after the other and stops at
the first that leads out of its range, so what it finds at fault need not be
what is wrong with the text. Digits only ever lead further away from zero
(`Integer.le_ofDigitChars`). Therefore the reader stops for the range exactly if
the text begins with a literal of an integer out of the range, whatever stands
behind it (`Integer.read_overflow_iff`).

A negative literal is read like a positive one in the opposite range
(`Integer.readDown_eq`), so both directions take one induction.

## Main definitions

* `Integer.Sign`, `Integer.Denotes`: What a text says as an integer.
* `Integer.Range.opposite`: A range on the other side of zero.

## Theorems

* `Integer.readUp_eq_ok_iff`, `Integer.readUp_overflow_iff`: What is made of
  digits.
* `Integer.read_eq_ok_iff`: A literal of an integer within the range is read.
* `Integer.denotes_unique`: A text is a literal of one integer at most.
* `Integer.read_overflow_iff`: When a reader stops for the range.
* `Integer.mem_of_prefix`: It does not within a literal that it could read.
* `Integer.digitCount_le_iff`: The number of digits bounds the number.
-/

namespace Schemata

namespace Integer

/-! ### What a text says -/

/-- The signs that a literal may begin with, and whether they make it negative. -/
inductive Sign : List Char → Bool → Prop
  | none : Sign [] false
  | plus : Sign ['+'] false
  | minus : Sign ['-'] true

/-- The integer of a size on one side of zero. -/
def signed (negative : Bool) (size : Nat) : Int :=
  if negative then -(size : Int) else size

theorem natAbs_signed (negative : Bool) (size : Nat) : (signed negative size).natAbs = size := by
  unfold signed
  split
  · rw [Int.natAbs_neg, Int.natAbs_natCast]
  · exact Int.natAbs_natCast size

/-- The text is a sign, or none, and one or more decimal digits. Leading zeros count for
    nothing. -/
def Denotes (cs : List Char) (n : Int) : Prop :=
  ∃ sign negative ds, Sign sign negative ∧ cs = sign ++ ds ∧ ds ≠ [] ∧
    (∀ c ∈ ds, c.isDigit = true) ∧ n = signed negative (Nat.ofDigitChars 10 ds 0)

instance : Membership Int Range :=
  ⟨fun range n => range.least ≤ n ∧ n ≤ range.greatest⟩

instance (range : Range) (n : Int) : Decidable (n ∈ range) :=
  inferInstanceAs (Decidable (range.least ≤ n ∧ n ≤ range.greatest))

theorem mem_range_iff (range : Range) (n : Int) :
    n ∈ range ↔ range.least ≤ n ∧ n ≤ range.greatest :=
  Iff.rfl

theorem zero_mem_signed (bits : Nat) : (0 : Int) ∈ Range.signed bits := by
  have hpos : 0 < Nat.pow 2 (bits - 1) := Nat.two_pow_pos _
  simp only [mem_range_iff, Range.signed]
  omega

/-- The number of digits bounds the number. -/
theorem digitCount_le_iff (n k : Nat) (hk : 0 < k) : digitCount n ≤ k ↔ n < 10 ^ k :=
  Nat.length_toDigits_le_iff (by decide) hk

/-! ### Signs -/

/-- Behind no sign there are the digits alone. -/
theorem denotes_plain_iff (c : Char) (cs : List Char) (hs : ∀ negative, ¬ Sign [c] negative)
    (n : Int) : Denotes (c :: cs) n ↔
      (∀ d ∈ c :: cs, d.isDigit = true) ∧ n = signed false (Nat.ofDigitChars 10 (c :: cs) 0) := by
  constructor
  · rintro ⟨sign, negative, ds, hsign, heq, hne, hds, rfl⟩
    -- A sign would be the first character, which is none.
    cases hsign with
    | none =>
        rw [List.nil_append] at heq
        rw [heq]
        exact ⟨hds, rfl⟩
    | plus =>
        rw [(List.cons.inj heq).1] at hs
        exact absurd .plus (hs false)
    | minus =>
        rw [(List.cons.inj heq).1] at hs
        exact absurd .minus (hs true)
  · rintro ⟨hds, rfl⟩
    exact ⟨[], false, c :: cs, .none, rfl, List.cons_ne_nil _ _, hds, rfl⟩

/-- A sign belongs to the digits behind it. -/
theorem denotes_signed_iff (c : Char) (negative : Bool) (hs : Sign [c] negative) (cs : List Char)
    (n : Int) : Denotes (c :: cs) n ↔ cs ≠ [] ∧ (∀ d ∈ cs, d.isDigit = true) ∧
      n = signed negative (Nat.ofDigitChars 10 cs 0) := by
  -- The sign is no digit, so it cannot belong to digits without a sign.
  have hdigit : c.isDigit = false := by
    cases hs with
    | plus => rfl
    | minus => rfl
  constructor
  · rintro ⟨sign, negative', ds, hs', heq, hne, hds, rfl⟩
    cases hs' with
    | none =>
        rw [List.nil_append] at heq
        rw [← heq] at hds
        exact absurd (hds c List.mem_cons_self) (by rw [hdigit]; exact Bool.false_ne_true)
    | plus =>
        rcases List.cons.inj heq with ⟨rfl, rfl⟩
        cases hs
        exact ⟨hne, hds, rfl⟩
    | minus =>
        rcases List.cons.inj heq with ⟨rfl, rfl⟩
        cases hs
        exact ⟨hne, hds, rfl⟩
  · rintro ⟨hne, hds, rfl⟩
    exact ⟨[c], negative, cs, hs, rfl, hne, hds, rfl⟩

theorem not_denotes_nil (n : Int) : ¬ Denotes [] n := by
  rintro ⟨sign, negative, ds, _, heq, hne, _⟩
  exact hne (List.append_eq_nil_iff.mp heq.symm).2

/-! ### Digits -/

theorem digitValue?_of_isDigit (c : Char) (h : c.isDigit = true) :
    digitValue? c = some (c.toNat - '0'.toNat) := by
  rw [Char.isDigit, Bool.and_eq_true, decide_eq_true_eq, decide_eq_true_eq] at h
  rw [digitValue?, if_pos ⟨Char.le_def.mpr h.1, Char.le_def.mpr h.2⟩]
  rfl

theorem digitValue?_of_not_isDigit (c : Char) (h : c.isDigit = false) : digitValue? c = none := by
  rw [digitValue?, if_neg]
  rintro ⟨hle, hge⟩
  have hdigit : c.isDigit = true := by
    rw [Char.isDigit, Bool.and_eq_true, decide_eq_true_eq, decide_eq_true_eq]
    exact ⟨Char.le_def.mp hle, Char.le_def.mp hge⟩
  rw [h] at hdigit
  exact Bool.false_ne_true hdigit

/-- Digits lead away from zero. -/
theorem le_ofDigitChars (cs : List Char) (total : Nat) : total ≤ Nat.ofDigitChars 10 cs total := by
  induction cs generalizing total with
  | nil => exact Nat.le_refl total
  | cons c cs ih =>
      rw [Nat.ofDigitChars_cons]
      exact Nat.le_trans (by omega) (ih _)

/-- Each digit makes room for ten times as many numbers. -/
theorem ofDigitChars_lt (cs : List Char) (total k : Nat) (hd : ∀ c ∈ cs, c.isDigit = true)
    (h : total < 10 ^ k) : Nat.ofDigitChars 10 cs total < 10 ^ (k + cs.length) := by
  -- On the digits, with what was read of the ones in front.
  induction cs generalizing total k with
  | nil => exact h
  | cons c cs ih =>
      rcases List.forall_mem_cons.mp hd with ⟨hc, hcs⟩
      have hdigit : c.toNat - '0'.toNat < 10 := by
        rw [Char.isDigit, Bool.and_eq_true, decide_eq_true_eq, decide_eq_true_eq] at hc
        have hle : c.toNat ≤ '9'.toNat := hc.2
        exact Nat.lt_of_le_of_lt (Nat.sub_le_sub_right hle _) (by decide)
      rw [Nat.ofDigitChars_cons, List.length_cons, show k + (cs.length + 1) = k + 1 + cs.length by
        omega]
      refine ih _ (k + 1) hcs ?_
      rw [Nat.pow_succ]
      omega

section

variable (range : Range) (cs : List Char) (total : Nat)

theorem readUp_cons_of_isDigit (c : Char) (h : c.isDigit = true) :
    range.readUp total (c :: cs) =
      if ((10 * total + (c.toNat - '0'.toNat) : Nat) : Int) ≤ range.greatest then
        range.readUp (10 * total + (c.toNat - '0'.toNat) : Nat) cs
      else .error .tooLarge := by
  have hnext : (total : Int) * 10 + ((c.toNat - '0'.toNat : Nat) : Int)
      = ((10 * total + (c.toNat - '0'.toNat) : Nat) : Int) := by
    push_cast
    omega
  rw [Range.readUp, digitValue?_of_isDigit c h]
  simp only [hnext]

theorem readUp_cons_of_not_isDigit (c : Char) (h : c.isDigit = false) (start : Int) :
    range.readUp start (c :: cs) = .error .badDigit := by
  rw [Range.readUp, digitValue?_of_not_isDigit c h]

/-- Digits are read if what they say is within the range. -/
theorem readUp_eq_ok_iff (n : Int) (h : (total : Int) ≤ range.greatest) :
    range.readUp total cs = .ok n ↔
      (∀ c ∈ cs, c.isDigit = true) ∧ n = Nat.ofDigitChars 10 cs total ∧ n ≤ range.greatest := by
  induction cs generalizing total with
  | nil =>
      rw [Range.readUp, Except.ok.injEq]
      constructor
      · rintro rfl
        exact ⟨fun c hc => absurd hc List.not_mem_nil, rfl, h⟩
      · exact fun hn => hn.2.1.symm
  | cons c cs ih =>
      rw [List.forall_mem_cons]
      rcases hc : c.isDigit with _ | _
      · rw [readUp_cons_of_not_isDigit range cs c hc]
        simp only [reduceCtorEq, Bool.false_eq_true, false_and]
      · rw [readUp_cons_of_isDigit range cs total c hc, Nat.ofDigitChars_cons]
        by_cases hnext : ((10 * total + (c.toNat - '0'.toNat) : Nat) : Int) ≤ range.greatest
        · rw [if_pos hnext, ih _ hnext]
          simp only [true_and]
        · -- What is out of the range stays out of it.
          rw [if_neg hnext]
          have hle := le_ofDigitChars cs (10 * total + (c.toNat - '0'.toNat))
          constructor
          · exact fun he => nomatch he
          · rintro ⟨_, rfl, hn⟩
            omega

/-- Digits are refused for the range if some of them, from the first on, say an integer beyond
    it. -/
theorem readUp_overflow_iff (h : (total : Int) ≤ range.greatest) :
    (∃ fault, range.readUp total cs = .error fault ∧ fault.isRange = true) ↔
      ∃ ds, ds <+: cs ∧ (∀ c ∈ ds, c.isDigit = true) ∧
        range.greatest < Nat.ofDigitChars 10 ds total := by
  induction cs generalizing total with
  | nil =>
      constructor
      · rintro ⟨fault, he, _⟩
        exact nomatch he
      · rintro ⟨ds, hd, _, hlt⟩
        rw [List.prefix_nil.mp hd] at hlt
        exact absurd h (Int.not_le.mpr hlt)
  | cons c cs ih =>
      -- The digits that lead out of the range are not none at all.
      have hcons : (∃ ds, ds <+: c :: cs ∧ (∀ d ∈ ds, d.isDigit = true) ∧
          range.greatest < Nat.ofDigitChars 10 ds total) ↔ c.isDigit = true ∧ ∃ ds, ds <+: cs ∧
            (∀ d ∈ ds, d.isDigit = true) ∧ range.greatest <
              Nat.ofDigitChars 10 ds (10 * total + (c.toNat - '0'.toNat)) := by
        constructor
        · rintro ⟨front, hf, hds, hlt⟩
          rcases List.prefix_cons_iff.mp hf with rfl | ⟨ds, rfl, hd⟩
          · exact absurd h (Int.not_le.mpr hlt)
          · rw [List.forall_mem_cons] at hds
            exact ⟨hds.1, ds, hd, hds.2, hlt⟩
        · rintro ⟨hc, ds, hd, hds, hlt⟩
          exact ⟨c :: ds, List.prefix_cons_iff.mpr (Or.inr ⟨ds, rfl, hd⟩),
            List.forall_mem_cons.mpr ⟨hc, hds⟩, hlt⟩
      rw [hcons]
      rcases hc : c.isDigit with _ | _
      · rw [readUp_cons_of_not_isDigit range cs c hc]
        simp only [Except.error.injEq, exists_eq_left', Fault.isRange, Bool.false_eq_true,
          false_and]
      · rw [readUp_cons_of_isDigit range cs total c hc]
        by_cases hnext : ((10 * total + (c.toNat - '0'.toNat) : Nat) : Int) ≤ range.greatest
        · rw [if_pos hnext, ih _ hnext]
          simp only [true_and]
        · rw [if_neg hnext]
          simp only [Except.error.injEq, exists_eq_left', Fault.isRange, true_and, true_iff]
          exact ⟨[], List.nil_prefix, fun d hd => absurd hd List.not_mem_nil, Int.not_le.mp hnext⟩

end

/-! ### The other side of zero -/

/-- The range of the integers on the other side of zero. -/
def Range.opposite (range : Range) : Range :=
  ⟨-range.greatest, -range.least⟩

/-- The fault on the other side of zero. -/
def Fault.opposite : Fault → Fault
  | .tooLarge => .tooSmall
  | .tooSmall => .tooLarge
  | fault => fault

theorem Fault.isRange_opposite (fault : Fault) : fault.opposite.isRange = fault.isRange := by
  cases fault <;> rfl

/-- Digits are taken downwards as they are taken upwards on the other side of zero. -/
theorem readDown_eq (range : Range) (cs : List Char) (total : Int) :
    range.readDown total cs =
      ((range.opposite.readUp (-total) cs).map (-·)).mapError Fault.opposite := by
  induction cs generalizing total with
  | nil => exact congrArg Except.ok (Int.neg_neg total).symm
  | cons c cs ih =>
      rw [Range.readDown, Range.readUp]
      rcases digitValue? c with _ | d
      · rfl
      · -- One step down is one step up of the negated total,
        -- and both are checked against the same bound.
        have hnext : -total * 10 + (d : Int) = -(total * 10 - d) := by omega
        simp only [hnext, Range.opposite, Int.neg_le_neg_iff]
        by_cases hle : range.least ≤ total * 10 - d
        · rw [if_pos hle, if_pos hle]
          exact ih _
        · rw [if_neg hle, if_neg hle]
          rfl

/-- A result on the other side of zero. -/
theorem opposite_eq_ok_iff (result : Except Fault Int) (n : Int) :
    (result.map (-·)).mapError Fault.opposite = .ok n ↔ result = .ok (-n) := by
  rcases result with fault | m
  · change Except.error fault.opposite = .ok n ↔ _
    simp only [reduceCtorEq]
  · change Except.ok (-m) = .ok n ↔ _
    simp only [Except.ok.injEq]
    omega

theorem opposite_overflow_iff (result : Except Fault Int) :
    (∃ fault, (result.map (-·)).mapError Fault.opposite = .error fault ∧ fault.isRange = true) ↔
      ∃ fault, result = .error fault ∧ fault.isRange = true := by
  rcases result with fault | m
  · change (∃ other, Except.error fault.opposite = .error other ∧ _) ↔ _
    simp only [Except.error.injEq, exists_eq_left', Fault.isRange_opposite]
  · change (∃ other, Except.ok (-m) = .error other ∧ _) ↔ _
    simp only [reduceCtorEq, false_and, exists_false]

section

variable (range : Range) (cs : List Char)

theorem readDown_eq_ok_iff (n : Int) (h : range.least ≤ 0) :
    range.readDown 0 cs = .ok n ↔ (∀ c ∈ cs, c.isDigit = true) ∧
      n = -(Nat.ofDigitChars 10 cs 0 : Int) ∧ range.least ≤ n := by
  have hup := readUp_eq_ok_iff range.opposite cs 0 (-n) (Int.neg_nonneg_of_nonpos h)
  rw [readDown_eq, opposite_eq_ok_iff]
  refine hup.trans (and_congr_right fun _ => ?_)
  simp only [Range.opposite]
  omega

theorem readDown_overflow_iff (h : range.least ≤ 0) :
    (∃ fault, range.readDown 0 cs = .error fault ∧ fault.isRange = true) ↔
      ∃ ds, ds <+: cs ∧ (∀ c ∈ ds, c.isDigit = true) ∧
        -(Nat.ofDigitChars 10 ds 0 : Int) < range.least := by
  have hup := readUp_overflow_iff range.opposite cs 0 (Int.neg_nonneg_of_nonpos h)
  rw [readDown_eq, opposite_overflow_iff]
  refine hup.trans (exists_congr fun ds => and_congr_right fun _ => and_congr_right fun _ => ?_)
  simp only [Range.opposite]
  omega

end

/-! ### Literals -/

/-- Take digits away from zero on one side. -/
def Range.readSide (range : Range) (negative : Bool) (cs : List Char) : Except Fault Int :=
  if negative then range.readDown 0 cs else range.readUp 0 cs

section

variable (range : Range)

theorem read_signed (c : Char) (negative : Bool) (hs : Sign [c] negative) (cs : List Char)
    (h : cs ≠ []) : range.read (c :: cs) = range.readSide negative cs := by
  rcases cs with _ | ⟨d, cs⟩
  · exact absurd rfl h
  · cases hs with
    | plus => rfl
    | minus => rfl

theorem read_plain (c : Char) (cs : List Char) (hs : ∀ negative, ¬ Sign [c] negative) :
    range.read (c :: cs) = range.readSide false (c :: cs) := by
  have hplus : c ≠ '+' := fun hc => hs false (hc ▸ .plus)
  have hminus : c ≠ '-' := fun hc => hs true (hc ▸ .minus)
  simp only [Range.read, Range.readSide, Bool.false_eq_true, if_false, List.cons.injEq, hplus,
    hminus, false_and, imp_self, implies_true]

theorem read_sign (c : Char) (negative : Bool) (hs : Sign [c] negative) :
    range.read [c] = .error .badDigit := by
  cases hs with
  | plus => rfl
  | minus => rfl

variable (hzero : (0 : Int) ∈ range) (cs : List Char)

include hzero

/-- Beyond a range that has zero, there is only the end on the side of an integer. -/
theorem signed_mem_iff (negative : Bool) (size : Nat) : signed negative size ∈ range ↔
    if negative then range.least ≤ -(size : Int) else (size : Int) ≤ range.greatest := by
  rw [mem_range_iff] at hzero
  cases negative with
  | true =>
      simp only [mem_range_iff, signed, if_true]
      omega
  | false =>
      simp only [mem_range_iff, signed, Bool.false_eq_true, if_false]
      omega

theorem readSide_eq_ok_iff (negative : Bool) (n : Int) : range.readSide negative cs = .ok n ↔
    (∀ c ∈ cs, c.isDigit = true) ∧ n = signed negative (Nat.ofDigitChars 10 cs 0) ∧
      n ∈ range := by
  have hmem := signed_mem_iff range hzero negative (Nat.ofDigitChars 10 cs 0)
  -- Of the two bounds of the range only the one on this side of zero is checked. The other one
  -- holds by itself.
  cases negative with
  | true =>
      refine (readDown_eq_ok_iff range cs n hzero.1).trans ?_
      refine and_congr_right fun _ => and_congr_right fun hn => ?_
      rw [hn]
      exact hmem.symm
  | false =>
      refine (readUp_eq_ok_iff range cs 0 n hzero.2).trans ?_
      refine and_congr_right fun _ => and_congr_right fun hn => ?_
      rw [hn]
      exact hmem.symm

theorem readSide_overflow_iff (negative : Bool) :
    (∃ fault, range.readSide negative cs = .error fault ∧ fault.isRange = true) ↔
      ∃ ds, ds <+: cs ∧ (∀ c ∈ ds, c.isDigit = true) ∧
        signed negative (Nat.ofDigitChars 10 ds 0) ∉ range := by
  cases negative with
  | true =>
      refine (readDown_overflow_iff range cs hzero.1).trans ?_
      refine exists_congr fun ds => and_congr_right fun _ => and_congr_right fun _ => ?_
      rw [signed_mem_iff range hzero, if_pos rfl, Int.not_le]
  | false =>
      refine (readUp_overflow_iff range cs 0 hzero.2).trans ?_
      refine exists_congr fun ds => and_congr_right fun _ => and_congr_right fun _ => ?_
      rw [signed_mem_iff range hzero, if_neg Bool.false_ne_true, Int.not_le]

/-- What is read is a literal of an integer within the range. -/
theorem read_eq_ok_iff (n : Int) : range.read cs = .ok n ↔ Denotes cs n ∧ n ∈ range := by
  rcases cs with _ | ⟨c, cs⟩
  · simp only [Range.read, reduceCtorEq, not_denotes_nil, false_and]
  by_cases hs : ∃ negative, Sign [c] negative
  · rcases hs with ⟨negative, hs⟩
    rw [denotes_signed_iff c negative hs]
    by_cases hne : cs = []
    · simp only [hne, read_sign range c negative hs, reduceCtorEq, ne_eq, not_true_eq_false,
        false_and]
    · rw [read_signed range c negative hs cs hne, readSide_eq_ok_iff range hzero]
      simp only [hne, ne_eq, not_false_eq_true, true_and, and_assoc]
  · rw [not_exists] at hs
    rw [read_plain range c cs hs, denotes_plain_iff c cs hs, readSide_eq_ok_iff range hzero,
      and_assoc]

omit hzero in
/-- A text is a literal of one integer at most. -/
theorem denotes_unique (n m : Int) (hn : Denotes cs n) (hm : Denotes cs m) : n = m := by
  -- Some range has both integers, and a reader of that range finds the one and the other.
  let wide : Range := ⟨-(n.natAbs + m.natAbs), n.natAbs + m.natAbs⟩
  have hread := fun k (hk : Denotes cs k) (hin : k ∈ wide) =>
    (read_eq_ok_iff wide (by simp only [mem_range_iff, wide]; omega) cs k).mpr ⟨hk, hin⟩
  have hok := (hread n hn (by simp only [mem_range_iff, wide]; omega)).symm.trans
    (hread m hm (by simp only [mem_range_iff, wide]; omega))
  exact Except.ok.inj hok

/-- A text is refused for the range exactly if it begins with a literal of an integer out of the
    range. What stands behind that literal is not looked at. -/
theorem read_overflow_iff : (∃ fault, range.read cs = .error fault ∧ fault.isRange = true) ↔
    ∃ front n, front <+: cs ∧ Denotes front n ∧ n ∉ range := by
  rcases cs with _ | ⟨c, cs⟩
  · simp only [Range.read, Except.error.injEq, exists_eq_left', Fault.isRange, Bool.false_eq_true,
      false_iff, List.prefix_nil, not_exists, not_and]
    rintro front n rfl hn
    exact absurd hn (not_denotes_nil n)
  by_cases hs : ∃ negative, Sign [c] negative
  · rcases hs with ⟨negative, hs⟩
    have hread : (∃ fault, range.read (c :: cs) = .error fault ∧ fault.isRange = true) ↔
        ∃ fault, range.readSide negative cs = .error fault ∧ fault.isRange = true := by
      by_cases hne : cs = []
      · -- A sign alone is no literal, and no digits are within the range.
        have hok := (readSide_eq_ok_iff range hzero [] negative 0).mpr
          ⟨fun d hd => absurd hd List.not_mem_nil, by cases negative <;> rfl, hzero⟩
        simp only [hne, read_sign range c negative hs, hok, Except.error.injEq,
          exists_eq_left', Fault.isRange, Bool.false_eq_true, reduceCtorEq, false_and,
          exists_false]
      · rw [read_signed range c negative hs cs hne]
    rw [hread, readSide_overflow_iff range hzero]
    constructor
    · rintro ⟨ds, hd, hds, hout⟩
      refine ⟨c :: ds, _, List.cons_prefix_cons.mpr ⟨rfl, hd⟩,
        (denotes_signed_iff c negative hs ds _).mpr ⟨?_, hds, rfl⟩, hout⟩
      -- No digits say zero, which is within the range.
      rintro rfl
      exact hout (by cases negative <;> exact hzero)
    · rintro ⟨front, n, hf, hn, hout⟩
      rcases List.prefix_cons_iff.mp hf with rfl | ⟨ds, rfl, hd⟩
      · exact absurd hn (not_denotes_nil n)
      · rcases (denotes_signed_iff c negative hs ds n).mp hn with ⟨_, hds, rfl⟩
        exact ⟨ds, hd, hds, hout⟩
  · rw [not_exists] at hs
    rw [read_plain range c cs hs, readSide_overflow_iff range hzero]
    constructor
    · rintro ⟨front, hf, hds, hout⟩
      rcases List.prefix_cons_iff.mp hf with rfl | ⟨ds, rfl, hd⟩
      · exact absurd hzero hout
      · exact ⟨c :: ds, _, hf, (denotes_plain_iff c ds hs _).mpr ⟨hds, rfl⟩, hout⟩
    · rintro ⟨front, n, hf, hn, hout⟩
      rcases List.prefix_cons_iff.mp hf with rfl | ⟨ds, rfl, hd⟩
      · exact absurd hn (not_denotes_nil n)
      · rcases (denotes_plain_iff c ds hs n).mp hn with ⟨hds, rfl⟩
        exact ⟨c :: ds, hf, hds, hout⟩

/-- No beginning of a literal leads out of a range that has its integer. -/
theorem mem_of_prefix (n : Int) (hn : Denotes cs n) (hin : n ∈ range) (front : List Char)
    (m : Int) (hf : front <+: cs) (hm : Denotes front m) : m ∈ range := by
  refine Decidable.byContradiction fun hout => ?_
  rcases (read_overflow_iff range hzero cs).mpr ⟨front, m, hf, hm, hout⟩ with ⟨fault, hfault, _⟩
  have hread := (read_eq_ok_iff range hzero cs n).mpr ⟨hn, hin⟩
  exact nomatch (hfault.symm.trans hread)

end

end Integer

end Schemata
