import Schemata.Proofs.Number.Decimals

/-!
# Printed Numbers

What is printed for an integer or a decimal is a literal of it.

A decimal has two notations. The plain one puts a point in front of the last
digits, with zeros in front of all of them if they are too few. The other one puts
the point behind the first digit, and an exponent moves it to where it belongs.
In both the digits around the point are those of the mantissa but for leading
zeros, and these say nothing. So the literal is compared with the mantissa once
(`Decimal.literal_of_pointed`), and of each notation only the point and the
exponent remain to be looked at.

Zero is printed without places. What is read then is not the same decimal but the
same rational, and so the literal of any decimal is stated for its rational.

## Theorems

* `Integer.denotes_toString`: A printed integer.
* `Decimal.literal_text`: A printed decimal that is not zero.
* `Decimal.denotes_text`: A printed decimal says its rational.
-/

namespace Schemata

/-! ### Integers -/

namespace Integer

theorem signed_natAbs (n : Int) : signed (decide (n < 0)) n.natAbs = n := by
  unfold signed
  split
  · next h => rw [Int.ofNat_natAbs_of_nonpos (Int.le_of_lt (of_decide_eq_true h)), Int.neg_neg]
  · next h => exact Int.natAbs_of_nonneg (Int.not_lt.mp fun hlt => h (decide_eq_true hlt))

/-- The sign that is printed in front of a number. -/
theorem sign_printed (n : Int) : Sign (if n < 0 then "-" else "").toList (decide (n < 0)) := by
  by_cases h : n < 0
  · rw [if_pos h, decide_eq_true h]
    exact .minus
  · rw [if_neg h, decide_eq_false h]
    exact .none

theorem isDigit_of_mem_digits (n : Nat) : ∀ c ∈ digits n, c.isDigit = true :=
  fun _ hc => Nat.isDigit_of_mem_toDigits (by decide) (by decide) hc

theorem ofDigitChars_digits (n : Nat) : Nat.ofDigitChars 10 (digits n) 0 = n :=
  Nat.ofDigitChars_ten_toDigits

theorem toList_toString (n : Int) :
    (toString n).toList = (if n < 0 then "-" else "").toList ++ digits n.natAbs := by
  rw [Int.toString_eq_repr, Int.repr_eq_if]
  by_cases h : n < 0
  · rw [if_neg (Int.not_le.mpr h), if_pos h, String.toList_append, Nat.toList_repr, digits]
    congr 2
    omega
  · rw [if_pos (Int.not_lt.mp h), if_neg h, Nat.toList_repr, digits]
    congr 1
    omega

/-- An integer is printed as a literal of itself. -/
theorem denotes_toString (n : Int) : Denotes (toString n).toList n :=
  ⟨_, _, _, sign_printed n, toList_toString n, Nat.toDigits_ne_nil, isDigit_of_mem_digits _, by
    rw [ofDigitChars_digits, signed_natAbs]⟩

end Integer

/-! ### Decimals -/

namespace Decimal

/-- Zeros in front of digits say nothing. -/
theorem ofDigitChars_zeros (k : Nat) (cs : List Char) :
    Nat.ofDigitChars 10 (List.replicate k '0' ++ cs) 0 = Nat.ofDigitChars 10 cs 0 := by
  induction k with
  | zero => rfl
  | succ k ih => exact ih

theorem isDigit_of_mem_zeros (k : Nat) (cs : List Char) (hd : ∀ c ∈ cs, c.isDigit = true) :
    ∀ c ∈ List.replicate k '0' ++ cs, c.isDigit = true := by
  intro c hc
  rcases List.mem_append.mp hc with hz | hc
  · rw [List.eq_of_mem_replicate hz]
    rfl
  · exact hd c hc

theorem not_mem_of_digits (mark : Char) (hm : mark.isDigit = false) (cs : List Char)
    (hd : ∀ c ∈ cs, c.isDigit = true) : mark ∉ cs :=
  fun h => Bool.false_ne_true (hm.symm.trans (hd mark h))

theorem filter_digits (cs : List Char) (hd : ∀ c ∈ cs, c.isDigit = true) :
    cs.filter (· ≠ '_') = cs :=
  List.filter_eq_self.mpr fun _ hc =>
    decide_eq_true fun h => not_mem_of_digits '_' (by decide) cs hd (h ▸ hc)

section

variable {sign : List Char} {negative : Bool} (hs : Integer.Sign sign negative)

include hs

theorem mantissa_digits (cs : List Char) (hne : cs ≠ []) (hd : ∀ c ∈ cs, c.isDigit = true) :
    Mantissa (sign ++ cs) (Integer.signed negative (Nat.ofDigitChars 10 cs 0)) := by
  refine ⟨sign, negative, cs, _, hs, rfl, ?_, rfl⟩
  rcases cs with _ | ⟨first, rest⟩
  · exact absurd rfl hne
  · refine ⟨first, rest, rfl, hd first List.mem_cons_self, fun c hc => ?_, ?_⟩
    · exact Or.inr (hd c (List.mem_cons_of_mem _ hc))
    · rw [filter_digits _ hd]

/-- A sign is neither a point nor the mark of an exponent. -/
theorem sign_marks : ∀ c ∈ sign, c ≠ '.' ∧ isExponentMark c = false := by
  cases hs with
  | none => exact nofun
  | plus => exact List.forall_mem_singleton.mpr (by decide)
  | minus => exact List.forall_mem_singleton.mpr (by decide)

theorem Pointed.behind_sign {base cs : List Char} {places : Nat} (hp : Pointed base cs places) :
    Pointed (sign ++ base) (sign ++ cs) places := by
  have hsign : '.' ∉ sign := fun h => (sign_marks hs '.' h).1 rfl
  cases hp with
  | plain _ hw => exact .plain _ (List.not_mem_append hsign hw)
  | point whole part hw =>
      rw [← List.append_assoc, ← List.append_assoc]
      exact .point (sign ++ whole) part (List.not_mem_append hsign hw)

/-- A sign and digits with a point among them, or without one, and an exponent are the literal of
    the integer of the digits, with the point moved by the exponent. -/
theorem literal_of_pointed {base cs tail : List Char} {places : Nat} {exponent : Int}
    (hp : Pointed base cs places) (hne : cs ≠ []) (hd : ∀ c ∈ cs, c.isDigit = true)
    (he : Exponent tail exponent) (hr : places - exponent ∈ scaleRange) :
    Literal (sign ++ base ++ tail)
      ⟨Integer.signed negative (Nat.ofDigitChars 10 cs 0), places - exponent⟩ := by
  have hbase : ∀ c ∈ base, c = '.' ∨ c ∈ cs := by
    cases hp with
    | plain _ _ => exact fun c hc => Or.inr hc
    | point whole part _ =>
        intro c hc
        rw [List.mem_append, List.mem_cons] at hc
        rw [List.mem_append]
        tauto
  refine ⟨sign ++ base, tail, sign ++ cs, places, exponent, rfl, fun c hc => ?_,
    hp.behind_sign hs, he, mantissa_digits hs cs hne hd, rfl, hr⟩
  rcases List.mem_append.mp hc with hc | hc
  · exact (sign_marks hs c hc).2
  · rcases hbase c hc with rfl | hc
    · rfl
    · -- The marks are no digits.
      rw [isExponentMark, Bool.or_eq_false_iff, beq_eq_false_iff_ne, beq_eq_false_iff_ne]
      exact ⟨fun h => not_mem_of_digits 'e' (by decide) cs hd (h ▸ hc),
        fun h => not_mem_of_digits 'E' (by decide) cs hd (h ▸ hc)⟩

end

section

variable (cs : List Char) (hne : cs ≠ []) (hd : ∀ c ∈ cs, c.isDigit = true)

include hd

/-- A point among digits stands in front of those that are left. -/
theorem pointed_take (k : Nat) :
    Pointed (cs.take k ++ '.' :: cs.drop k) cs (cs.length - k) := by
  have hpart : ((cs.drop k).filter (· ≠ '_')).length = cs.length - k := by
    rw [filter_digits _ fun c hc => hd c (List.mem_of_mem_drop hc), List.length_drop]
  have hw : '.' ∉ cs.take k :=
    fun h => not_mem_of_digits '.' (by decide) cs hd (List.mem_of_mem_take h)
  have hpoint := Pointed.point (cs.take k) (cs.drop k) hw
  rwa [List.take_append_drop, hpart] at hpoint

/-- In the scientific notation all digits but one stand behind the point. -/
theorem exists_scientificDigits (scale : Int) : ∃ base,
    scientificDigits cs scale = base ++ 'E' :: (toString ((cs.length : Int) - 1 - scale)).toList ∧
      Pointed base cs (cs.length - 1) := by
  refine ⟨_, rfl, ?_⟩
  split
  · next h =>
      rw [List.append_nil, List.take_of_length_le h, Nat.sub_eq_zero_of_le h]
      exact .plain cs (not_mem_of_digits '.' (by decide) cs hd)
  · exact pointed_take cs hd 1

include hne

/-- In the plain notation there are zeros in front of the digits, and the places behind the
    point. -/
theorem pointed_plainDigits (places : Nat) :
    Pointed (plainDigits cs places) (List.replicate (places + 1 - cs.length) '0' ++ cs) places := by
  have hlength : 0 < cs.length := List.length_pos_of_ne_nil hne
  unfold plainDigits
  split
  · next h =>
      subst h
      rw [show 0 + 1 - cs.length = 0 by omega]
      exact .plain cs (not_mem_of_digits '.' (by decide) cs hd)
  · -- There is one digit at least in front of the point, for which zeros are put in front.
    have hpoint := pointed_take _ (isDigit_of_mem_zeros (places + 1 - cs.length) cs hd)
      ((List.replicate (places + 1 - cs.length) '0' ++ cs).length - places)
    have hplaces : (List.replicate (places + 1 - cs.length) '0' ++ cs).length -
        ((List.replicate (places + 1 - cs.length) '0' ++ cs).length - places) = places := by
      rw [List.length_append, List.length_replicate]
      omega
    rwa [hplaces] at hpoint

end

section

variable (d : Decimal) (hscale : 0 ≤ d.scale) (hr : d.scale ∈ scaleRange)

include hscale hr

/-- A decimal that is not zero is printed as a literal of the same mantissa and scale. -/
theorem literal_text (h : d.mantissa ≠ 0) : Literal d.text.toList d := by
  have hs := Integer.sign_printed d.mantissa
  have hne : Integer.digits d.mantissa.natAbs ≠ [] := Nat.toDigits_ne_nil
  have hpos := List.length_pos_of_ne_nil hne
  have hd := Integer.isDigit_of_mem_digits d.mantissa.natAbs
  rw [text, if_neg h]
  dsimp only
  split
  · next hsmall =>
      -- The exponent lies between the least scale and zero.
      rcases exists_scientificDigits _ hd d.scale with ⟨base, hbase, hp⟩
      have hleast : exponentRange.least ≤ -scaleRange.greatest := by decide
      have hgreatest : 0 ≤ exponentRange.greatest := by decide
      have hlimit : leadingZeroLimit = 5 := rfl
      have he := Exponent.marked 'E' _ _ (by decide) (Integer.denotes_toString
        ((Integer.digits d.mantissa.natAbs).length - 1 - d.scale)) (by
          rw [Integer.mem_range_iff] at hr ⊢
          omega)
      have hsum : (((Integer.digits d.mantissa.natAbs).length - 1 : Nat) : Int) -
          ((Integer.digits d.mantissa.natAbs).length - 1 - d.scale) = d.scale := by
        omega
      have hliteral := literal_of_pointed hs hp hne hd he (by rwa [hsum])
      rw [hsum, Integer.ofDigitChars_digits, Integer.signed_natAbs] at hliteral
      rw [String.toList_append, String.toList_ofList, hbase, ← List.append_assoc]
      exact hliteral
  · -- There is no exponent, and zeros in front make up for digits that are missing.
    have hplaces : (d.scale.toNat : Int) - 0 = d.scale := by omega
    have hliteral := literal_of_pointed hs (pointed_plainDigits _ hne hd d.scale.toNat)
      (List.append_ne_nil_of_right_ne_nil _ hne) (isDigit_of_mem_zeros _ _ hd) .none
      (by rwa [hplaces])
    rw [hplaces, ofDigitChars_zeros, Integer.ofDigitChars_digits, Integer.signed_natAbs,
      List.append_nil] at hliteral
    rw [String.toList_append, String.toList_ofList]
    exact hliteral

/-- What is printed for a decimal says its rational. -/
theorem denotes_text : Denotes d.text.toList d.value := by
  by_cases h : d.mantissa = 0
  · rw [denotes_iff, text, if_pos h]
    refine ⟨⟨0, 0⟩, by decide, ?_⟩
    rw [value, value, h, Int.cast_zero, zero_mul, zero_mul]
  · exact ⟨d, d.literal_text hscale hr h, rfl⟩

end

end Decimal

end Schemata
