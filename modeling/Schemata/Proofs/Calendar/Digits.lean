import Schemata.Proofs.Calendar.Moments
import Schemata.Proofs.Number.Decimals
import Schemata.Proofs.Text.Bytes

/-!
# Digits in Times

Numbers of two digits and fractions of a second, as they are written and as
they are read. Digits are their own bytes, so it makes no difference to them
that a timestamp is read from its bytes.

A fraction has any number of digits. Its value is one quotient, whose whole
part in nanoseconds needs no more than nine of them (`nanosOf_take`). The
reader takes these and passes over the rest, so a fraction goes as far as its
digits do, and what follows must not begin with a digit.

## Main definitions

* `twoDigits`, `fractionChars`: Numbers and fractions in writing.
* `nanosOf`: The whole nanoseconds of a fraction.

## Theorems

* `Calendar.readTwo_eq_ok_iff`: Two digits are read as the number that has them.
* `Calendar.cutTo_fraction`: The nanoseconds of a fraction are a cut.
* `Calendar.readFraction_append`, `Calendar.exists_of_readFraction`: What is read as a fraction.
-/

namespace Schemata

/-- Two decimal digits. -/
def twoDigits (n : Nat) : List Char :=
  [Nat.digitChar (n / 10), Nat.digitChar (n % 10)]

/-- A fraction of a second: a point and digits, or nothing. -/
def fractionChars (digits : List Char) : List Char :=
  if digits = [] then [] else '.' :: digits

/-- The whole nanoseconds of a fraction. -/
def nanosOf (digits : List Char) : Nat :=
  Nat.ofDigitChars 10 digits 0 * nanosPerSecond / 10 ^ digits.length

/-! ### Digits -/

theorem isDigit_iff (c : Char) : c.isDigit = true ↔ 48 ≤ c.toNat ∧ c.toNat ≤ 57 :=
  Char.isDigit_iff_toNat

theorem digitsValue_eq (cs : List Char) : Integer.digitsValue cs = Nat.ofDigitChars 10 cs 0 :=
  rfl

theorem byteForm_of_isDigit (cs : List Char) (h : ∀ c ∈ cs, c.isDigit = true) :
    byteForm cs = cs :=
  byteForm_of_ascii cs fun c hc => by
    have := (isDigit_iff c).mp (h c hc)
    omega

theorem isDigit_twoDigits (n : Nat) (h : n < 100) : ∀ c ∈ twoDigits n, c.isDigit = true := by
  intro c hc
  rw [twoDigits, List.mem_cons, List.mem_singleton] at hc
  rcases hc with rfl | rfl
  · rw [Nat.isDigit_digitChar, decide_eq_true_iff]
    omega
  · rw [Nat.isDigit_digitChar, decide_eq_true_iff]
    omega

theorem byteForm_twoDigits (n : Nat) (h : n < 100) : byteForm (twoDigits n) = twoDigits n :=
  byteForm_of_isDigit _ (isDigit_twoDigits n h)

/-- A digit is that of its value. -/
theorem digitChar_sub (c : Char) (h : c.isDigit = true) : Nat.digitChar (c.toNat - 48) = c := by
  rw [isDigit_iff] at h
  rw [← Char.toNat_inj, Nat.toNat_digitChar_of_lt_ten (by omega)]
  omega

theorem digitsValue_pair (a b : Char) :
    Integer.digitsValue [a, b] = 10 * (a.toNat - 48) + (b.toNat - 48) := by
  simp only [Integer.digitsValue, List.foldl_cons, List.foldl_nil, Nat.mul_zero, Nat.zero_add]

theorem digitsValue_twoDigits (n : Nat) (h : n < 100) :
    Integer.digitsValue (twoDigits n) = n := by
  rw [twoDigits, digitsValue_pair, Nat.toNat_digitChar_of_lt_ten (by omega),
    Nat.toNat_digitChar_of_lt_ten (by omega)]
  omega

/-- Two digits are those of their value. -/
theorem twoDigits_digitsValue (a b : Char) (ha : a.isDigit = true) (hb : b.isDigit = true) :
    Integer.digitsValue [a, b] < 100 ∧ twoDigits (Integer.digitsValue [a, b]) = [a, b] := by
  have hda := digitChar_sub a ha
  have hdb := digitChar_sub b hb
  rw [isDigit_iff] at ha hb
  have htens : (10 * (a.toNat - 48) + (b.toNat - 48)) / 10 = a.toNat - 48 := by omega
  have hones : (10 * (a.toNat - 48) + (b.toNat - 48)) % 10 = b.toNat - 48 := by omega
  rw [digitsValue_pair, twoDigits, htens, hones, hda, hdb]
  exact ⟨by omega, rfl⟩

/-! ### Reading digits -/

namespace Calendar

theorem readChar_eq_ok_iff (expected : Char) (cs rest : List Char) :
    readChar expected cs = .ok rest ↔ cs = expected :: rest := by
  cases cs with
  | nil => simp only [readChar, reduceCtorEq]
  | cons c cs =>
      rw [readChar, List.cons.injEq]
      split
      · next h => rw [Except.ok.injEq, h, eq_self, true_and]
      · next h => simp only [reduceCtorEq, h, false_and]

theorem readEnd_eq_ok_iff (cs : List Char) (u : Unit) : readEnd cs = .ok u ↔ cs = [] := by
  rw [readEnd]
  split
  · next h => simp only [h]
  · next h => simp only [reduceCtorEq, h]

/-- Two digits are read as the number that has them. -/
theorem readTwo_eq_ok_iff (cs rest : List Char) (n : Nat) :
    Instant.readTwo cs = .ok (n, rest) ↔ n < 100 ∧ cs = twoDigits n ++ rest := by
  constructor
  · intro h
    -- Fewer than two characters are refused.
    match cs with
    | [] => exact nomatch h
    | [c] => exact nomatch h
    | a :: b :: cs =>
        rw [Instant.readTwo] at h
        split at h
        · next hd =>
            rw [Bool.and_eq_true] at hd
            cases h
            have hpair := twoDigits_digitsValue a b hd.1 hd.2
            refine ⟨hpair.1, ?_⟩
            rw [hpair.2]
            rfl
        · exact nomatch h
  · rintro ⟨hn, rfl⟩
    have hvalue := digitsValue_twoDigits n hn
    have hdigits := isDigit_twoDigits n hn
    rw [twoDigits, List.forall_mem_cons, List.forall_mem_singleton] at hdigits
    rw [twoDigits] at hvalue ⊢
    rw [List.cons_append, List.singleton_append, Instant.readTwo, hdigits.1, hdigits.2,
      Bool.and_self, if_pos rfl, hvalue]

/-! ### Fractions -/

theorem nanosOf_lt (digits : List Char) (hd : ∀ c ∈ digits, c.isDigit = true) :
    nanosOf digits < nanosPerSecond := by
  have hlt := Integer.ofDigitChars_lt digits 0 0 hd (Nat.pow_pos (by decide))
  rw [Nat.zero_add] at hlt
  rw [nanosOf]
  exact Nat.div_lt_of_lt_mul (Nat.mul_lt_mul_of_pos_right hlt nanosPerSecond_pos)

/-- The nanoseconds that are read are the whole ones of the fraction. -/
theorem cutTo_fraction (digits : List Char) :
    cutTo nanosPerSecond ((Nat.ofDigitChars 10 digits 0 : ℚ) / 10 ^ digits.length) =
      (nanosOf digits : ℚ) / nanosPerSecond := by
  have hpow : (10 : ℚ) ^ digits.length = (10 ^ digits.length : Nat) := by
    rw [Nat.cast_pow, Nat.cast_ofNat]
  rw [cutTo, hpow, div_mul_eq_mul_div, ← Nat.cast_mul, Rat.floor_natCast_div_natCast, nanosOf]
  rfl

/-- However many digits there are, it is the first nine of them that count. -/
theorem nanosOf_take (digits : List Char) (hd : ∀ c ∈ digits, c.isDigit = true) :
    Nat.ofDigitChars 10 (digits.take 9) 0 * Nat.pow 10 (9 - (digits.take 9).length) =
      nanosOf digits := by
  have hnanos : nanosPerSecond = 10 ^ 9 := rfl
  rw [nanosOf, hnanos]
  rcases Nat.le_total digits.length 9 with hle | hle
  · have hten : 10 ^ 9 = 10 ^ (9 - digits.length) * 10 ^ digits.length := by
      rw [← Nat.pow_add, Nat.sub_add_cancel hle]
    rw [List.take_of_length_le hle, hten, ← Nat.mul_assoc,
      Nat.mul_div_cancel _ (Nat.pow_pos (by decide))]
    rfl
  · -- The digits behind the ninth are less than one nanosecond.
    have hrest : Nat.ofDigitChars 10 (digits.drop 9) 0 < 10 ^ (digits.length - 9) := by
      have hlt := Integer.ofDigitChars_lt (digits.drop 9) 0 0
        (fun c hc => hd c (List.mem_of_mem_drop hc)) (Nat.pow_pos (by decide))
      rwa [Nat.zero_add, List.length_drop] at hlt
    have hvalue : Nat.ofDigitChars 10 digits 0 =
        10 ^ (digits.length - 9) * Nat.ofDigitChars 10 (digits.take 9) 0 +
          Nat.ofDigitChars 10 (digits.drop 9) 0 := by
      rw [← List.length_drop, ← Nat.ofDigitChars_eq_ofDigitChars_zero, ← Nat.ofDigitChars_append,
        List.take_append_drop]
    have hten : 10 ^ digits.length = 10 ^ (digits.length - 9) * 10 ^ 9 := by
      rw [← Nat.pow_add, Nat.sub_add_cancel hle]
    have hpow : Nat.pow 10 (9 - (digits.take 9).length) = 1 := by
      rw [List.length_take, Nat.min_eq_left hle]
    rw [hten, Nat.mul_div_mul_right _ _ (by decide), hvalue,
      Nat.mul_add_div (Nat.pow_pos (by decide)), Nat.div_eq_of_lt hrest, Nat.add_zero, hpow,
      Nat.mul_one]

/-- All digits behind the point are read, and nothing else. -/
theorem readNanos_append (digits rest : List Char) (hne : digits ≠ [])
    (hd : ∀ c ∈ digits, c.isDigit = true) (hr : ∀ c ∈ rest.head?, c.isDigit = false) :
    readNanos (digits ++ rest) = .ok (nanosOf digits, rest) := by
  -- Nine characters in front are at most the digits and some of the rest.
  have hfirst : ((digits ++ rest).take 9).takeWhile Char.isDigit = digits.take 9 := by
    rw [List.take_append]
    refine ((Decimal.divide_iff _ _).mpr ⟨rfl, ?_, ?_⟩).1
    · exact fun c hc => hd c (List.mem_of_mem_take hc)
    · intro c hc
      rw [List.head?_take] at hc
      split at hc
      · exact nomatch hc
      · exact hr c hc
  have hbehind : ((digits ++ rest).drop (digits.take 9).length).dropWhile Char.isDigit = rest := by
    have hsplit : digits ++ rest = digits.take 9 ++ (digits.drop 9 ++ rest) := by
      rw [← List.append_assoc, List.take_append_drop]
    rw [hsplit, List.drop_left]
    exact ((Decimal.divide_iff _ _).mpr ⟨rfl, fun c hc => hd c (List.mem_of_mem_drop hc), hr⟩).2
  have hsome : digits.take 9 ≠ [] := by
    rw [ne_eq, List.take_eq_nil_iff, not_or]
    exact ⟨by decide, hne⟩
  have hread : readDigits 9 (digits ++ rest) =
      .ok (digits.take 9, (digits ++ rest).drop (digits.take 9).length) := by
    unfold readDigits
    split
    · next hnil => exact absurd (List.append_eq_nil_iff.mp hnil).1 hne
    · rw [hfirst, if_neg hsome]
  rw [readNanos, hread]
  change Except.ok (Integer.digitsValue (digits.take 9) * Nat.pow 10 (9 - (digits.take 9).length),
    ((digits ++ rest).drop (digits.take 9).length).dropWhile Char.isDigit) = _
  rw [digitsValue_eq, nanosOf_take digits hd, hbehind]

/-- There must be a digit. -/
theorem readNanos_ne_ok (cs : List Char) (h : ∀ c ∈ cs.head?, c.isDigit = false)
    (part : Nat × List Char) : readNanos cs ≠ .ok part := by
  cases cs with
  | nil => exact nofun
  | cons c cs =>
      have hnot : ¬ c.isDigit = true := Bool.not_eq_true _ ▸ h c rfl
      have hread : readDigits 9 (c :: cs) = .error .invalid := by
        rw [readDigits, List.take_succ_cons, List.takeWhile_cons_of_neg hnot, if_pos rfl]
        exact nofun
      rw [readNanos, hread]
      exact nofun

/-- A fraction ends in front of what is neither a digit nor a point. -/
theorem readFraction_append (digits rest : List Char) (hd : ∀ c ∈ digits, c.isDigit = true)
    (hr : ∀ c ∈ rest.head?, c.isDigit = false ∧ c ≠ '.') :
    readFraction (fractionChars digits ++ rest) = .ok (nanosOf digits, rest) := by
  by_cases hne : digits = []
  · rw [hne, fractionChars, if_pos rfl, List.nil_append]
    cases rest with
    | nil => rfl
    | cons c rest =>
        rw [readFraction]
        · rfl
        · exact fun cs hcs => (hr c rfl).2 (List.cons.inj hcs).1
  · rw [fractionChars, if_neg hne, List.cons_append, readFraction,
      readNanos_append digits rest hne hd fun c hc => (hr c hc).1]

/-- Only a fraction is read as one. -/
theorem exists_of_readFraction {cs rest : List Char} {nano : Nat}
    (h : readFraction cs = .ok (nano, rest)) : ∃ digits, (∀ c ∈ digits, c.isDigit = true) ∧
      cs = fractionChars digits ++ rest := by
  unfold readFraction at h
  split at h
  · next cs =>
      -- Behind the point the digits end at the first character that is none.
      have hdivide := (Decimal.divide_iff Char.isDigit cs).mp ⟨rfl, rfl⟩
      generalize cs.takeWhile Char.isDigit = digits at hdivide
      generalize cs.dropWhile Char.isDigit = tail at hdivide
      rcases hdivide with ⟨rfl, hd, hr⟩
      by_cases hne : digits = []
      · rw [hne, List.nil_append] at h
        exact absurd h (readNanos_ne_ok tail hr _)
      · rw [readNanos_append digits tail hne hd hr] at h
        cases h
        refine ⟨digits, hd, ?_⟩
        rw [fractionChars, if_neg hne, List.cons_append]
  · cases h
    exact ⟨[], List.forall_mem_nil _, rfl⟩

end Calendar

end Schemata
