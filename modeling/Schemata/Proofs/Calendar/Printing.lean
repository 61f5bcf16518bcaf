import Schemata.Proofs.Calendar.Timestamps
import Schemata.Proofs.Number.Printing

/-!
# Printed Dates and Times

What is printed for a date, a time of day and an instant, and what is read from it.

A number with leading zeros is read as the number, so a date and a time are read
part by part as they were printed. The year of a date has a sign unless it has four
digits, and behind a sign there may be as many digits as there are. A timestamp has
no place for such a year. So an instant is printed as a timestamp exactly if its year
has four digits (`Instant.text_stamp`, `Instant.year_of_read_text`), and then the
moment of that timestamp is its own.

A leap second is printed as the sixtieth of its minute. It has to be at the end of
its minute for that (`Time.LeapAtEnd`), which is where every reader puts it, and an
offset leaves it there.

## Main definitions

* `paddedChars`, `fractionDigits`: Numbers and fractions in print.
* `Time.LeapAtEnd`: The second is not a leap second, or the last of its minute.
* `Instant.stamp`: The timestamp that is printed for an instant.

## Theorems

* `Date.read_text`, `Time.read_text`: Dates and times are read back.
* `Instant.read_text`: An instant is read back if its year has four digits.
* `Instant.year_of_read_text`: Otherwise it is not read at all.
-/

namespace Schemata

/-! ### Padded numbers -/

/-- A number in digits, with zeros in front up to a width. -/
def paddedChars (width n : Nat) : List Char :=
  List.replicate (width - (Integer.digits n).length) '0' ++ Integer.digits n

section

variable (width n : Nat)

theorem Calendar.toList_padded : (padded width n).toList = paddedChars width n :=
  String.toList_ofList

theorem isDigit_paddedChars : ∀ c ∈ paddedChars width n, c.isDigit = true :=
  Decimal.isDigit_of_mem_zeros _ _ (Integer.isDigit_of_mem_digits n)

theorem paddedChars_ne_nil : paddedChars width n ≠ [] :=
  List.append_ne_nil_of_right_ne_nil _ Nat.toDigits_ne_nil

theorem ofDigitChars_paddedChars : Nat.ofDigitChars 10 (paddedChars width n) 0 = n := by
  rw [paddedChars, Decimal.ofDigitChars_zeros, Integer.ofDigitChars_digits]

theorem length_paddedChars (hw : 0 < width) (h : n < 10 ^ width) :
    (paddedChars width n).length = width := by
  have hle := (Integer.digitCount_le_iff n width hw).mpr h
  rw [Integer.digitCount] at hle
  rw [paddedChars, List.length_append, List.length_replicate]
  omega

/-- One digit more is the last one of the number. -/
theorem paddedChars_succ (hw : 0 < width) :
    paddedChars (width + 1) n = paddedChars width (n / 10) ++ [Nat.digitChar (n % 10)] := by
  rcases Nat.lt_or_ge n 10 with hlt | hge
  · -- The digit has nothing but zeros in front of it.
    have hone : Integer.digits n = [Nat.digitChar n] := Nat.toDigits_of_lt_base hlt
    have hzero : paddedChars width 0 = List.replicate width '0' := by
      rw [paddedChars, show Integer.digits 0 = List.replicate 1 '0' from rfl,
        List.length_replicate, List.replicate_append_replicate, Nat.sub_add_cancel hw]
    rw [paddedChars, hone, Nat.div_eq_of_lt hlt, Nat.mod_eq_of_lt hlt, hzero, List.length_singleton,
      Nat.add_sub_cancel]
  · have hmore : Integer.digits n = Integer.digits (n / 10) ++ [Nat.digitChar (n % 10)] :=
      Nat.toDigits_of_base_le (by decide) hge
    rw [paddedChars, hmore, paddedChars, List.length_append, List.length_singleton,
      Nat.add_sub_add_right, List.append_assoc]

end

theorem paddedChars_two (n : Nat) (h : n < 100) : paddedChars 2 n = twoDigits n := by
  have hone : paddedChars 1 (n / 10) = [Nat.digitChar (n / 10)] := by
    rw [paddedChars, show Integer.digits (n / 10) = [Nat.digitChar (n / 10)] from
      Nat.toDigits_of_lt_base (by omega)]
    rfl
  rw [paddedChars_succ 1 n (by decide), hone]
  rfl

theorem paddedChars_four (n : Nat) (h : n < 10000) :
    paddedChars 4 n = twoDigits (n / 100) ++ twoDigits (n % 100) := by
  have htens : n / 10 % 10 = n % 100 / 10 := by omega
  have hones : n % 10 = n % 100 % 10 := by omega
  rw [paddedChars_succ 3 n (by decide), paddedChars_succ 2 (n / 10) (by decide),
    Nat.div_div_eq_div_mul, paddedChars_two _ (by omega), htens, hones, List.append_assoc]
  rfl

/-! ### Reading numbers -/

namespace Text

theorem skipBlanks_of_head (cs : List Char) (h : ∀ c ∈ cs.head?, isBlank c = false) :
    skipBlanks cs = cs := by
  cases cs with
  | nil => rfl
  | cons c cs => exact List.dropWhile_cons_of_neg (Bool.not_eq_true _ ▸ h c rfl)

theorem isBlank_of_isDigit (c : Char) (h : c.isDigit = true) : isBlank c = false := by
  rw [isDigit_iff] at h
  simp only [isBlank, Bool.or_eq_false_iff, Bool.and_eq_false_iff, beq_eq_false_iff_ne,
    decide_eq_false_iff_not]
  omega

theorem skipBlanks_digits (digits rest : List Char) (hne : digits ≠ [])
    (hd : ∀ c ∈ digits, c.isDigit = true) : skipBlanks (digits ++ rest) = digits ++ rest := by
  refine skipBlanks_of_head _ fun c hc => isBlank_of_isDigit c ?_
  rw [List.head?_append_of_ne_nil _ hne] at hc
  exact hd c (List.mem_of_mem_head? hc)

end Text

namespace Calendar

/-- Digits are read up to a limit, or to what is none. -/
theorem readNumber_append (limit : Nat) (digits rest : List Char) (hne : digits ≠ [])
    (hd : ∀ c ∈ digits, c.isDigit = true) (hlimit : digits.length ≤ limit)
    (hr : digits.length < limit → ∀ c ∈ rest.head?, c.isDigit = false) :
    readNumber limit (digits ++ rest) = .ok (Nat.ofDigitChars 10 digits 0, rest) := by
  have hfront : ((digits ++ rest).take limit).takeWhile Char.isDigit = digits := by
    rw [List.take_append, List.take_of_length_le hlimit]
    -- What is behind the limit is not looked at, whether it is a digit or not.
    refine ((Decimal.divide_iff _ _).mpr ⟨rfl, hd, fun c hc => ?_⟩).1
    rw [List.head?_take] at hc
    split at hc
    · exact nomatch hc
    · exact hr (by omega) c hc
  have hread : readDigits limit (digits ++ rest) = .ok (digits, rest) := by
    unfold readDigits
    split
    · next hnil => exact absurd (List.append_eq_nil_iff.mp hnil).1 hne
    · rw [hfront, if_neg hne, List.drop_left]
  rw [readNumber, hread, ← digitsValue_eq]
  rfl

theorem readPart_twoDigits (least greatest n : Nat) (rest : List Char)
    (h : least ≤ n ∧ n ≤ greatest) (hn : n < 100) :
    readPart least greatest (twoDigits n ++ rest) = .ok (n, rest) := by
  have hd := isDigit_twoDigits n hn
  have hne : twoDigits n ≠ [] := List.cons_ne_nil _ _
  have hread := readNumber_append 2 (twoDigits n) rest hne hd (Nat.le_refl 2)
    fun hlt => absurd hlt (Nat.lt_irrefl 2)
  rw [← digitsValue_eq, digitsValue_twoDigits n hn] at hread
  have hin : ¬ (n < least ∨ greatest < n) := by omega
  rw [readPart, Text.skipBlanks_digits _ _ hne hd, hread]
  exact if_neg hin

end Calendar

/-! ### Dates -/

namespace Date

/-- A year has a sign unless it has four digits. -/
theorem yearText_cases (year : Int) :
    (∃ n : Nat, year = n ∧ n ≤ 9999 ∧ (yearText year).toList = paddedChars 4 n) ∨
    (∃ n : Nat, year = -n ∧ 0 < n ∧ (yearText year).toList = '-' :: paddedChars 4 n) ∨
    ∃ n : Nat, year = n ∧ 9999 < n ∧ (yearText year).toList = '+' :: paddedChars 4 n := by
  unfold yearText
  split
  · -- A year before the year zero has a sign of its own. A later one with more than four digits is
    -- given one.
    next h => exact Or.inl ⟨year.toNat, by omega, by omega, Calendar.toList_padded _ _⟩
  · next h =>
      refine Or.inr ?_
      rw [String.toList_append, Calendar.toList_padded]
      by_cases hneg : year < 0
      · rw [if_pos hneg]
        exact Or.inl ⟨year.natAbs, by omega, by omega, rfl⟩
      · rw [if_neg hneg]
        exact Or.inr ⟨year.natAbs, by omega, by omega, rfl⟩

/-- A printed year is read in front of what is no digit. -/
theorem readYear_yearText (year : Int) (h : year ∈ yearRange) (rest : List Char)
    (hr : ∀ c ∈ rest.head?, c.isDigit = false) :
    readYear ((yearText year).toList ++ rest) = .ok (year, rest) := by
  rw [Integer.mem_range_iff] at h
  have hin : ¬ (year < yearRange.least ∨ yearRange.greatest < year) := by omega
  have hread (limit n : Nat) (hlimit : (paddedChars 4 n).length ≤ limit) :
      Calendar.readNumber limit (paddedChars 4 n ++ rest) = .ok (n, rest) := by
    rw [Calendar.readNumber_append limit _ rest (paddedChars_ne_nil 4 n) (isDigit_paddedChars 4 n)
      hlimit fun _ => hr, ofDigitChars_paddedChars]
  have hall (n : Nat) : (paddedChars 4 n).length ≤ (paddedChars 4 n ++ rest).length := by
    rw [List.length_append]
    exact Nat.le_add_right _ _
  rcases yearText_cases year with ⟨n, rfl, hn, hchars⟩ | ⟨n, rfl, _, hchars⟩ | ⟨n, rfl, _, hchars⟩
  · -- Without a sign the first character is a digit, and four of them are read.
    have hsign (c : Char) (hc : c.isDigit = false) (cs : List Char) :
        paddedChars 4 n ++ rest ≠ c :: cs := by
      intro hcons
      have hhead := congrArg List.head? hcons
      rw [List.head?_append_of_ne_nil _ (paddedChars_ne_nil 4 n)] at hhead
      have hdigit := isDigit_paddedChars 4 n c (List.mem_of_mem_head? hhead)
      exact Bool.false_ne_true (hc.symm.trans hdigit)
    rw [hchars]
    unfold readYear
    split
    · next hcons => exact absurd hcons (hsign '-' rfl _)
    · next hcons => exact absurd hcons (hsign '+' rfl _)
    · rw [hread 4 n (length_paddedChars 4 n (by decide) (by omega)).le]
      exact if_neg hin
  · -- Behind a sign all digits are read, however many there are.
    rw [hchars, List.cons_append, readYear, hread _ n (hall n)]
    exact if_neg hin
  · rw [hchars, List.cons_append, readYear, hread _ n (hall n)]
    exact if_neg hin

theorem skipBlanks_yearText (year : Int) (rest : List Char) :
    Text.skipBlanks ((yearText year).toList ++ rest) = (yearText year).toList ++ rest := by
  rcases yearText_cases year with ⟨n, _, _, hchars⟩ | ⟨n, _, _, hchars⟩ | ⟨n, _, _, hchars⟩
  · rw [hchars]
    exact Text.skipBlanks_digits _ _ (paddedChars_ne_nil 4 n) (isDigit_paddedChars 4 n)
  · rw [hchars]
    rfl
  · rw [hchars]
    rfl

theorem month_lt (date : Date) : date.month < 100 := by
  have hmonth := date.month_range
  omega

theorem day_le (date : Date) : date.day ≤ 31 :=
  Nat.le_trans date.day_range.2 (daysInMonth_le _ _)

theorem toList_text (date : Date) : date.text.toList =
    (yearText date.year).toList ++ '-' :: (twoDigits date.month ++ '-' :: twoDigits date.day) := by
  have hday := date.day_le
  simp only [text, String.toList_append, Calendar.toList_padded, paddedChars_two _ date.month_lt,
    paddedChars_two date.day (by omega), List.append_assoc]
  rfl

/-- A date is read back if its year is one that can be read. -/
theorem read_text (date : Date) (h : firstYear ≤ date.year ∧ date.year ≤ lastYear) :
    read date.text = .ok date := by
  have hfirst : yearRange.least ≤ firstYear := by decide
  have hlast : lastYear ≤ yearRange.greatest := by decide
  have hday := date.day_le
  have hyear := readYear_yearText date.year (by rw [Integer.mem_range_iff]; omega)
    ('-' :: (twoDigits date.month ++ '-' :: twoDigits date.day)) (by rintro c ⟨⟩; rfl)
  have hmonth := Calendar.readPart_twoDigits 1 12 date.month ('-' :: twoDigits date.day)
    date.month_range date.month_lt
  have hend := Calendar.readPart_twoDigits 1 31 date.day [] ⟨date.day_range.1, hday⟩ (by omega)
  rw [List.append_nil] at hend
  simp only [read, bind_eq_ok_iff, Prod.exists, Calendar.readChar_eq_ok_iff,
    Calendar.readEnd_eq_ok_iff]
  -- The reader takes the text from the front, so what is left behind each part is named.
  refine ⟨date.year, '-' :: (twoDigits date.month ++ '-' :: twoDigits date.day), ?_,
    twoDigits date.month ++ '-' :: twoDigits date.day, rfl, date.month, '-' :: twoDigits date.day,
    hmonth, twoDigits date.day, rfl, date.day, [], hend, (), rfl, ?_⟩
  · rw [toList_text, skipBlanks_yearText]
    exact hyear
  · rw [if_neg (by omega), ofParts?_eq_some_iff.mpr ⟨rfl, rfl, rfl⟩]

/-- Every date that is read has such a year. -/
theorem year_of_read (text : String) (date : Date) (h : read text = .ok date) :
    firstYear ≤ date.year ∧ date.year ≤ lastYear := by
  simp only [read, bind_eq_ok_iff, Prod.exists] at h
  rcases h with ⟨year, _, _, _, _, month, _, _, _, _, day, _, _, _, _, h⟩
  split at h
  · exact nomatch h
  · next hyear =>
      split at h
      · next date' hdate =>
          cases h
          rcases ofParts?_eq_some_iff.mp hdate with ⟨rfl, _, _⟩
          omega
      · exact nomatch h

end Date

/-! ### Times of day -/

/-- The digits that are printed for the nanoseconds of a fraction: three, six or nine, or none. -/
def fractionDigits (nano : Nat) : List Char :=
  if nano = 0 then []
  else if nano % 1000000 = 0 then paddedChars 3 (nano / 1000000)
  else if nano % 1000 = 0 then paddedChars 6 (nano / 1000)
  else paddedChars 9 nano

theorem isDigit_fractionDigits (nano : Nat) : ∀ c ∈ fractionDigits nano, c.isDigit = true := by
  unfold fractionDigits
  split_ifs
  · exact nofun
  · exact isDigit_paddedChars _ _
  · exact isDigit_paddedChars _ _
  · exact isDigit_paddedChars _ _

theorem toList_fractionText (nano : Nat) :
    (Time.fractionText nano).toList = fractionChars (fractionDigits nano) := by
  have hpoint (width n : Nat) :
      ("." ++ Calendar.padded width n).toList = fractionChars (paddedChars width n) := by
    rw [String.toList_append, Calendar.toList_padded, fractionChars,
      if_neg (paddedChars_ne_nil width n)]
    rfl
  unfold Time.fractionText fractionDigits
  split_ifs
  · rfl
  · exact hpoint _ _
  · exact hpoint _ _
  · exact hpoint _ _

/-- Up to nine digits are as many nanoseconds as the digits that they lack make them. -/
theorem nanosOf_paddedChars (width more n : Nat) (hw : 0 < width) (h : width + more = 9)
    (hn : n < 10 ^ width) : nanosOf (paddedChars width n) = n * 10 ^ more := by
  have hnanos : nanosPerSecond = 10 ^ more * 10 ^ width := by
    rw [← Nat.pow_add, Nat.add_comm, h]
    rfl
  rw [nanosOf, ofDigitChars_paddedChars, length_paddedChars width n hw hn, hnanos, ← Nat.mul_assoc,
    Nat.mul_div_cancel _ (Nat.pow_pos (by decide))]

/-- Whole nanoseconds have a fraction of nine digits, and it may be shorter. -/
theorem nanosOf_fractionDigits (nano : Nat) (h : nano < nanosPerSecond) :
    nanosOf (fractionDigits nano) = nano := by
  rw [nanosPerSecond] at h
  unfold fractionDigits
  split_ifs
  · next hzero =>
      rw [hzero]
      rfl
  · rw [nanosOf_paddedChars 3 6 _ (by decide) rfl (by omega)]
    omega
  · rw [nanosOf_paddedChars 6 3 _ (by decide) rfl (by omega)]
    omega
  · rw [nanosOf_paddedChars 9 0 _ (by decide) rfl h, Nat.pow_zero, Nat.mul_one]

namespace Time

/-- The second is not a leap second, or it is the last of its minute. -/
def LeapAtEnd (time : Time) : Prop :=
  nanosPerSecond ≤ time.nano → time.second % 60 = 59

theorem leapAtEnd_of_ofParts? {hour minute second nano : Nat} {time : Time}
    (h : ofParts? hour minute second nano = some time) : time.LeapAtEnd := by
  unfold ofParts? at h
  split at h
  · next hparts =>
      split at h
      · -- With sixty seconds the time is made a leap second of the second before, and otherwise it
        -- is none.
        cases h
        intro _
        dsimp only
        omega
      · split at h
        · cases h
          exact fun hnano => absurd hparts.2.2.2 (Nat.not_lt.mpr hnano)
        · contradiction
  · contradiction

/-- Truncation makes no leap second. -/
theorem LeapAtEnd.truncate (time : Time) (unit : Nat) (h : time.LeapAtEnd) :
    (time.truncate unit).LeapAtEnd :=
  fun hnano => h (Nat.le_trans hnano (Nat.sub_le _ _))

theorem truncate_idem (time : Time) (unit : Nat) :
    (time.truncate unit).truncate unit = time.truncate unit := by
  have hwhole : (time.nano - time.nano % unit) % unit = 0 := by
    rw [Nat.sub_eq_of_eq_add (Nat.div_add_mod time.nano unit).symm, Nat.mul_mod_right]
  simp only [Time.truncate, hwhole, Nat.sub_zero]

section

variable (time : Time)

theorem hour_lt : time.second / 3600 < 24 := by
  have hsecond := time.second_lt
  rw [secondsPerDay] at hsecond
  omega

theorem shownSecond_le : time.shownSecond ≤ 60 := by
  unfold shownSecond
  split <;> omega

theorem toList_text : time.text.toList = timeChars (time.second / 3600) (time.second / 60 % 60)
    time.shownSecond (fractionDigits (time.nano % nanosPerSecond)) := by
  have hhour := time.hour_lt
  have hsecond := time.shownSecond_le
  simp only [text, String.toList_append, Calendar.toList_padded, toList_fractionText,
    paddedChars_two (time.second / 3600) (by omega),
    paddedChars_two (time.second / 60 % 60) (by omega), paddedChars_two time.shownSecond (by omega),
    timeChars, List.append_assoc]
  rfl

/-- The printed parts of a time are those that it is made of. -/
theorem ofParts?_shown (h : time.LeapAtEnd) : ofParts? (time.second / 3600)
    (time.second / 60 % 60) time.shownSecond (time.nano % nanosPerSecond) = some time := by
  have hhour := time.hour_lt
  have hnano := Nat.mod_lt time.nano nanosPerSecond_pos
  have hbound := time.nano_lt
  unfold ofParts? shownSecond
  -- A leap second is shown as the sixtieth second with the nanoseconds that go beyond one second.
  by_cases hleap : nanosPerSecond ≤ time.nano
  · have hend := h hleap
    have hrest : nanosPerSecond + time.nano % nanosPerSecond = time.nano := by
      rw [Nat.mod_eq_sub_mod hleap, Nat.mod_eq_of_lt (by omega)]
      omega
    have hsecond : time.second / 3600 * 3600 + time.second / 60 % 60 * 60 + 59 = time.second := by
      omega
    rw [if_pos hleap, dif_pos ⟨hhour, by omega, by omega, hnano⟩, if_pos (by omega)]
    simp only [hrest, hsecond]
  · have hsecond : time.second / 3600 * 3600 + time.second / 60 % 60 * 60 + time.second % 60 =
        time.second := by
      omega
    have hwhole : time.nano % nanosPerSecond = time.nano := Nat.mod_eq_of_lt (by omega)
    rw [if_neg hleap, dif_pos ⟨hhour, by omega, by omega, hnano⟩, if_neg (by omega),
      dif_pos (by omega)]
    simp only [hwhole, hsecond]

/-- A time of day is read back, with its leap second if it has one. -/
theorem read_text (h : time.LeapAtEnd) : read time.text = .ok time := by
  have hhour := time.hour_lt
  have hsecond := time.shownSecond_le
  have hfraction := Calendar.readFraction_append
    (fractionDigits (time.nano % nanosPerSecond)) [] (isDigit_fractionDigits _) nofun
  rw [List.append_nil, nanosOf_fractionDigits _ (Nat.mod_lt _ nanosPerSecond_pos)] at hfraction
  -- The text is read with seconds, so the reader without seconds is not tried.
  have hread : readWithSeconds time.text.toList = .ok time := by
    simp only [readWithSeconds, bind_eq_ok_iff, Prod.exists, Calendar.readChar_eq_ok_iff,
      Calendar.readEnd_eq_ok_iff]
    refine ⟨time.second / 3600, _, ?_, _, rfl, _, _,
      Calendar.readPart_twoDigits 0 59 (time.second / 60 % 60) _ (by omega) (by omega), _, rfl, _,
      _, Calendar.readPart_twoDigits 0 60 time.shownSecond _ (by omega) (by omega), _, [],
      hfraction, (), rfl, ?_⟩
    · rw [toList_text, timeChars, List.append_assoc, List.cons_append, List.append_assoc,
        List.cons_append]
      exact Calendar.readPart_twoDigits 0 23 (time.second / 3600) _ (by omega) (by omega)
    · rw [time.ofParts?_shown h]
  rw [read, hread]

end

/-- Every time that is read has its leap second at the end of the minute. -/
theorem leapAtEnd_of_read (text : String) (time : Time) (h : read text = .ok time) :
    time.LeapAtEnd := by
  unfold read at h
  -- Whichever of the two readers takes the text, it makes the time from its parts.
  split at h
  · next time' hseconds =>
      cases h
      simp only [readWithSeconds, bind_eq_ok_iff, Prod.exists] at hseconds
      rcases hseconds with ⟨_, _, _, _, _, _, _, _, _, _, _, _, _, _, _, _, _, _, hparts⟩
      split at hparts
      · next hsome =>
          cases hparts
          exact leapAtEnd_of_ofParts? hsome
      · cases hparts
  · simp only [readMinutes, bind_eq_ok_iff, Prod.exists] at h
    rcases h with ⟨_, _, _, _, _, _, _, _, _, _, hparts⟩
    split at hparts
    · next hsome =>
        cases hparts
        exact leapAtEnd_of_ofParts? hsome
    · cases hparts

end Time

/-! ### Instants -/

/-- Offsets are whole minutes. -/
theorem Zone.exists_minutes (zone : Zone) : ∃ minutes : Int, zone.offset = minutes * 60 := by
  cases zone with
  | utc letter _ => exact ⟨0, rfl⟩
  | apart sign hours minutes _ _ =>
      cases sign with
      | plus => exact ⟨hours * 60 + minutes, by simp only [offset, OffsetSign.signed]; omega⟩
      | hyphen => exact ⟨-(hours * 60 + minutes), by simp only [offset, OffsetSign.signed]; omega⟩
      | minus => exact ⟨-(hours * 60 + minutes), by simp only [offset, OffsetSign.signed]; omega⟩

namespace Instant

/-- An offset of whole minutes leaves a leap second where it is in its minute. -/
theorem leapAtEnd_ofLocal (date : Date) (time : Time) (minutes : Int) (h : time.LeapAtEnd) :
    (ofLocal date time (minutes * 60)).time.LeapAtEnd := by
  intro hnano
  have hend := h hnano
  change (((time.second : Int) - minutes * 60) % secondsPerDay).toNat % 60 = 59
  rw [secondsPerDay]
  omega

/-- Every instant that is read has its leap second at the end of the minute. -/
theorem leapAtEnd_of_read (text : String) (instant : Instant) (h : read text = .ok instant) :
    instant.time.LeapAtEnd := by
  rw [read_eq, readBytes] at h
  split at h
  · cases h
  · simp only [readParts, bind_eq_ok_iff, Prod.exists, readOffset_eq_ok_iff] at h
    rcases h with ⟨date, _, _, _, _, time, _, htime, _, _, ⟨zone, _, rfl⟩, _, _, h⟩
    have hleap : time.LeapAtEnd := by
      simp only [readTime, bind_eq_ok_iff, Prod.exists] at htime
      rcases htime with ⟨_, _, _, _, _, _, _, _, _, _, _, _, _, _, _, _, htime⟩
      split at htime
      · next time' hparts =>
          rw [Except.ok.injEq, Prod.mk.injEq] at htime
          exact htime.1 ▸ Time.leapAtEnd_of_ofParts? hparts
      · cases htime
    split at h
    · cases h
    · cases h
      -- An offset of whole minutes moves the time by
      -- whole minutes, so the end of a minute stays one.
      rcases zone.exists_minutes with ⟨minutes, hminutes⟩
      rw [hminutes]
      exact leapAtEnd_ofLocal date time minutes hleap

theorem truncate_idem (instant : Instant) (unit : Nat) :
    (instant.truncate unit).truncate unit = instant.truncate unit :=
  congrArg (Instant.mk instant.date) (instant.time.truncate_idem unit)

section

variable (instant : Instant) (hyear : 0 ≤ instant.date.year ∧ instant.date.year ≤ 9999)

/-- What is printed in front of the time. -/
def shownSeparator : Char :=
  'T'

/-- The zone that is printed. -/
def shownZone : Zone :=
  .apart .plus 0 0 (Nat.succ_pos 99) (Nat.succ_pos 59)

/-- The timestamp that is printed for an instant of a year with four digits. -/
def stamp : Timestamp where
  date := instant.date
  separator := shownSeparator
  hour := instant.time.second / 3600
  minute := instant.time.second / 60 % 60
  second := instant.time.shownSecond
  fraction := fractionDigits (instant.time.nano % nanosPerSecond)
  zone := shownZone
  year_range := hyear
  separator_eq := Or.inl rfl
  hour_lt := instant.time.hour_lt
  minute_lt := Nat.mod_lt _ (by decide)
  second_le := instant.time.shownSecond_le
  fraction_digits := isDigit_fractionDigits _
  offset_lt := by decide

theorem toList_text : instant.text.toList = instant.date.text.toList ++
    'T' :: (instant.time.text.toList ++ shownZone.chars) := by
  have hseparator : "T".toList = ['T'] := by decide
  have hzone : "+00:00".toList = shownZone.chars := by decide
  simp only [text, String.toList_append, hseparator, hzone, List.append_assoc,
    List.cons_append, List.nil_append]

include hyear

theorem text_stamp : (instant.stamp hyear).text = instant.text := by
  have hday : instant.date.text.toList = dayChars instant.date := by
    rcases Date.yearText_cases instant.date.year with ⟨n, hn, hle, hchars⟩ | ⟨n, hn, _⟩ | ⟨n, hn, _⟩
    · rw [Date.toList_text, hchars, dayChars, hn, Int.toNat_natCast, paddedChars_four n (by omega)]
      simp only [List.append_assoc, List.cons_append]
    · omega
    · omega
  rw [← String.toList_inj, toList_text, hday, Time.toList_text, Timestamp.text,
    String.toList_ofList, Timestamp.chars]
  simp only [stamp, shownSeparator]

/-- The timestamp means the moment of the instant. -/
theorem moment_stamp (hleap : instant.time.LeapAtEnd) :
    cutTo nanosPerSecond (instant.stamp hyear).moment = instant.moment ∧
      (instant.time.nano < nanosPerSecond ↔ (instant.stamp hyear).second < 60) := by
  have hnano := Nat.mod_lt instant.time.nano nanosPerSecond_pos
  -- The printed parts make a time again, and it is the one that they come from.
  rcases Time.exists_ofParts? _ _ _ _ instant.time.hour_lt (Nat.mod_lt _ (by decide))
    instant.time.shownSecond_le hnano with ⟨time, htime, hseconds, hshown⟩
  have hsame := Option.some.inj (htime.symm.trans (instant.time.ofParts?_shown hleap))
  rw [hsame] at hseconds hshown
  refine ⟨?_, hshown⟩
  have hoffset : (instant.stamp hyear).zone.offset = 0 := rfl
  rw [Timestamp.moment_eq, cutTo_intCast_add _ nanosPerSecond_pos, Calendar.cutTo_fraction, hoffset,
    Int.sub_zero, Int.cast_add, Int.cast_natCast, moment, hseconds, add_assoc]
  simp only [stamp, nanosOf_fractionDigits _ hnano]

/-- An instant is read back if its year has four digits. -/
theorem read_text (hleap : instant.time.LeapAtEnd) : read instant.text = .ok instant := by
  rcases (instant.stamp hyear).exists_read with ⟨other, hread, hmoment, hother⟩
  rcases instant.moment_stamp hyear hleap with ⟨hself, hshown⟩
  rw [instant.text_stamp hyear] at hread
  rw [hread, eq_of_moment_eq other instant (hother.trans hshown.symm) (hmoment.trans hself)]

end

/-- A printed instant is not read unless its year has four digits: a timestamp begins with one. -/
theorem year_of_read_text (instant other : Instant) (h : read instant.text = .ok other) :
    0 ≤ instant.date.year ∧ instant.date.year ≤ 9999 := by
  rcases Timestamp.exists_of_read _ _ h with ⟨stamp, hstamp⟩
  have hyear := stamp.year_range
  have hhead := congrArg List.head? (congrArg String.toList hstamp)
  rw [Timestamp.text, String.toList_ofList, toList_text, Date.toList_text, List.append_assoc]
    at hhead
  have hdigit : (Nat.digitChar (stamp.date.year.toNat / 100 / 10)).isDigit = true :=
    isDigit_twoDigits (stamp.date.year.toNat / 100) (by omega) _ List.mem_cons_self
  -- A sign is no digit.
  rcases Date.yearText_cases instant.date.year with ⟨n, hn, hle, _⟩ | ⟨n, _, _, hchars⟩ |
    ⟨n, _, _, hchars⟩
  · omega
  · rw [hchars] at hhead
    rw [Option.some.inj hhead] at hdigit
    exact absurd hdigit (by decide)
  · rw [hchars] at hhead
    rw [Option.some.inj hhead] at hdigit
    exact absurd hdigit (by decide)

end Instant

end Schemata
