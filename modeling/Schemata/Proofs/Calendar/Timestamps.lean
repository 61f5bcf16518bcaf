import Schemata.Proofs.Calendar.Digits
import Schemata.Proofs.Registry.Lookup

/-!
# Timestamps

Which texts are timestamps, and the moments that they mean.

A `Timestamp` is one way to write a moment, with all that can be chosen: the
separator, the letter or the sign of the zone, and how many digits the fraction
has. Its `text` and its `moment` are defined without a reader. The moment is a
rational number of seconds, as a fraction may be finer than any clock.

The reader and the definition agree in both directions. Every timestamp is read
(`Timestamp.exists_read`), and gives its moment cut to nanoseconds; and what is
read is the text of a timestamp (`Timestamp.exists_of_read`). The parts are read
one after the other, each with the rest of the text behind it. Only a fraction
looks at this rest, to see where it ends, and there a zone begins, which is
neither a digit nor a point.

A leap second is written as the sixtieth of its minute. On the line of moments
it lies on the second behind it, so the two are told apart by their nanoseconds.

## Main definitions

* `OffsetSign`, `Zone`: How far the local time is ahead of UTC.
* `Timestamp`: A day, a time of day with a fraction, and a zone.
* `Timestamp.text`, `Timestamp.moment`: What is written, and what it means.

## Theorems

* `Instant.readOffset_eq_ok_iff`, `Instant.readDay_eq_ok_iff`: The parts that are read.
* `Timestamp.byteForm_chars`: The bytes of a timestamp.
* `Timestamp.exists_read`: A timestamp is read as its moment.
* `Timestamp.exists_of_read`: Only timestamps are read.
-/

namespace Schemata

/-! ### What a timestamp is -/

/-- What stands in front of an offset. The minus sign may be that of mathematics. -/
inductive OffsetSign where
  | plus
  | hyphen
  | minus
  deriving DecidableEq, Repr

/-- The character of a sign. -/
def OffsetSign.char : OffsetSign → Char
  | .plus => '+'
  | .hyphen => '-'
  | .minus => '\u2212'

/-- The seconds that are meant on one side of UTC. -/
def OffsetSign.signed (seconds : Nat) : OffsetSign → Int
  | .plus => seconds
  | _ => -seconds

/-- The end of a timestamp: UTC, or what the local time is ahead of it. -/
inductive Zone where
  | utc (letter : Char) (letter_eq : letter = 'Z' ∨ letter = 'z')
  | apart (sign : OffsetSign) (hours minutes : Nat) (hours_lt : hours < 100)
      (minutes_lt : minutes < 60)
  deriving DecidableEq

namespace Zone

/-- The characters of a zone. -/
def chars : Zone → List Char
  | utc letter _ => [letter]
  | apart sign hours minutes _ _ => sign.char :: twoDigits hours ++ ':' :: twoDigits minutes

/-- The seconds that the local time is ahead of UTC. -/
def offset : Zone → Int
  | utc _ _ => 0
  | apart sign hours minutes _ _ => sign.signed (hours * 3600 + minutes * 60)

end Zone

/-- The characters of a time of day. -/
def timeChars (hour minute second : Nat) (fraction : List Char) : List Char :=
  twoDigits hour ++ ':' :: twoDigits minute ++ ':' :: twoDigits second ++ fractionChars fraction

/-- The characters of a day, with four digits for the year. -/
def dayChars (date : Date) : List Char :=
  twoDigits (date.year.toNat / 100) ++ twoDigits (date.year.toNat % 100) ++
    '-' :: twoDigits date.month ++ '-' :: twoDigits date.day

/-- A timestamp: a day of a year with four digits, a time of day with any number of digits
    behind its point, and the offset of a zone. -/
structure Timestamp where
  date : Date
  separator : Char
  hour : Nat
  minute : Nat
  second : Nat
  fraction : List Char
  zone : Zone
  year_range : 0 ≤ date.year ∧ date.year ≤ 9999
  separator_eq : separator = 'T' ∨ separator = 't' ∨ separator = ' '
  hour_lt : hour < 24
  minute_lt : minute < 60
  second_le : second ≤ 60
  fraction_digits : ∀ c ∈ fraction, c.isDigit = true
  offset_lt : zone.offset.natAbs < secondsPerDay
  deriving DecidableEq

namespace Timestamp

variable (stamp : Timestamp)

/-- The characters of the timestamp. -/
def chars : List Char :=
  dayChars stamp.date ++ stamp.separator ::
    (timeChars stamp.hour stamp.minute stamp.second stamp.fraction ++ stamp.zone.chars)

/-- The text of the timestamp. -/
def text : String :=
  String.ofList stamp.chars

/-- The moment that is meant, in seconds since the beginning of 1970: the local time with all
    digits of its fraction, and the offset taken away. -/
def moment : ℚ :=
  (stamp.date.number * secondsPerDay : Int) +
    (stamp.hour * 3600 + stamp.minute * 60 + stamp.second : Nat) +
    (Nat.ofDigitChars 10 stamp.fraction 0 : ℚ) / 10 ^ stamp.fraction.length - stamp.zone.offset

end Timestamp

/-! ### Offsets -/

namespace Zone

/-- The bytes of an offset are those of its sign and two numbers. -/
theorem byteForm_apart (sign : OffsetSign) (hours minutes : Nat) (hh : hours < 100)
    (hm : minutes < 60) : byteForm (apart sign hours minutes hh hm).chars =
      byteForm [sign.char] ++ (twoDigits hours ++ ':' :: twoDigits minutes) := by
  have hminutes := isDigit_twoDigits minutes (Nat.lt_trans hm (by decide))
  rw [chars, ← List.singleton_append, List.append_assoc, byteForm_append, byteForm_append,
    byteForm_cons ':' _ (by decide), byteForm_of_isDigit _ (isDigit_twoDigits hours hh),
    byteForm_of_isDigit _ hminutes]

/-- A zone begins neither with a digit nor with a point, so that a fraction ends in front of
    it. -/
theorem head_byteForm (zone : Zone) (cs : List Char) :
    ∀ c ∈ (byteForm zone.chars ++ cs).head?, c.isDigit = false ∧ c ≠ '.' := by
  intro c hc
  cases zone with
  | utc letter hletter =>
      rcases hletter with rfl | rfl
      · cases hc
        decide
      · cases hc
        decide
  | apart sign hours minutes hh hm =>
      rw [byteForm_apart] at hc
      cases sign <;> cases hc <;> decide

end Zone

namespace Instant

open Calendar

theorem readSeparator_eq_ok_iff (cs rest : List Char) : readSeparator cs = .ok rest ↔
    ∃ c, (c = 'T' ∨ c = 't' ∨ c = ' ') ∧ cs = c :: rest := by
  cases cs with
  | nil => simp only [readSeparator, reduceCtorEq, and_false, exists_false]
  | cons d cs =>
      rw [readSeparator]
      simp only [List.cons.injEq]
      split
      · next h =>
          rw [Except.ok.injEq]
          exact ⟨fun hcs => ⟨d, h, rfl, hcs⟩, fun ⟨_, _, _, hcs⟩ => hcs⟩
      · next h =>
          refine ⟨nofun, ?_⟩
          rintro ⟨c, hc, rfl, _⟩
          exact absurd hc h

theorem readOffsetParts_eq_ok_iff (cs rest : List Char) (n : Nat) :
    readOffsetParts cs = .ok (n, rest) ↔ ∃ hours minutes, hours < 100 ∧ minutes < 60 ∧
      cs = twoDigits hours ++ ':' :: (twoDigits minutes ++ rest) ∧
      n = hours * 3600 + minutes * 60 := by
  simp only [readOffsetParts, bind_eq_ok_iff, Prod.exists, readTwo_eq_ok_iff, readChar_eq_ok_iff]
  constructor
  · rintro ⟨hours, _, ⟨hh, rfl⟩, _, rfl, minutes, _, ⟨_, rfl⟩, h⟩
    -- Sixty minutes and more are refused, and there is no such limit on the hours.
    split at h
    · exact nomatch h
    · next hm =>
        rw [Except.ok.injEq, Prod.mk.injEq] at h
        rcases h with ⟨rfl, rfl⟩
        exact ⟨hours, minutes, hh, Nat.lt_of_not_le hm, rfl, rfl⟩
  · rintro ⟨hours, minutes, hh, hm, rfl, rfl⟩
    refine ⟨hours, _, ⟨hh, rfl⟩, _, rfl, minutes, _, ⟨Nat.lt_trans hm (by decide), rfl⟩, ?_⟩
    rw [if_neg (Nat.not_le.mpr hm)]

/-- Behind its sign an offset is read as two numbers. -/
theorem readOffset_sign (sign : OffsetSign) (cs : List Char) :
    readOffset (byteForm [sign.char] ++ cs) =
      (readOffsetParts cs).map fun part => (sign.signed part.1, part.2) := by
  have hsign : readOffset (byteForm [sign.char] ++ cs) =
      (readOffsetParts cs >>= fun part => pure (sign.signed part.1, part.2)) := by
    cases sign <;> rfl
  rw [hsign]
  cases readOffsetParts cs <;> rfl

theorem exists_zone_of_sign (sign : OffsetSign) (cs rest : List Char) (offset : Int)
    (h : readOffset (byteForm [sign.char] ++ cs) = .ok (offset, rest)) :
    ∃ zone : Zone, byteForm [sign.char] ++ cs = byteForm zone.chars ++ rest ∧
      zone.offset = offset := by
  rw [readOffset_sign] at h
  rcases hparts : readOffsetParts cs with fault | ⟨seconds, cs'⟩
  · rw [hparts] at h
    exact nomatch h
  · rw [hparts] at h
    cases h
    rcases (readOffsetParts_eq_ok_iff _ _ _).mp hparts with ⟨hours, minutes, hh, hm, rfl, rfl⟩
    refine ⟨.apart sign hours minutes hh hm, ?_, rfl⟩
    rw [Zone.byteForm_apart, List.append_assoc, List.append_assoc, List.cons_append]

theorem readOffset_eq_ok_iff (cs rest : List Char) (offset : Int) :
    readOffset cs = .ok (offset, rest) ↔
      ∃ zone : Zone, cs = byteForm zone.chars ++ rest ∧ zone.offset = offset := by
  constructor
  · intro h
    have h' := h
    unfold readOffset at h
    -- The first character tells a letter from a sign, of which there are three.
    split at h
    · exact nomatch h
    · cases h
      exact ⟨.utc 'Z' (Or.inl rfl), rfl, rfl⟩
    · cases h
      exact ⟨.utc 'z' (Or.inr rfl), rfl, rfl⟩
    · next cs => exact exists_zone_of_sign .plus cs rest offset h'
    · next cs => exact exists_zone_of_sign .hyphen cs rest offset h'
    · next cs => exact exists_zone_of_sign .minus cs rest offset h'
    · exact nomatch h
  · rintro ⟨zone, rfl, rfl⟩
    cases zone with
    | utc letter hletter => rcases hletter with rfl | rfl <;> rfl
    | apart sign hours minutes hh hm =>
        have hparts := (readOffsetParts_eq_ok_iff _ rest _).mpr
          ⟨hours, minutes, hh, hm, rfl, rfl⟩
        rw [Zone.byteForm_apart, List.append_assoc, readOffset_sign, List.append_assoc,
          List.cons_append, hparts]
        rfl

end Instant

/-! ### Days and times -/

theorem Date.ofParts?_eq_some_iff {year : Int} {month day : Nat} {date : Date} :
    Date.ofParts? year month day = some date ↔
      year = date.year ∧ month = date.month ∧ day = date.day := by
  unfold Date.ofParts?
  constructor
  · intro h
    split at h
    · split at h
      · cases h
        exact ⟨rfl, rfl, rfl⟩
      · contradiction
    · contradiction
  · rintro ⟨rfl, rfl, rfl⟩
    rw [dif_pos date.month_range, dif_pos date.day_range]

theorem Time.ofParts?_eq_some {hour minute second nano : Nat} {time : Time}
    (h : Time.ofParts? hour minute second nano = some time) :
    hour < 24 ∧ minute < 60 ∧ second ≤ 60 := by
  unfold Time.ofParts? at h
  split at h
  · next hparts => exact ⟨hparts.1, hparts.2.1, hparts.2.2.1⟩
  · contradiction

/-- A leap second is written as the sixtieth of its minute, and counts as that. -/
theorem Time.exists_ofParts? (hour minute second nano : Nat) (hh : hour < 24) (hm : minute < 60)
    (hs : second ≤ 60) (hn : nano < nanosPerSecond) :
    ∃ time, Time.ofParts? hour minute second nano = some time ∧
      time.seconds = (hour * 3600 + minute * 60 + second : Nat) + (nano : ℚ) / nanosPerSecond ∧
      (time.nano < nanosPerSecond ↔ second < 60) := by
  have hne := (cast_rate_pos nanosPerSecond nanosPerSecond_pos).ne'
  unfold Time.ofParts?
  rw [dif_pos ⟨hh, hm, hs, hn⟩]
  split
  · -- The sixtieth second is kept as a second of nanoseconds on top of the one before.
    next hleap =>
      subst hleap
      refine ⟨_, rfl, ?_, ?_⟩
      · simp only [Time.seconds]
        rw [Nat.cast_add nanosPerSecond, add_div, div_self hne, ← add_assoc, ← Nat.cast_add_one]
      · exact iff_of_false (Nat.not_lt.mpr (Nat.le_add_right _ _)) (by decide)
  · next hnot =>
      have hlt : second < 60 := Nat.lt_of_le_of_ne hs hnot
      rw [dif_pos hlt]
      exact ⟨_, rfl, rfl, fun _ => hlt, fun _ => hn⟩

namespace Instant

open Calendar

theorem readDay_eq_ok_iff (cs rest : List Char) (date : Date) : readDay cs = .ok (date, rest) ↔
    (0 ≤ date.year ∧ date.year ≤ 9999) ∧ cs = dayChars date ++ rest := by
  simp only [readDay, bind_eq_ok_iff, Prod.exists, readTwo_eq_ok_iff, readChar_eq_ok_iff]
  constructor
  · rintro ⟨century, _, ⟨hc, rfl⟩, year, _, ⟨hy, rfl⟩, _, rfl, month, _, ⟨_, rfl⟩, _, rfl, day, _,
      ⟨_, rfl⟩, h⟩
    split at h
    · next date' hdate =>
        -- The day that is made of the numbers gives them back, the year as one of four digits.
        cases h
        rcases Date.ofParts?_eq_some_iff.mp hdate with ⟨hyear, rfl, rfl⟩
        have hnat : date.year.toNat = century * 100 + year := by rw [← hyear, Int.toNat_natCast]
        refine ⟨by omega, ?_⟩
        have hfront : (century * 100 + year) / 100 = century := by omega
        have hback : (century * 100 + year) % 100 = year := by omega
        rw [dayChars, hnat, hfront, hback]
        simp only [List.append_assoc, List.cons_append]
    · exact nomatch h
  · rintro ⟨hyear, rfl⟩
    have hmonth := date.month_range
    have hday := date.day_range
    have hlong := daysInMonth_le date.year date.month
    have hwhole : ((date.year.toNat / 100 * 100 + date.year.toNat % 100 : Nat) : Int) =
        date.year := by
      omega
    refine ⟨date.year.toNat / 100, _, ⟨by omega, ?_⟩, date.year.toNat % 100, _, ⟨by omega, rfl⟩,
      _, rfl, date.month, _, ⟨by omega, rfl⟩, _, rfl, date.day, rest, ⟨by omega, rfl⟩, ?_⟩
    · simp only [dayChars, List.append_assoc, List.cons_append]
    · rw [hwhole, Date.ofParts?_eq_some_iff.mpr ⟨rfl, rfl, rfl⟩]

/-- A time of day in front of something that is neither a digit nor a point is read. -/
theorem readTime_append {hour minute second : Nat} {fraction rest : List Char} {time : Time}
    (hh : hour < 24) (hm : minute < 60) (hs : second ≤ 60)
    (hd : ∀ c ∈ fraction, c.isDigit = true) (hr : ∀ c ∈ rest.head?, c.isDigit = false ∧ c ≠ '.')
    (ht : Time.ofParts? hour minute second (nanosOf fraction) = some time) :
    readTime (timeChars hour minute second fraction ++ rest) = .ok (time, rest) := by
  simp only [readTime, bind_eq_ok_iff, Prod.exists, readTwo_eq_ok_iff, readChar_eq_ok_iff]
  refine ⟨hour, _, ⟨by omega, ?_⟩, _, rfl, minute, _, ⟨by omega, rfl⟩, _, rfl, second, _,
    ⟨by omega, rfl⟩, _, _, readFraction_append fraction rest hd hr, ?_⟩
  · simp only [timeChars, List.append_assoc, List.cons_append]
  · rw [ht]

theorem exists_of_readTime {cs rest : List Char} {time : Time}
    (h : readTime cs = .ok (time, rest)) : ∃ hour minute second fraction,
      (hour < 24 ∧ minute < 60 ∧ second ≤ 60) ∧ (∀ c ∈ fraction, c.isDigit = true) ∧
        cs = timeChars hour minute second fraction ++ rest := by
  simp only [readTime, bind_eq_ok_iff, Prod.exists, readTwo_eq_ok_iff, readChar_eq_ok_iff] at h
  rcases h with ⟨hour, _, ⟨_, rfl⟩, _, rfl, minute, _, ⟨_, rfl⟩, _, rfl, second, _, ⟨_, rfl⟩, nano,
    _, hfraction, h⟩
  rcases exists_of_readFraction hfraction with ⟨fraction, hd, rfl⟩
  split at h
  · next time' htime =>
      cases h
      refine ⟨hour, minute, second, fraction, Time.ofParts?_eq_some htime, hd, ?_⟩
      simp only [timeChars, List.append_assoc, List.cons_append]
  · exact nomatch h

end Instant

/-! ### Timestamps -/

theorem Instant.read_eq (text : String) : Instant.read text = readBytes (byteForm text.toList) :=
  rfl

namespace Timestamp

variable (stamp : Timestamp)

theorem byteForm_dayChars : byteForm (dayChars stamp.date) = dayChars stamp.date := by
  have hyear := stamp.year_range
  have hmonth := stamp.date.month_range
  have hday := stamp.date.day_range
  have hlong := daysInMonth_le stamp.date.year stamp.date.month
  rw [dayChars, byteForm_append, byteForm_append, byteForm_append,
    byteForm_cons '-' _ (by decide), byteForm_cons '-' _ (by decide),
    byteForm_twoDigits _ (by omega), byteForm_twoDigits _ (by omega),
    byteForm_twoDigits _ (by omega), byteForm_twoDigits _ (by omega)]

theorem byteForm_timeChars :
    byteForm (timeChars stamp.hour stamp.minute stamp.second stamp.fraction) =
      timeChars stamp.hour stamp.minute stamp.second stamp.fraction := by
  have hhour := stamp.hour_lt
  have hminute := stamp.minute_lt
  have hsecond := stamp.second_le
  -- All characters of a time are ASCII, and these are their own bytes.
  have hfraction : byteForm (fractionChars stamp.fraction) = fractionChars stamp.fraction := by
    rw [fractionChars]
    split
    · rfl
    · rw [byteForm_cons '.' _ (by decide), byteForm_of_isDigit _ stamp.fraction_digits]
  rw [timeChars, byteForm_append, byteForm_append, byteForm_append,
    byteForm_cons ':' _ (by decide), byteForm_cons ':' _ (by decide),
    byteForm_twoDigits _ (by omega), byteForm_twoDigits _ (by omega),
    byteForm_twoDigits _ (by omega), hfraction]

/-- Of a timestamp only the sign of the zone can have other bytes than its characters. -/
theorem byteForm_chars : byteForm stamp.chars = dayChars stamp.date ++ stamp.separator ::
    (timeChars stamp.hour stamp.minute stamp.second stamp.fraction ++
      byteForm stamp.zone.chars) := by
  have hseparator : stamp.separator.toNat < 128 := by
    rcases stamp.separator_eq with h | h | h <;> rw [h] <;> decide
  rw [chars, byteForm_append, byteForm_cons _ _ hseparator, byteForm_append, byteForm_dayChars,
    byteForm_timeChars]

theorem leastLength_le : Instant.leastLength ≤ (byteForm stamp.chars).length := by
  rw [byteForm_chars]
  simp only [List.length_append, List.length_cons, dayChars, timeChars, twoDigits, List.length_nil,
    Instant.leastLength]
  omega

/-- But for the fraction a moment is a whole second. -/
theorem moment_eq : stamp.moment = (stamp.date.number * secondsPerDay +
    (stamp.hour * 3600 + stamp.minute * 60 + stamp.second : Nat) - stamp.zone.offset : Int) +
      (Nat.ofDigitChars 10 stamp.fraction 0 : ℚ) / 10 ^ stamp.fraction.length := by
  rw [moment, Int.cast_sub, Int.cast_add, Int.cast_natCast, sub_add_eq_add_sub]

/-- A timestamp is read as the moment that it means, cut to nanoseconds. -/
theorem exists_read : ∃ instant, Instant.read stamp.text = .ok instant ∧
    instant.moment = cutTo nanosPerSecond stamp.moment ∧
      (instant.time.nano < nanosPerSecond ↔ stamp.second < 60) := by
  rcases Time.exists_ofParts? stamp.hour stamp.minute stamp.second (nanosOf stamp.fraction)
    stamp.hour_lt stamp.minute_lt stamp.second_le (Calendar.nanosOf_lt _ stamp.fraction_digits) with
    ⟨time, htime, hseconds, hleap⟩
  refine ⟨Instant.ofLocal stamp.date time stamp.zone.offset, ?_, ?_, hleap⟩
  · -- Each part is read with the rest of the text behind
    -- it. The fraction ends where the zone begins.
    have hzone := stamp.zone.head_byteForm []
    have hread := Instant.readTime_append stamp.hour_lt stamp.minute_lt stamp.second_le
      stamp.fraction_digits hzone htime
    rw [Instant.read_eq, text, String.toList_ofList, Instant.readBytes,
      if_neg (Nat.not_lt.mpr stamp.leastLength_le), byteForm_chars, ← List.append_nil (byteForm _)]
    simp only [Instant.readParts, bind_eq_ok_iff, Prod.exists, Instant.readDay_eq_ok_iff,
      Instant.readSeparator_eq_ok_iff, Instant.readOffset_eq_ok_iff, Calendar.readEnd_eq_ok_iff]
    refine ⟨_, _, ⟨stamp.year_range, rfl⟩, _, ⟨_, stamp.separator_eq, rfl⟩, _, _, hread, _, _,
      ⟨_, rfl, rfl⟩, (), rfl, ?_⟩
    rw [if_neg (Int.not_le.mpr (Int.ofNat_lt.mpr stamp.offset_lt))]
  · rw [Instant.moment_ofLocal stamp.offset_lt, hseconds, moment_eq,
      cutTo_intCast_add _ nanosPerSecond_pos, Calendar.cutTo_fraction, Int.cast_sub, Int.cast_add,
      Int.cast_natCast, ← add_assoc, sub_add_eq_add_sub]

/-- Only timestamps are read. -/
theorem exists_of_read (text : String) (instant : Instant) (h : Instant.read text = .ok instant) :
    ∃ stamp : Timestamp, stamp.text = text := by
  rw [Instant.read_eq, Instant.readBytes] at h
  split at h
  · exact nomatch h
  · simp only [Instant.readParts, bind_eq_ok_iff, Prod.exists, Instant.readDay_eq_ok_iff,
      Instant.readSeparator_eq_ok_iff, Instant.readOffset_eq_ok_iff,
      Calendar.readEnd_eq_ok_iff] at h
    rcases h with ⟨date, _, ⟨hyear, hcs⟩, _, ⟨separator, hseparator, rfl⟩, time, _, htime, offset,
      _, ⟨zone, rfl, rfl⟩, _, rfl, h⟩
    rcases Instant.exists_of_readTime htime with ⟨hour, minute, second, fraction,
      ⟨hhour, hminute, hsecond⟩, hd, rfl⟩
    split at h
    · exact nomatch h
    · next hoffset =>
        refine ⟨⟨date, separator, hour, minute, second, fraction, zone, hyear, hseparator, hhour,
          hminute, hsecond, hd, by omega⟩, ?_⟩
        -- What was read are bytes, and these are of one text only.
        rw [Timestamp.text, ← String.ofList_toList (s := text)]
        refine congrArg String.ofList (byteForm_injective ?_)
        rw [byteForm_chars, hcs, List.append_nil]

end Timestamp

end Schemata
