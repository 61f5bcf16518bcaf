import Schemata.Proofs.Calendar.Timestamps
import Schemata.Proofs.ScalarKinds

/-!
# Truncated Values

What the types of instants and times make of a text.

An instant is read first and truncated then, so the types with milliseconds and
with microseconds accept the same texts, and all that truncation has to do with
is the moment that was read. The reader has cut it to nanoseconds already. That
makes no difference to the coarser cuts, so the values of a timestamp depend on
its moment alone: the offset is gone, and going down is going to the past,
before 1970 as well as after.

## Main definitions

* `Timestamp.HasValues`: What both types of instants make of a timestamp.

## Theorems

* `Instant.isGreatest_truncate`: Truncation gives the last part of a second that is not after a
  moment.
* `Timestamp.read_eq_of_moment_eq`: Timestamps of one moment are read as one instant.
* `timestamps_truncated`: Texts, timestamps and their values.
-/

namespace Schemata

/-- What the two types of instants make of a timestamp: the last millisecond and the last
    microsecond that are not after the moment it means. -/
structure Timestamp.HasValues (stamp : Timestamp) (millis micros : Instant) : Prop where
  millis_eq : ScalarKind.dateTime.parse (some stamp.text) = .ok (some (.instant millis))
  micros_eq : ScalarKind.dateTimeMicros.parse (some stamp.text) = .ok (some (.instant micros))
  millis_isGreatest : IsGreatest (partsUpTo 1000 stamp.moment) millis.moment
  micros_isGreatest : IsGreatest (partsUpTo 1000000 stamp.moment) micros.moment
  truncate_eq : micros.truncate ScalarKind.milli = millis

/-! ### Values of a text -/

/-- A millisecond is a whole number of microseconds. -/
theorem Time.truncate_truncate (time : Time) :
    (time.truncate ScalarKind.micro).truncate ScalarKind.milli =
      time.truncate ScalarKind.milli := by
  have hnano : time.nano - time.nano % 1000 - (time.nano - time.nano % 1000) % 1000000 =
      time.nano - time.nano % 1000000 := by
    omega
  simp only [truncate, ScalarKind.micro, ScalarKind.milli, hnano]

/-! ### Values of a timestamp -/

theorem Instant.truncate_truncate (instant : Instant) :
    (instant.truncate ScalarKind.micro).truncate ScalarKind.milli =
      instant.truncate ScalarKind.milli :=
  congrArg (Instant.mk instant.date) instant.time.truncate_truncate

/-- An instant cut once to nanoseconds and once to a unit is cut to that unit. -/
theorem Instant.isGreatest_truncate (unit rate : Nat) (h : unit * rate = nanosPerSecond)
    (hr : 0 < rate) (hu : 0 < unit) (instant : Instant) (moment : ℚ)
    (hi : instant.moment = cutTo nanosPerSecond moment) :
    IsGreatest (partsUpTo rate moment) (instant.truncate unit).moment := by
  rw [Instant.moment_truncate unit rate h hr, hi, ← h, cutTo_cutTo rate hr unit hu]
  exact isGreatest_cutTo rate hr moment

namespace Timestamp

/-- The values of a timestamp are those of the instant that it is read as. -/
theorem hasValues_of_read (stamp : Timestamp) (instant : Instant)
    (h : Instant.read stamp.text = .ok instant)
    (hm : instant.moment = cutTo nanosPerSecond stamp.moment) :
    stamp.HasValues (instant.truncate ScalarKind.milli) (instant.truncate ScalarKind.micro) where
  millis_eq := by
    refine ScalarKind.parse_of_read _ _ _ ?_
    rw [ScalarKind.read, h]
    rfl
  micros_eq := by
    refine ScalarKind.parse_of_read _ _ _ ?_
    rw [ScalarKind.read, h]
    rfl
  millis_isGreatest :=
    Instant.isGreatest_truncate ScalarKind.milli 1000 rfl (by decide) (by decide) _ _ hm
  micros_isGreatest :=
    Instant.isGreatest_truncate ScalarKind.micro 1000000 rfl (by decide) (by decide) _ _ hm
  truncate_eq := instant.truncate_truncate

/-- Timestamps of the same moment are read as the same instant. -/
theorem read_eq_of_moment_eq (a b : Timestamp) (hleap : a.second < 60 ↔ b.second < 60)
    (h : a.moment = b.moment) (instant : Instant) (ha : Instant.read a.text = .ok instant) :
    Instant.read b.text = .ok instant := by
  rcases a.exists_read with ⟨i, hi, hmi, hli⟩
  rcases b.exists_read with ⟨j, hj, hmj, hlj⟩
  rw [ha] at hi
  cases hi
  have hij : instant = j :=
    Instant.eq_of_moment_eq instant j (hli.trans (hleap.trans hlj.symm)) (by rw [hmi, hmj, h])
  rw [hij, hj]

end Timestamp

/-- Texts are values of both types of instants, or of neither: those that are timestamps. From
    a timestamp the types take the last millisecond and the last microsecond that are not after
    the moment it means, and truncating the one gives the other. So timestamps of the same
    moment have the same values, whatever their offsets; a leap second is not the second behind
    it. Types of times of day accept the same texts too, and truncate alike. -/
theorem timestamps_truncated :
    (∀ text, ScalarKind.dateTime.Accepts text ↔ ∃ stamp : Timestamp, stamp.text = text) ∧
    (∀ text, ScalarKind.dateTimeMicros.Accepts text ↔ ∃ stamp : Timestamp, stamp.text = text) ∧
    (∀ stamp : Timestamp, ∃ millis micros, stamp.HasValues millis micros) ∧
    (∀ a b : Timestamp, (a.second < 60 ↔ b.second < 60) → a.moment = b.moment →
      ∃ millis micros, a.HasValues millis micros ∧ b.HasValues millis micros) ∧
    ∀ text, (∃ micros : Time,
        ScalarKind.timeMicros.parse (some text) = .ok (some (.time micros)) ∧
        ScalarKind.time.parse (some text) =
          .ok (some (.time (micros.truncate ScalarKind.milli)))) ∨
      ¬ ScalarKind.timeMicros.Accepts text ∧ ¬ ScalarKind.time.Accepts text := by
  -- Both types read the text as an instant first, and that decides.
  have hstamp : ∀ text, (∃ instant, Instant.read text = .ok instant) ↔
      ∃ stamp : Timestamp, stamp.text = text := by
    intro text
    constructor
    · rintro ⟨instant, h⟩
      exact Timestamp.exists_of_read text instant h
    · rintro ⟨stamp, rfl⟩
      exact stamp.exists_read.imp fun _ h => h.1
  refine ⟨fun text => ?_, fun text => ?_, fun stamp => ?_, fun a b hleap h => ?_, fun text => ?_⟩
  · rw [← hstamp, ScalarKind.accepts_iff]
    exact exists_map_mapError_iff
  · rw [← hstamp, ScalarKind.accepts_iff]
    exact exists_map_mapError_iff
  · rcases stamp.exists_read with ⟨instant, hread, hmoment, -⟩
    exact ⟨_, _, stamp.hasValues_of_read instant hread hmoment⟩
  · rcases a.exists_read with ⟨instant, hread, hmoment, -⟩
    have hread' := Timestamp.read_eq_of_moment_eq a b hleap h instant hread
    exact ⟨_, _, a.hasValues_of_read instant hread hmoment,
      b.hasValues_of_read instant hread' (h ▸ hmoment)⟩
  · -- Likewise a time of day is read before it is truncated.
    cases hread : Time.read text with
    | error fault =>
        have hnone : ¬ ∃ time, Time.read text = .ok time := by
          rw [hread]
          exact fun ⟨_, h⟩ => nomatch h
        refine Or.inr ⟨?_, ?_⟩
        · rw [ScalarKind.accepts_iff]
          exact mt exists_map_mapError_iff.mp hnone
        · rw [ScalarKind.accepts_iff]
          exact mt exists_map_mapError_iff.mp hnone
    | ok time =>
        refine Or.inl ⟨time.truncate ScalarKind.micro, ScalarKind.parse_of_read _ _ _ ?_,
          ScalarKind.parse_of_read _ _ _ ?_⟩
        · rw [ScalarKind.read, hread]
          rfl
        · rw [ScalarKind.read, hread, Time.truncate_truncate]
          rfl

namespace Sample

/-- Half an hour into March to the east of UTC, and a little less than a millisecond. -/
def marchEast : Timestamp where
  date := ⟨1968, 3, 1, by decide, by decide⟩
  separator := 'T'
  hour := 0
  minute := 30
  second := 0
  fraction := ['0', '0', '0', '9', '9', '9', '9', '9', '9', '9']
  zone := .apart .plus 1 0 (by decide) (by decide)
  year_range := by decide
  separator_eq := Or.inl rfl
  hour_lt := by decide
  minute_lt := by decide
  second_le := by decide
  fraction_digits := List.all_eq_true.mp rfl
  offset_lt := by decide

/-- The same moment in UTC, where the leap day is not over. -/
def leapDay : Timestamp where
  date := ⟨1968, 2, 29, by decide, by decide⟩
  separator := ' '
  hour := 23
  minute := 30
  second := 0
  fraction := ['0', '0', '0', '9', '9', '9', '9', '9', '9', '9']
  zone := .utc 'Z' (Or.inl rfl)
  year_range := by decide
  separator_eq := Or.inr (Or.inr rfl)
  hour_lt := by decide
  minute_lt := by decide
  second_le := by decide
  fraction_digits := List.all_eq_true.mp rfl
  offset_lt := by decide

end Sample

open Sample

theorem timestamps_truncated_leapDay :
    marchEast.text = "1968-03-01T00:30:00.0009999999+01:00" ∧
    leapDay.text = "1968-02-29 23:30:00.0009999999Z" ∧
    (∃ millis micros, marchEast.HasValues millis micros ∧ leapDay.HasValues millis micros) ∧
    (ScalarKind.dateTimeMicros.parse (some marchEast.text)).toOption = some (some (.instant
      ⟨⟨1968, 2, 29, by decide, by decide⟩, ⟨84600, 999000, by decide, by decide⟩⟩)) := by
  have hmoment : marchEast.moment = leapDay.moment := by
    -- The offset leads back over the end of February.
    have hwhole :
        marchEast.date.number * secondsPerDay + (0 * 3600 + 30 * 60 + 0 : Nat) - 3600 =
          leapDay.date.number * secondsPerDay + (23 * 3600 + 30 * 60 + 0 : Nat) - 0 := by
      decide
    rw [Timestamp.moment_eq, Timestamp.moment_eq]
    exact congrArg₂ (· + ·) (congrArg Int.cast hwhole) rfl
  refine ⟨rfl, rfl, ?_, by decide +kernel⟩
  exact timestamps_truncated.2.2.2.1 marchEast leapDay (by decide) hmoment

end Schemata
