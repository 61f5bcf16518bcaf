import Schemata.Proofs.Calendar.Printing
import Schemata.Proofs.Calendar.Truncations

/-!
# Printed Values of Calendar Types

What is printed for a date, an instant or a time of day is read as that value again.

The printed text is not the one that was read. It has the digits that the value
needs and no others, and an instant is in UTC. It is read as the value all the
same, and truncating it once more changes nothing.

There is one exception. Taking an offset away can lead out of the years that have
four digits, and then an instant is printed with a sign in front of its year. No
timestamp begins with a sign, so this text is refused.

## Main definitions

* `ScalarKind.isCalendar`: The types of dates, instants and times of day.
* `Value.HasPlainYear`: The year of an instant has four digits.

## Theorems

* `calendar_values_printed`: Which printed values are read back.
-/

namespace Schemata

/-- The type is one of dates, instants or times of day. -/
def ScalarKind.isCalendar : ScalarKind → Bool
  | .date | .dateTime | .dateTimeMicros | .time | .timeMicros => true
  | _ => false

/-- If the value is an instant, its year has four digits. -/
def Value.HasPlainYear : Value → Prop
  | .instant value => 0 ≤ value.date.year ∧ value.date.year ≤ 9999
  | _ => True

/-- What the type makes of a printed value: the value itself, or nothing if its year has not four
    digits. -/
def ScalarKind.ReadsBack (kind : ScalarKind) (value : Value) : Prop :=
  (value.HasPlainYear → kind.read value.text = .ok value) ∧
    (¬ value.HasPlainYear → ¬ ∃ other, kind.read value.text = .ok other)

theorem ScalarKind.readsBack_of_read (kind : ScalarKind) (value : Value)
    (hyear : value.HasPlainYear) (h : kind.read value.text = .ok value) : kind.ReadsBack value :=
  ⟨fun _ => h, fun hnot => absurd hyear hnot⟩

theorem readsBack_date (text : String) (value : Value)
    (h : ScalarKind.date.read text = .ok value) : ScalarKind.date.ReadsBack value := by
  rw [ScalarKind.read, map_mapError_eq_ok_iff] at h
  rcases h with ⟨date, hdate, rfl⟩
  refine ScalarKind.readsBack_of_read _ _ trivial ?_
  rw [ScalarKind.read, map_mapError_eq_ok_iff]
  exact ⟨date, date.read_text (Date.year_of_read text date hdate), rfl⟩

section

variable (kind : ScalarKind) (unit : Nat)

theorem readsBack_instant (hkind : ∀ text, kind.read text =
      ((Instant.read text).map (.instant <| ·.truncate unit)).mapError .calendar)
    (text : String) (value : Value) (h : kind.read text = .ok value) : kind.ReadsBack value := by
  rw [hkind, map_mapError_eq_ok_iff] at h
  rcases h with ⟨instant, hinstant, rfl⟩
  have hleap := Time.LeapAtEnd.truncate instant.time unit (Instant.leapAtEnd_of_read _ _ hinstant)
  constructor
  · -- What is printed has been truncated, so truncating it again changes nothing.
    intro hyear
    rw [hkind, map_mapError_eq_ok_iff]
    exact ⟨_, Instant.read_text (instant.truncate unit) hyear hleap,
      congrArg Value.instant (instant.truncate_idem unit).symm⟩
  · rintro hyear ⟨other, hother⟩
    rw [hkind, map_mapError_eq_ok_iff] at hother
    rcases hother with ⟨read, hread, _⟩
    exact hyear (Instant.year_of_read_text _ read hread)

theorem readsBack_time (hkind : ∀ text, kind.read text =
      ((Time.read text).map (.time <| ·.truncate unit)).mapError .calendar)
    (text : String) (value : Value) (h : kind.read text = .ok value) : kind.ReadsBack value := by
  rw [hkind, map_mapError_eq_ok_iff] at h
  rcases h with ⟨time, htime, rfl⟩
  have hleap := Time.LeapAtEnd.truncate time unit (Time.leapAtEnd_of_read _ _ htime)
  refine kind.readsBack_of_read _ trivial ?_
  rw [hkind, map_mapError_eq_ok_iff]
  exact ⟨_, Time.read_text (time.truncate unit) hleap,
    congrArg Value.time (time.truncate_idem unit).symm⟩

end

/-- What is printed for a value of a calendar type is read as the same value, unless it is an
    instant whose year in UTC has not four digits: then it is refused for its syntax. -/
theorem calendar_values_printed (kind : ScalarKind) (hk : kind.isCalendar = true) (text : String)
    (value : Value) (h : kind.parse (some text) = .ok (some value)) :
    (value.HasPlainYear → kind.parse (some value.text) = .ok (some value)) ∧
      (¬ value.HasPlainYear → Fails SchemaError.isSyntax (kind.parse (some value.text))) := by
  rw [ScalarKind.parse_eq_ok_iff] at h
  have hback : kind.ReadsBack value := by
    -- Only the calendar types are left, which are three readers with their units.
    cases kind with
    | date => exact readsBack_date text value h
    | dateTime =>
        exact readsBack_instant .dateTime ScalarKind.milli (fun _ => rfl) text value h
    | dateTimeMicros =>
        exact readsBack_instant .dateTimeMicros ScalarKind.micro (fun _ => rfl) text value h
    | time => exact readsBack_time .time ScalarKind.milli (fun _ => rfl) text value h
    | timeMicros => exact readsBack_time .timeMicros ScalarKind.micro (fun _ => rfl) text value h
    | _ => exact absurd hk Bool.false_ne_true
  rw [ScalarKind.parse_eq_ok_iff, ScalarKind.parse_isSyntax_iff, ScalarKind.accepts_iff]
  exact hback

/-- A leap second is printed in UTC with the digits that are left of its fraction, a year in front
    of the year zero with four digits, and a time without seconds with them. An hour behind the
    last year with four digits there is no timestamp left. -/
theorem calendar_values_printed_leap : ∃ leap ides last : Value, ∃ minutes : Time,
    ScalarKind.dateTimeMicros.parse (some "2017-01-01t01:59:60.1200007+02:00") = .ok (some leap) ∧
    leap.text = "2016-12-31T23:59:60.120+00:00" ∧
    ScalarKind.dateTimeMicros.parse (some leap.text) = .ok (some leap) ∧
    ScalarKind.date.parse (some "-44-3-15") = .ok (some ides) ∧
    ides.text = "-0044-03-15" ∧
    ScalarKind.date.parse (some ides.text) = .ok (some ides) ∧
    ScalarKind.time.parse (some "7:5") = .ok (some (.time minutes)) ∧
    (Value.time minutes).text = "07:05:00" ∧
    ScalarKind.time.parse (some (Value.time minutes).text) = .ok (some (.time minutes)) ∧
    ScalarKind.dateTime.parse (some "9999-12-31T23:59:59-01:00") = .ok (some last) ∧
    last.text = "+10000-01-01T00:59:59+00:00" ∧
    Fails SchemaError.isSyntax (ScalarKind.dateTime.parse (some last.text)) := by
  let leap : Instant :=
    ⟨⟨2016, 12, 31, by decide, by decide⟩, ⟨86399, 1120000000, by decide, by decide⟩⟩
  let ides : Date := ⟨-44, 3, 15, by decide, by decide⟩
  let minutes : Time := ⟨25500, 0, by decide, by decide⟩
  let last : Instant := ⟨⟨10000, 1, 1, by decide, by decide⟩, ⟨3599, 0, by decide, by decide⟩⟩
  -- The four texts are evaluated once. Their printed forms follow from the general statement.
  have hleap := ScalarKind.parse_of_read .dateTimeMicros "2017-01-01t01:59:60.1200007+02:00"
    (.instant leap) (by decide +kernel)
  have hides := ScalarKind.parse_of_read .date "-44-3-15" (.date ides) (by decide +kernel)
  have hminutes := ScalarKind.parse_of_read .time "7:5" (.time minutes) (by decide +kernel)
  have hlast := ScalarKind.parse_of_read .dateTime "9999-12-31T23:59:59-01:00" (.instant last)
    (by decide +kernel)
  refine ⟨.instant leap, .date ides, .instant last, minutes, hleap, by decide +kernel, ?_, hides,
    by decide +kernel, ?_, hminutes, by decide +kernel, ?_, hlast, by decide +kernel, ?_⟩
  · exact (calendar_values_printed .dateTimeMicros rfl _ _ hleap).1 ⟨by decide, by decide⟩
  · exact (calendar_values_printed .date rfl _ _ hides).1 trivial
  · exact (calendar_values_printed .time rfl _ _ hminutes).1 trivial
  · exact (calendar_values_printed .dateTime rfl _ _ hlast).2 fun h => absurd h.2 (by decide)

/-- In UTC the last hour of the last year with four digits can lie in the year behind it, and what
    is printed then is not read. -/
theorem last_hour_not_read_back :
    ¬ ∀ value, ScalarKind.dateTime.parse (some "9999-12-31T23:59:59-01:00") = .ok (some value) →
      ScalarKind.dateTime.parse (some value.text) = .ok (some value) := by
  intro hall
  let last : Instant := ⟨⟨10000, 1, 1, by decide, by decide⟩, ⟨3599, 0, by decide, by decide⟩⟩
  have hback := hall (.instant last) (ScalarKind.parse_of_read _ _ _ (by decide +kernel))
  rw [ScalarKind.parse_eq_ok_iff] at hback
  have hnone : ScalarKind.dateTime.read (Value.instant last).text ≠ .ok (.instant last) := by
    decide +kernel
  exact hnone hback

end Schemata
