import Mathlib.Data.Rat.Floor
import Schemata.Calendar.Instant
import Schemata.Proofs.Calendar.Days

/-!
# Moments

Instants as points on a line, in seconds since the beginning of 1970.

Every day has 86400 seconds on this line, so that a leap second lies on the
second behind it. Taking an offset away is a subtraction then, whichever
border of a day, a month or a year it leads over (`moment_ofLocal`), and
cutting the nanoseconds goes towards the past on either side of 1970
(`moment_truncate`).

A fraction of a second is cut more than once, first to nanoseconds when it is
read and then to the unit of its type. As long as one unit is a multiple of
the other, only the last cut counts (`cutTo_cutTo`).

## Main definitions

* `Time.seconds`, `Instant.moment`: The seconds of a day, and since 1970.
* `cutTo`: A moment cut to whole parts of a second.
* `partsUpTo`: The parts of a second that are not after a moment.

## Theorems

* `isGreatest_cutTo`: Cutting gives the last whole part that is not after a moment.
* `cutTo_cutTo`: A cut takes back a finer cut.
* `Instant.moment_ofLocal`: An offset is subtracted.
* `Instant.moment_truncate`: Truncation is a cut.
* `Instant.eq_of_moment_eq`: An instant is known by its moment.
-/

namespace Schemata

/-- The seconds of a time of day. A leap second counts like the second behind it. -/
def Time.seconds (time : Time) : ℚ :=
  time.second + (time.nano : ℚ) / nanosPerSecond

/-- The seconds since the beginning of 1970, without those that have been leapt over. -/
def Instant.moment (instant : Instant) : ℚ :=
  (instant.date.number * secondsPerDay : Int) + instant.time.seconds

/-- A moment cut to whole parts of a second, of which there are `rate`. -/
def cutTo (rate : Nat) (moment : ℚ) : ℚ :=
  (⌊moment * rate⌋ : ℚ) / rate

/-- The whole parts of a second, of which there are `rate`, that are not after a moment. -/
def partsUpTo (rate : Nat) (moment : ℚ) : Set ℚ :=
  {m | (∃ k : Int, m = (k : ℚ) / rate) ∧ m ≤ moment}

/-! ### Cutting -/

section

variable (rate : Nat) (hr : 0 < rate)
include hr

theorem cast_rate_pos : (0 : ℚ) < rate :=
  Nat.cast_pos.mpr hr

/-- Cutting gives the last whole part of a second that is not after a moment. -/
theorem isGreatest_cutTo (moment : ℚ) :
    IsGreatest (partsUpTo rate moment) (cutTo rate moment) := by
  have hpos := cast_rate_pos rate hr
  refine ⟨⟨⟨_, rfl⟩, ?_⟩, ?_⟩
  · rw [cutTo, div_le_iff₀ hpos]
    exact Int.floor_le _
  · rintro m ⟨⟨k, rfl⟩, hk⟩
    rw [div_le_iff₀ hpos] at hk
    rw [cutTo, div_le_div_iff_of_pos_right hpos, Int.cast_le]
    exact Int.le_floor.mpr hk

/-- Whole seconds are not cut. -/
theorem cutTo_intCast_add (n : Int) (moment : ℚ) :
    cutTo rate (n + moment) = n + cutTo rate moment := by
  have hne := (cast_rate_pos rate hr).ne'
  have hwhole : (n : ℚ) * rate = (n * rate : Int) := by rw [Int.cast_mul, Int.cast_natCast]
  rw [cutTo, cutTo, add_mul, hwhole, Int.floor_intCast_add, Int.cast_add, add_div, ← hwhole,
    mul_div_cancel_right₀ _ hne]

/-- A cut takes back a finer cut. -/
theorem cutTo_cutTo (unit : Nat) (hu : 0 < unit) (moment : ℚ) :
    cutTo rate (cutTo (unit * rate) moment) = cutTo rate moment := by
  have hne := (cast_rate_pos rate hr).ne'
  have hne' := (cast_rate_pos unit hu).ne'
  have hfine : cutTo (unit * rate) moment * rate = (⌊moment * rate * unit⌋ : ℚ) / unit := by
    rw [cutTo, Nat.cast_mul, mul_comm (unit : ℚ), ← mul_assoc, div_mul_eq_mul_div,
      mul_comm (rate : ℚ), mul_div_mul_right _ _ hne]
  have hfloor : ⌊(⌊moment * rate * unit⌋ : ℚ) / unit⌋ = ⌊moment * rate⌋ := by
    rw [Int.floor_div_natCast, Int.floor_intCast, ← Int.floor_div_natCast,
      mul_div_cancel_right₀ _ hne']
  rw [cutTo, hfine, hfloor, cutTo]

end

/-! ### Instants -/

theorem nanosPerSecond_pos : 0 < nanosPerSecond := by
  decide

/-- Cutting the nanoseconds cuts the seconds. -/
theorem Time.seconds_truncate (unit rate : Nat) (h : unit * rate = nanosPerSecond) (time : Time) :
    (time.truncate unit).seconds = cutTo rate time.seconds := by
  have hpos : 0 < unit * rate := h ▸ nanosPerSecond_pos
  have hu : 0 < unit := Nat.pos_of_mul_pos_right hpos
  have hr : 0 < rate := Nat.pos_of_mul_pos_left hpos
  have hne := (cast_rate_pos rate hr).ne'
  have hne' := (cast_rate_pos unit hu).ne'
  have hnanos : (nanosPerSecond : ℚ) = unit * rate := by rw [← h, Nat.cast_mul]
  -- Cutting the fraction to the rate is the integer division of its nanoseconds by the unit.
  have hcut : cutTo rate ((time.nano : ℚ) / nanosPerSecond) =
      ((time.nano / unit : Nat) : ℚ) / rate := by
    rw [cutTo, hnanos, div_mul_eq_mul_div, mul_div_mul_right _ _ hne,
      Rat.floor_natCast_div_natCast]
    rfl
  have hwhole : (time.truncate unit).nano = unit * (time.nano / unit) :=
    Nat.sub_eq_of_eq_add (Nat.div_add_mod time.nano unit).symm
  rw [Time.seconds, Time.seconds, hwhole, Time.truncate, ← Int.cast_natCast time.second,
    cutTo_intCast_add rate hr, hcut, Nat.cast_mul, hnanos, mul_div_mul_left _ _ hne']

namespace Instant

/-- Truncation is a cut. -/
theorem moment_truncate (unit rate : Nat) (h : unit * rate = nanosPerSecond) (hr : 0 < rate)
    (instant : Instant) : (instant.truncate unit).moment = cutTo rate instant.moment := by
  rw [moment, moment, cutTo_intCast_add rate hr, truncate, Time.seconds_truncate unit rate h]

/-- An offset of less than a day leads to the day before, the same day or the day behind. -/
theorem second_ofLocal (date : Date) (time : Time) (offset : Int)
    (h : offset.natAbs < secondsPerDay) :
    (ofLocal date time offset).date.number * secondsPerDay +
      (ofLocal date time offset).time.second =
        date.number * secondsPerDay + time.second - offset := by
  have hlt := time.second_lt
  have hday : (ofLocal date time offset).date.number =
      if (time.second : Int) - offset < 0 then date.number - 1
      else if (secondsPerDay : Int) ≤ time.second - offset then date.number + 1
      else date.number := by
    rw [← date.number_previous, ← date.number_next, ← apply_ite Date.number,
      ← apply_ite Date.number]
    rfl
  have hsecond : ((ofLocal date time offset).time.second : Int) =
      (time.second - offset) % secondsPerDay :=
    Int.toNat_of_nonneg (Int.emod_nonneg _ (by decide))
  -- The second of the day is what is left of the difference, and the day takes up the rest.
  rw [hday, hsecond]
  simp only [secondsPerDay] at *
  split_ifs <;> omega

/-- An offset of less than a day is subtracted, whichever border it leads over. -/
theorem moment_ofLocal {date : Date} {time : Time} {offset : Int}
    (h : offset.natAbs < secondsPerDay) :
    (ofLocal date time offset).moment =
      (date.number * secondsPerDay : Int) + time.seconds - offset := by
  have hsecond := congrArg (Int.cast : Int → ℚ) (second_ofLocal date time offset h)
  rw [Int.cast_add, Int.cast_sub, Int.cast_add, Int.cast_natCast, Int.cast_natCast] at hsecond
  have hnano : (ofLocal date time offset).time.nano = time.nano := rfl
  rw [moment, Time.seconds, Time.seconds, ← add_assoc, ← add_assoc, hsecond, hnano,
    sub_add_eq_add_sub]

/-- In nanoseconds a moment is a whole number. -/
theorem moment_mul (instant : Instant) : instant.moment * nanosPerSecond =
    ((instant.date.number * secondsPerDay + instant.time.second) * nanosPerSecond +
      instant.time.nano : Int) := by
  have hne := (cast_rate_pos nanosPerSecond nanosPerSecond_pos).ne'
  rw [moment, Time.seconds, ← add_assoc, add_mul, div_mul_cancel₀ _ hne]
  push_cast
  rfl

/-- An instant is known by its moment, except that a leap second has that of the second behind
    it. -/
theorem eq_of_moment_eq (a b : Instant)
    (hleap : a.time.nano < nanosPerSecond ↔ b.time.nano < nanosPerSecond)
    (h : a.moment = b.moment) : a = b := by
  have hmul := b.moment_mul
  rw [← h, a.moment_mul, Int.cast_inj] at hmul
  have ha := a.time.nano_lt
  have hb := b.time.nano_lt
  have ha' := a.time.second_lt
  have hb' := b.time.second_lt
  rcases a with ⟨date, second, nano, _, _⟩
  rcases b with ⟨date', second', nano', _, _⟩
  -- The moments are equal as whole numbers of nanoseconds, whose parts have bounds. Those of the
  -- nanoseconds hold within a second, and within the leap second on top of it.
  simp only [nanosPerSecond, secondsPerDay] at *
  have hnano : nano = nano' := by omega
  have hsecond : second = second' := by omega
  have hdate : date = date' := Date.number_injective (by omega)
  subst hnano hsecond hdate
  rfl

end Instant

end Schemata
