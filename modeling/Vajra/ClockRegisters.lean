import Vajra.NetMessage

/-!
# The real-time clock (`hal/x86_64/rtc.c`)

The clock keeps each field of the time in a register, in BCD or in binary, and the hour either
from 0 to 23 or from 1 to 12 with the PM flag in bit 7; register B says which.  `WallClock` is a
time, `Holds` that the registers hold its encoding, and `halRtcRead` the decoder of the source,
on registers that do not change: its wait for the end of an update then only reads register A.

The decoder adds 12 to every hour with the PM flag, modulo 24, and to no other.  In the 12-hour
mode the hour that is written 12 is the first of its half of the day, so noon is read as 0 and
midnight as 12 (`rtcHour_exact_iff`).
-/

namespace Vajra

/-- The registers behind ports 0x70 and 0x71. -/
abbrev Cmos := UInt8 → UInt8

/-- Bits 2 and 1 of register B: binary instead of BCD, 24 hours instead of 12. -/
def binaryMode (cmos : Cmos) : Bool := cmos 0x0B &&& 0x04 != 0
def fullDayMode (cmos : Cmos) : Bool := cmos 0x0B &&& 0x02 != 0

/-- `bcd_to_bin`. -/
def bcdToBin (v : UInt8) : UInt8 := (v &&& (0x0F : UInt8)) + (v >>> (4 : UInt8)) * 10

/-- What `hal_rtc_read` makes of a register other than the one of the hour. -/
def rtcField (binary : Bool) (v : UInt8) : UInt8 := if binary then v else bcdToBin v

/-- What it makes of the one of the hour. -/
def rtcHour (binary fullDay : Bool) (v : UInt8) : UInt8 :=
  let hour := if binary then v else bcdToBin (v &&& 0x7F) ||| (v &&& 0x80)
  let hour := if ¬ fullDay ∧ hour &&& 0x80 ≠ 0 then ((hour &&& 0x7F) + 12) % 24 else hour
  hour &&& 0x7F

/-- `hal_rtc_read`. -/
def halRtcRead (cmos : Cmos) : RtcTime where
  seconds := rtcField (binaryMode cmos) (cmos 0x00)
  minutes := rtcField (binaryMode cmos) (cmos 0x02)
  hours := rtcHour (binaryMode cmos) (fullDayMode cmos) (cmos 0x04)
  day := rtcField (binaryMode cmos) (cmos 0x07)
  month := rtcField (binaryMode cmos) (cmos 0x08)
  year := 2000 + (rtcField (binaryMode cmos) (cmos 0x09)).toUInt16

/-- The days of a month of the years the clock covers; 2000 is a leap year. -/
def daysIn (year month : Nat) : Nat :=
  if month = 2 then if year % 4 = 0 then 29 else 28
  else if month = 4 ∨ month = 6 ∨ month = 9 ∨ month = 11 then 30
  else 31

/-- A time of the years 2000 to 2099. -/
structure WallClock where
  second : Nat
  minute : Nat
  hour : Nat
  day : Nat
  month : Nat
  year : Nat
  second_lt : second < 60
  minute_lt : minute < 60
  hour_lt : hour < 24
  day_valid : 1 ≤ day ∧ day ≤ daysIn year month
  month_valid : 1 ≤ month ∧ month ≤ 12
  year_valid : 2000 ≤ year ∧ year ≤ 2099

/-- The time as the fields of `struct rtc_time`. -/
def WallClock.fields (t : WallClock) : RtcTime where
  seconds := UInt8.ofNat t.second
  minutes := UInt8.ofNat t.minute
  hours := UInt8.ofNat t.hour
  day := UInt8.ofNat t.day
  month := UInt8.ofNat t.month
  year := UInt16.ofNat t.year

/-- A number below 100, in binary or as two decimal digits. -/
def encodeField (binary : Bool) (n : Nat) : UInt8 :=
  if binary then UInt8.ofNat n else UInt8.ofNat (n / 10 * 16 + n % 10)

/-- The hour: on the 12-hour clock 12, 1, .., 11 in each half of the day, with the PM flag in
the second one. -/
def encodeHour (binary fullDay : Bool) (h : Nat) : UInt8 :=
  if fullDay then encodeField binary h
  else
    encodeField binary (if h % 12 = 0 then 12 else h % 12) ||| (if 12 ≤ h then 0x80 else 0)

/-- The registers hold the time, in the mode of register B. -/
structure Holds (cmos : Cmos) (t : WallClock) : Prop where
  second : cmos 0x00 = encodeField (binaryMode cmos) t.second
  minute : cmos 0x02 = encodeField (binaryMode cmos) t.minute
  hour : cmos 0x04 = encodeHour (binaryMode cmos) (fullDayMode cmos) t.hour
  day : cmos 0x07 = encodeField (binaryMode cmos) t.day
  month : cmos 0x08 = encodeField (binaryMode cmos) t.month
  year : cmos 0x09 = encodeField (binaryMode cmos) (t.year - 2000)

/-- The time is read as it is. -/
def ReadExactly (cmos : Cmos) (t : WallClock) : Prop :=
  halRtcRead cmos = t.fields ∧ (halRtcRead cmos).hours < 24

theorem daysIn_le (year month : Nat) : daysIn year month ≤ 31 := by
  unfold daysIn
  split_ifs <;> omega

/-- A field is decoded to what was encoded. -/
theorem rtcField_encodeField (binary : Bool) {n : Nat} (hn : n < 100) :
    rtcField binary (encodeField binary n) = UInt8.ofNat n := by
  cases binary with
  | true => rfl
  | false =>
      have htable : ∀ n < 100, bcdToBin (UInt8.ofNat (n / 10 * 16 + n % 10)) = UInt8.ofNat n := by
        decide +kernel
      exact htable n hn

/-- **The hour.** -/
theorem rtcHour_exact_iff (binary fullDay : Bool) {h : Nat} (hh : h < 24) :
    rtcHour binary fullDay (encodeHour binary fullDay h) = UInt8.ofNat h ↔
      fullDay = true ∨ (h ≠ 0 ∧ h ≠ 12) := by
  have htable : ∀ binary fullDay : Bool, ∀ h < 24,
      rtcHour binary fullDay (encodeHour binary fullDay h) = UInt8.ofNat h ↔
        fullDay = true ∨ (h ≠ 0 ∧ h ≠ 12) := by decide +kernel
  exact htable binary fullDay h hh

theorem year_field {year : Nat} (hyear : 2000 ≤ year ∧ year ≤ 2099) :
    2000 + (UInt8.ofNat (year - 2000)).toUInt16 = UInt16.ofNat year := by
  rw [← UInt16.toNat_inj, UInt16.toNat_add, UInt8.toNat_toUInt16, UInt8.toNat_ofNat',
    UInt16.toNat_ofNat']
  change (2000 + (year - 2000) % 2 ^ 8) % 2 ^ 16 = year % 2 ^ 16
  omega

/-- **When the clock is read right.** -/
theorem halRtcRead_exact_iff (cmos : Cmos) (t : WallClock) (h : Holds cmos t) :
    ReadExactly cmos t ↔ fullDayMode cmos = true ∨ (t.hour ≠ 0 ∧ t.hour ≠ 12) := by
  have hday := (t.day_valid.2.trans (daysIn_le _ _))
  have hsecond := t.second_lt
  have hminute := t.minute_lt
  have hmonth := t.month_valid.2
  have hyear := t.year_valid
  have hhour := rtcHour_exact_iff (binaryMode cmos) (fullDayMode cmos) t.hour_lt
  rw [← hhour, ← h.hour]
  constructor
  · rintro ⟨hread, -⟩
    exact congrArg RtcTime.hours hread
  · intro hexact
    have hread : halRtcRead cmos = t.fields := by
      unfold halRtcRead WallClock.fields
      rw [h.second, h.minute, h.day, h.month, h.year, hexact]
      rw [rtcField_encodeField _ (by omega), rtcField_encodeField _ (by omega),
        rtcField_encodeField _ (by omega), rtcField_encodeField _ (by omega),
        rtcField_encodeField _ (by omega), year_field hyear]
    refine ⟨hread, ?_⟩
    rw [hread, WallClock.fields, UInt8.lt_iff_toNat_lt, UInt8.toNat_ofNat']
    have hlt := t.hour_lt
    change t.hour % 2 ^ 8 < 24
    omega

/-- The registers of a clock at this time, with this register B. -/
def registersAt (regB : UInt8) (t : WallClock) : Cmos := fun reg =>
  let binary := regB &&& 0x04 != 0
  if reg = 0x00 then encodeField binary t.second
  else if reg = 0x02 then encodeField binary t.minute
  else if reg = 0x04 then encodeHour binary (regB &&& 0x02 != 0) t.hour
  else if reg = 0x07 then encodeField binary t.day
  else if reg = 0x08 then encodeField binary t.month
  else if reg = 0x09 then encodeField binary (t.year - 2000)
  else if reg = 0x0B then regB
  else 0

theorem registersAt_holds (regB : UInt8) (t : WallClock) : Holds (registersAt regB t) t :=
  ⟨rfl, rfl, rfl, rfl, rfl, rfl⟩

/-- One in the afternoon of a leap day, on a 12-hour clock. -/
def leapDay : WallClock where
  second := 59
  minute := 30
  hour := 13
  day := 29
  month := 2
  year := 2028
  second_lt := by decide
  minute_lt := by decide
  hour_lt := by decide
  day_valid := by decide
  month_valid := by decide
  year_valid := by decide

theorem halRtcRead_leapDay : ReadExactly (registersAt 0x00 leapDay) leapDay :=
  (halRtcRead_exact_iff _ leapDay (registersAt_holds 0x00 leapDay)).mpr (Or.inr (by decide))

/-- The noon before it. -/
def leapDayNoon : WallClock :=
  { leapDay with
    hour := 12
    hour_lt := by decide }

/-- Noon is read as midnight. -/
theorem noon_read_as_midnight : Holds (registersAt 0x00 leapDayNoon) leapDayNoon ∧
    ¬ ReadExactly (registersAt 0x00 leapDayNoon) leapDayNoon := by
  refine ⟨registersAt_holds 0x00 leapDayNoon, fun h => ?_⟩
  have hhours : (halRtcRead (registersAt 0x00 leapDayNoon)).hours = 0 := by decide +kernel
  rw [h.1] at hhours
  exact absurd hhours (by decide)

end Vajra
