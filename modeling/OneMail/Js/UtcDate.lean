import OneMail.Js.JsString

/-! UTC dates as JavaScript writes them.

    A clock is a number of milliseconds since 1970, negative before it, and a date is the first ten code
    units of `toISOString()`. Dates are compared as texts. -/

namespace OneMail

def dayMs : ℤ := 86400000

/-- The decimal digits of `n`, padded with zeros. -/
def padded (width n : ℕ) : JsString :=
  ((Nat.toDigits 10 n).map fun c => c.val.toUInt16).leftpad width 0x30

/-- The civil date of a day number, in the proleptic Gregorian calendar. -/
def civilDate (day : ℤ) : ℤ × ℕ × ℕ :=
  let z := day + 719468
  let era := z / 146097
  let dayOfEra := (z % 146097).toNat
  let yearOfEra := (dayOfEra - dayOfEra / 1460 + dayOfEra / 36524 - dayOfEra / 146096) / 365
  let dayOfYear := dayOfEra - (365 * yearOfEra + yearOfEra / 4 - yearOfEra / 100)
  let marchMonth := (5 * dayOfYear + 2) / 153
  let month := if marchMonth < 10 then marchMonth + 3 else marchMonth - 9
  (yearOfEra + era * 400 + (if month ≤ 2 then 1 else 0), month,
    dayOfYear - (153 * marchMonth + 2) / 5 + 1)

/-- `new Date(ms).toISOString().slice(0, 10)`: years outside 0 to 9999 have a sign and six digits. -/
def utcDateOf (ms : ℤ) : JsString :=
  let (year, month, date) := civilDate (ms / dayMs)
  let text := if 0 ≤ year ∧ year ≤ 9999 then padded 4 year.toNat
    else js (if year < 0 then "-" else "+") ++ padded 6 year.natAbs
  (text ++ js "-" ++ padded 2 month ++ js "-" ++ padded 2 date).take 10

def daysInMonth (year month : ℕ) : ℕ :=
  if month = 2 then if year % 4 = 0 ∧ (year % 100 ≠ 0 ∨ year % 400 = 0) then 29 else 28
  else if month = 4 ∨ month = 6 ∨ month = 9 ∨ month = 11 then 30
  else 31

/-- The number that a run of digits writes. -/
def decimal (digits : JsString) : ℕ := digits.foldl (fun n c => 10 * n + (c - 0x30).toNat) 0

/-- `/^\d{4}-\d{2}-\d{2}$/`, and the day is a day of the calendar. -/
def validUtcDate (value : JsString) : Bool :=
  let year := value.take 4
  let month := (value.drop 5).take 2
  let date := value.drop 8
  value.length = 10 && (year ++ month ++ date).all (fun c => 0x30 ≤ c && c ≤ 0x39) &&
    (value.drop 4).take 1 = js "-" && (value.drop 7).take 1 = js "-" &&
    1 ≤ decimal month && decimal month ≤ 12 &&
    1 ≤ decimal date && decimal date ≤ daysInMonth (decimal year) (decimal month)

example : utcDateOf 1791504000000 = js "2026-10-09" ∧ validUtcDate (js "2026-02-29") = false := by
  decide +kernel

end OneMail
