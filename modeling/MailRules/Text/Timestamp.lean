import MailRules.Decimal

/-!
Points in time, as seconds since the start of 1970, written as date and time in coordinated
universal time. Fractions of a second are written as six digits, if there are any.
-/

namespace MailRules.Text

/-- A point in time: seconds since the start of 1970, and microseconds. -/
structure Timestamp where
  seconds : Int
  micros : Nat

namespace Timestamp

/-- A point in time after all that have a text. -/
def afterAll : Timestamp := ⟨253402300800, 0⟩

/-- The point in time that a finite double stands for. The fraction of a second is rounded to
microseconds, a half to the even number. -/
def ofFinite (x : Float) : Timestamp :=
  let whole := if x < 0 then x.ceil else x.floor
  let micros := Decimal.roundedHalfEven ((x - whole) * 1e6)
  let seconds := (Decimal.whole? whole).getD 0
  if 1000000 ≤ micros then ⟨seconds + 1, (micros - 1000000).toNat⟩
  else if micros < 0 then ⟨seconds - 1, (micros + 1000000).toNat⟩
  else ⟨seconds, micros.toNat⟩

/-- The point in time that a double stands for; one without a text, if the double is not finite. -/
def ofDouble (x : Float) : Timestamp := if x.isFinite then ofFinite x else afterAll

/-- The year, month and day that lie a number of days after the start of 1970. Years are counted
from March, so that the day added in a leap year is the last one, in eras of four hundred years. -/
def date (days : Int) : Int × Nat × Nat :=
  let shifted := days + 719468
  let era := Int.fdiv shifted 146097
  let dayOfEra := (shifted - era * 146097).toNat
  let yearOfEra := (dayOfEra - dayOfEra / 1460 + dayOfEra / 36524 - dayOfEra / 146096) / 365
  let dayOfYear := dayOfEra - (365 * yearOfEra + yearOfEra / 4 - yearOfEra / 100)
  let shiftedMonth := (5 * dayOfYear + 2) / 153
  let day := dayOfYear - (153 * shiftedMonth + 2) / 5 + 1
  let month := if shiftedMonth < 10 then shiftedMonth + 3 else shiftedMonth - 9
  let year := era * 400 + yearOfEra + (if month ≤ 2 then 1 else 0)
  (year, month, day)

def digits (width n : Nat) : String := String.ofList (Decimal.padded width (Decimal.digitsOf n))

/-- The point in time as text, if its year has four digits. -/
def text? (t : Timestamp) : Option String :=
  let days := Int.fdiv t.seconds 86400
  let second := (t.seconds - days * 86400).toNat
  let (year, month, day) := date days
  if year < 1 ∨ 9999 < year then none
  else
    let fraction := if t.micros = 0 then "" else "." ++ digits 6 t.micros
    some (digits 4 year.toNat ++ "-" ++ digits 2 month ++ "-" ++ digits 2 day ++ "T"
      ++ digits 2 (second / 3600) ++ ":" ++ digits 2 (second / 60 % 60) ++ ":"
      ++ digits 2 (second % 60) ++ fraction ++ "+00:00")

end Timestamp

end MailRules.Text
