/-!
# Moments

A moment in time as reports show it: date and time of day in universal time, to the nanosecond.
-/

namespace CryptoAudit.Moment

/-- The decimal digits of a number, filled up with zeros. -/
def padded (width n : Nat) : String :=
  let digits := toString n
  String.ofList (List.replicate (width - digits.length) '0') ++ digits

/-- Year, month and day of the given day after 1 January 1970. Years are counted from March here, so
that the leap day is the last day of its year. -/
def date (day : Nat) : Nat × Nat × Nat :=
  let d := day + 719468
  let era := d / 146097
  let dayOfEra := d % 146097
  let yearOfEra := (dayOfEra - dayOfEra / 1460 + dayOfEra / 36524 - dayOfEra / 146096) / 365
  let dayOfYear := dayOfEra - (365 * yearOfEra + yearOfEra / 4 - yearOfEra / 100)
  let shifted := (5 * dayOfYear + 2) / 153
  let month := if shifted < 10 then shifted + 3 else shifted - 9
  let year := 400 * era + yearOfEra + (if month ≤ 2 then 1 else 0)
  (year, month, dayOfYear - (153 * shifted + 2) / 5 + 1)

/-- The moment so many seconds and nanoseconds after the start of 1970. -/
def text (seconds nanoseconds : Nat) : String :=
  let (year, month, day) := date (seconds / 86400)
  let time := seconds % 86400
  padded 4 year ++ "-" ++ padded 2 month ++ "-" ++ padded 2 day ++ "T" ++
    padded 2 (time / 3600) ++ ":" ++ padded 2 (time / 60 % 60) ++ ":" ++ padded 2 (time % 60) ++
    "." ++ padded 9 nanoseconds ++ "+00:00"

end CryptoAudit.Moment
