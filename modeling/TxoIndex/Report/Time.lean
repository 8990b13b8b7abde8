import TxoIndex.Decimal.Digits

/-!
# Points in time

Times are counted in seconds from the start of 1970 and shown as a date and a time of day. Dates
follow the calendar in which every fourth year is a leap year, except those that end a century, of
which only every fourth one is.
-/

namespace TxoIndex.Report

structure Date where
  year : Nat
  month : Nat
  day : Nat
  deriving DecidableEq, Repr

/-- The date a number of days after the start of 1970. Years are taken to begin in March, so that
leap days end them, and to repeat after four hundred. -/
def Date.ofDays (days : Nat) : Date :=
  let sinceMarch := days + 719468
  let day := sinceMarch % 146097
  let yearOfPeriod := (day - day / 1460 + day / 36524 - day / 146096) / 365
  let dayOfYear := day - (365 * yearOfPeriod + yearOfPeriod / 4 - yearOfPeriod / 100)
  let monthFromMarch := (5 * dayOfYear + 2) / 153
  let month := if monthFromMarch < 10 then monthFromMarch + 3 else monthFromMarch - 9
  { year := sinceMarch / 146097 * 400 + yearOfPeriod + (if month ≤ 2 then 1 else 0)
    month
    day := dayOfYear - (153 * monthFromMarch + 2) / 5 + 1 }

def timeText (seconds : Nat) : String :=
  let date := Date.ofDays (seconds / 86400)
  let two (n : Nat) := Decimal.padded 2 n
  let second := seconds % 86400
  let clock := s!"{two (second / 3600)}:{two (second / 60 % 60)}:{two (second % 60)}"
  s!"{Decimal.padded 4 date.year}-{two date.month}-{two date.day} {clock} UTC"

end TxoIndex.Report
