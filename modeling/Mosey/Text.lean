import Mosey.Bytes

/-!
# Quoted strings and RFC 3339 timestamps

The parts of Go's `fmt` and `time` packages that the source's texts are made with. Dates are on the
proleptic Gregorian calendar; a year of 400 is split off so that the remaining day number is
nonnegative, and years are counted from March so that the leap day comes last.
-/

namespace Mosey

/-- Decimal digits, padded with zeros to at least `width` of them. -/
def appendInt (value : ℕ) (width : ℕ) : String :=
  let digits := Nat.toDigits 10 value
  String.ofList (List.replicate (width - digits.length) '0' ++ digits)

/-- One character of a string under `%q`. Characters beyond ASCII are taken as printable. -/
def quoteChar (char : Char) : String :=
  if char = '"' then "\\\""
  else if char = '\\' then "\\\\"
  else if char.toNat = 7 then "\\a"
  else if char.toNat = 8 then "\\b"
  else if char.toNat = 12 then "\\f"
  else if char = '\n' then "\\n"
  else if char = '\r' then "\\r"
  else if char = '\t' then "\\t"
  else if char.toNat = 11 then "\\v"
  else if char.toNat < 32 ∨ char.toNat = 127 then
    let digits := Nat.toDigits 16 char.toNat
    "\\x" ++ String.ofList (List.replicate (2 - digits.length) '0' ++ digits)
  else String.singleton char

/-- `%q` of a string. -/
def goQuote (text : String) : String :=
  "\"" ++ String.join (text.toList.map quoteChar) ++ "\""

/-- `%q` of a character. -/
def goQuoteRune (char : Char) : String :=
  if char = '\'' then "'\\''"
  else if char = '"' then "'\"'"
  else "'" ++ quoteChar char ++ "'"

structure Date where
  year : ℤ
  month : ℕ
  day : ℕ
  deriving DecidableEq, Repr

def isLeap (year : ℤ) : Bool := year % 4 = 0 ∧ (year % 100 ≠ 0 ∨ year % 400 = 0)

def daysIn (month : ℕ) (year : ℤ) : ℕ :=
  match month with
  | 2 => if isLeap year then 29 else 28
  | 4 | 6 | 9 | 11 => 30
  | _ => 31

/-- Days since the Unix epoch of a date. -/
def daysOfDate (date : Date) : ℤ :=
  let year := if date.month ≤ 2 then date.year - 1 else date.year
  let era := year / 400
  let yearOfEra := year - era * 400
  let monthFromMarch : ℤ := (date.month + 9) % 12
  let dayOfYear := (153 * monthFromMarch + 2) / 5 + date.day - 1
  era * 146097 + (yearOfEra * 365 + yearOfEra / 4 - yearOfEra / 100 + dayOfYear) - 719468

/-- The date of a number of days since the Unix epoch. -/
def dateOfDays (days : ℤ) : Date :=
  let shifted := days + 719468
  let era := shifted / 146097
  let dayOfEra := shifted - era * 146097
  let yearOfEra := (dayOfEra - dayOfEra / 1460 + dayOfEra / 36524 - dayOfEra / 146096) / 365
  let dayOfYear := dayOfEra - (365 * yearOfEra + yearOfEra / 4 - yearOfEra / 100)
  let monthFromMarch := (5 * dayOfYear + 2) / 153
  let day := dayOfYear - (153 * monthFromMarch + 2) / 5 + 1
  let month := if monthFromMarch < 10 then monthFromMarch + 3 else monthFromMarch - 9
  let year := yearOfEra + era * 400
  ⟨if month ≤ 2 then year + 1 else year, month.toNat, day.toNat⟩

/-- `Format(time.RFC3339)` of an instant in UTC. -/
def formatRFC3339 (instant : Time) : String :=
  let seconds := instant.unix
  let date := dateOfDays (seconds / 86400)
  let clock := (seconds % 86400).toNat
  let sign := if date.year < 0 then "-" else ""
  sign ++ appendInt date.year.natAbs 4 ++ "-" ++ appendInt date.month 2 ++ "-" ++
    appendInt date.day 2 ++ "T" ++ appendInt (clock / 3600) 2 ++ ":" ++
    appendInt (clock / 60 % 60) 2 ++ ":" ++ appendInt (clock % 60) 2 ++ "Z"

def digitValue (byte : UInt8) : Option ℕ :=
  if 48 ≤ byte.toNat ∧ byte.toNat ≤ 57 then some (byte.toNat - 48) else none

/-- The number that decimal digits spell. -/
def digitsValue (digits : Bytes) : Option ℕ :=
  digits.foldlM (fun value byte ↦ (digitValue byte).map (value * 10 + ·)) 0

/-- The instants in UTC and with whole seconds among what `time.Parse(time.RFC3339, ·)` accepts. -/
def parseRFC3339 (text : Bytes) : Option Time := do
  guard (text.length = 20)
  guard (text[4]? = some 45 ∧ text[7]? = some 45 ∧ text[10]? = some 84 ∧ text[13]? = some 58 ∧
    text[16]? = some 58 ∧ text[19]? = some 90)
  let year ← digitsValue (text.take 4)
  let month ← digitsValue ((text.drop 5).take 2)
  let day ← digitsValue ((text.drop 8).take 2)
  let hour ← digitsValue ((text.drop 11).take 2)
  let minute ← digitsValue ((text.drop 14).take 2)
  let second ← digitsValue ((text.drop 17).take 2)
  guard (1 ≤ month ∧ month ≤ 12 ∧ 1 ≤ day ∧ day ≤ daysIn month year)
  guard (hour < 24 ∧ minute < 60 ∧ second < 60)
  return (daysOfDate ⟨year, month, day⟩ * 86400 + hour * 3600 + minute * 60 + second) * nanosPerSecond

example : formatRFC3339 (951827696 * nanosPerSecond) = "2000-02-29T12:34:56Z" := by decide

example : parseRFC3339 (ascii "2000-02-29T12:34:56Z") = some (951827696 * nanosPerSecond) := by decide

end Mosey
