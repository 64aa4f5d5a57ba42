import RpcClient.Toml.Number

/-!
Dates and times of TOML. A setting has no kind of its own for them: it is a table with the text of
the moment under one key.
-/
namespace RpcClient.Toml

open Scan

structure Date where
  year : Nat
  month : Nat
  day : Nat
  deriving DecidableEq, Repr, Inhabited

structure Clock where
  hour : Nat
  minute : Nat
  second : Nat
  nanosecond : Nat := 0
  deriving DecidableEq, Repr, Inhabited

/-- How far a clock is ahead of universal time. -/
inductive Offset where
  | zulu
  | minutes (value : Int)
  deriving DecidableEq, Repr, Inhabited

/-- A point in time, as far as it is given. -/
inductive Moment where
  | date (date : Date)
  | clock (clock : Clock)
  | both (date : Date) (clock : Clock) (offset : Option Offset)
  deriving DecidableEq, Repr, Inhabited

def isLeapYear (year : Nat) : Bool :=
  year % 4 == 0 && (year % 100 != 0 || year % 400 == 0)

def monthLength (year month : Nat) : Nat :=
  if month = 2 then if isLeapYear year then 29 else 28
  else if month ∈ [4, 6, 9, 11] then 30
  else 31

/-- Reads a number of `count` decimal digits from `low` to `high`. -/
def fixedNumber (count low high : Nat) : Scan Nat := do
  let n := Number.ofDigits 10 (← (List.replicate count ()).mapM fun _ => digit 10)
  guard (low ≤ n ∧ n ≤ high)
  return n

def date : Scan Date := do
  let year ← fixedNumber 4 0 9999
  skip '-'
  let month ← fixedNumber 2 1 12
  skip '-'
  let day ← fixedNumber 2 1 (monthLength year month)
  return { year, month, day }

/-- Reads a fraction of a second. Digits behind the ninth do not count. -/
def nanoseconds : Scan Nat := do
  skip '.'
  let digits := (← oneOrMore (digit 10)).take 9
  return Number.ofDigits 10 digits * Nat.pow 10 (9 - digits.length)

/-- Reads a time of the day. A minute may have a second more than sixty of them. -/
def clock : Scan Clock := do
  let hour ← fixedNumber 2 0 23
  skip ':'
  let minute ← fixedNumber 2 0 59
  skip ':'
  let second ← fixedNumber 2 0 60
  let nanosecond := (← maybe nanoseconds).getD 0
  return { hour, minute, second, nanosecond }

def offset : Scan Offset := do
  match ← one (fun c => c == 'Z' || c == 'z' || c == '+' || c == '-') with
  | '+' => return .minutes (← ahead)
  | '-' => return .minutes (-(← ahead))
  | _ => return .zulu
where
  ahead : Scan Int := do
    let hours ← fixedNumber 2 0 23
    skip ':'
    let minutes ← fixedNumber 2 0 59
    return hours * 60 + minutes

def moment : Scan Moment :=
  (do
    let date ← date
    let clock? ← maybe do
      discard (one fun c => c == 'T' || c == 't' || c == ' ')
      return (← clock, ← maybe offset)
    match clock? with
    | none => return .date date
    | some (clock, offset) => return .both date clock offset)
  <|> Moment.clock <$> clock

def padded (width n : Nat) : String :=
  let digits := Nat.toDigits 10 n
  String.ofList (List.replicate (width - digits.length) '0' ++ digits)

def Date.text (date : Date) : String :=
  s!"{padded 4 date.year}-{padded 2 date.month}-{padded 2 date.day}"

/-- The text of a time of the day, with as many digits of the fraction as it needs. -/
def Clock.text (clock : Clock) : String :=
  let fraction := (padded 9 clock.nanosecond).toList.reverse.dropWhile (· == '0')
  let places := if fraction.isEmpty then "" else "." ++ String.ofList fraction.reverse
  s!"{padded 2 clock.hour}:{padded 2 clock.minute}:{padded 2 clock.second}{places}"

def Offset.text : Offset → String
  | .zulu => "Z"
  | .minutes value =>
    let mark := if value < 0 then "-" else "+"
    s!"{mark}{padded 2 (value.natAbs / 60)}:{padded 2 (value.natAbs % 60)}"

def Moment.text : Moment → String
  | .date day => day.text
  | .clock time => time.text
  | .both day time offset =>
    let ahead := (offset.map Offset.text).getD ""
    s!"{day.text}T{time.text}{ahead}"

/-- The key that points in time have in the place of a value of their own. -/
def momentKey : String := "$__toml_private_datetime"

def Moment.setting (moment : Moment) : Setting :=
  .table [(momentKey, .text moment.text)]

end RpcClient.Toml
