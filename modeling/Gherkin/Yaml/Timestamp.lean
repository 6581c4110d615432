import Gherkin.Yaml.Character
import Gherkin.Yaml.Fault

/-!
# Timestamps

A scalar that spells a date, or a date and a time of day, stands for that date or moment.
-/

namespace Gherkin.Yaml

/-- A day of the calendar. -/
structure Date where
  year : Nat
  month : Nat
  day : Nat
  deriving DecidableEq, Repr

/-- A time of a day. -/
structure Moment where
  date : Date
  hour : Nat
  minute : Nat
  second : Nat
  microsecond : Nat
  /-- The distance to universal time in minutes, if known. -/
  offset : Option Int
  deriving DecidableEq, Repr

/-- A date, or a date with a time. -/
inductive Timestamp where
  | date (date : Date)
  | moment (moment : Moment)
  deriving DecidableEq, Repr

namespace Timestamp

/-! ## Reading -/

/-- The number with `least` to `most` digits at the front of a text, and the text after it. -/
def number (least most : Nat) (t : Text) : Option (Nat × Text) :=
  let digits := (t.take most).takeWhile Char.isDigit
  if least ≤ digits.length then
    some (digits.foldl (fun n c => 10 * n + (c.toNat - 0x30)) 0, t.drop digits.length)
  else none

/-- A number followed by the given character. -/
def numberBefore (least most : Nat) (c : Char) (t : Text) : Option (Nat × Text) :=
  match number least most t with
  | some (n, d :: rest) => if d = c then some (n, rest) else none
  | _ => none

/-- The text after the separator of date and time. -/
def afterSeparator : Text → Option Text
  | [] => none
  | c :: rest =>
    if c = 'T' ∨ c = 't' then some rest
    else if isSpace c then some (rest.dropWhile isSpace)
    else none

/-- The zone that a whole text spells, in minutes: a letter or a signed number of hours, with or
without minutes. The empty text spells none. -/
def zone (t : Text) : Option (Option Int) :=
  if t.isEmpty then some none
  else
    match t.dropWhile isSpace with
    | ['Z'] => some (some 0)
    | sign :: rest =>
      if sign = '+' ∨ sign = '-' then
        let minutes : Option Nat := match number 1 2 rest with
          | some (hours, []) => some (60 * hours)
          | some (hours, ':' :: more) =>
            match number 2 2 more with
            | some (minutes, []) => some (60 * hours + minutes)
            | _ => none
          | _ => none
        minutes.map fun (n : Nat) => some (if sign = '-' then -(n : Int) else n)
      else none
    | [] => none

/-- The millionths that the digits of a fraction give, six of them at most. -/
def microseconds (digits : Text) : Nat :=
  let six := (digits ++ List.replicate 6 '0').take 6
  six.foldl (fun n c => 10 * n + (c.toNat - 0x30)) 0

/-- The time that a whole text spells on the given day. -/
def clock (date : Date) (t : Text) : Option Moment :=
  match numberBefore 1 2 ':' t with
  | none => none
  | some (hour, t) =>
    match numberBefore 2 2 ':' t with
    | none => none
    | some (minute, t) =>
      match number 2 2 t with
      | none => none
      | some (second, t) =>
        let (fraction, after) := match t with
          | '.' :: rest => (rest.takeWhile Char.isDigit, rest.dropWhile Char.isDigit)
          | _ => ([], t)
        (zone after).map fun offset => ⟨date, hour, minute, second, microseconds fraction, offset⟩

/-- The date or moment that a whole text spells, whether or not the calendar has it, and whether
month and day have two digits each. -/
def spelled (t : Text) : Option (Timestamp × Bool) :=
  match numberBefore 4 4 '-' t with
  | none => none
  | some (year, t) =>
    match numberBefore 1 2 '-' t with
    | none => none
    | some (month, u) =>
      match number 1 2 u with
      | none => none
      | some (day, v) =>
        let date : Date := ⟨year, month, day⟩
        if v.isEmpty then some (.date date, t.length - u.length = 3 ∧ u.length = 2)
        else ((afterSeparator v).bind (clock date)).map fun moment => (.moment moment, true)

/-- The text is read as a timestamp: a date alone needs two digits for month and day. -/
def isSpelled (t : Text) : Bool :=
  match spelled t with
  | some (_, wide) => wide
  | none => false

/-! ## The calendar -/

/-- The number of days of a month. -/
def daysIn (year month : Nat) : Nat :=
  if month = 2 then
    if year % 4 = 0 ∧ (year % 100 ≠ 0 ∨ year % 400 = 0) then 29 else 28
  else if month = 4 ∨ month = 6 ∨ month = 9 ∨ month = 11 then 30
  else 31

/-- The calendar has the day. -/
def Date.isValid (d : Date) : Bool :=
  1 ≤ d.year && 1 ≤ d.month && d.month ≤ 12 && 1 ≤ d.day && d.day ≤ daysIn d.year d.month

/-- The day has the time, and no zone is a whole day away. -/
def Moment.isValid (m : Moment) : Bool :=
  Date.isValid m.date && m.hour < 24 && m.minute < 60 && m.second < 60 &&
    match m.offset with
    | none => true
    | some minutes => minutes.natAbs < 24 * 60

/-- The calendar has the date or moment. -/
def isValid : Timestamp → Bool
  | .date d => Date.isValid d
  | .moment m => Moment.isValid m

/-- The timestamp that a text stands for. One newline at the end makes no difference. -/
def ofText (t : Text) : Except Fault Timestamp :=
  match spelled (withoutFinalBreak t) with
  | none => .error .notTimestamp
  | some (stamp, _) => if stamp.isValid then .ok stamp else .error .noSuchTime

/-- The number of days from the beginning of the calendar to a date. -/
def dayNumber (d : Date) : Nat :=
  let years := d.year - 1
  let before := (List.range (d.month - 1)).foldr (fun m days => daysIn d.year (m + 1) + days) 0
  365 * years + years / 4 - years / 100 + years / 400 + before + d.day

/-- The number of microseconds up to a moment, in universal time if its offset is known. -/
def instant (m : Moment) : Int :=
  let minutes : Int := (dayNumber m.date * 24 + m.hour) * 60 + m.minute - m.offset.getD 0
  (minutes * 60 + m.second) * 1000000 + m.microsecond

/-- Two timestamps are the same as keys: moments with a known offset by their instant. -/
def same : Timestamp → Timestamp → Bool
  | .date a, .date b => a == b
  | .moment a, .moment b => a.offset.isSome == b.offset.isSome && instant a == instant b
  | _, _ => false

/-! ## Writing -/

/-- A number with zeros in front up to the given width. -/
def digits (width n : Nat) : Text :=
  let plain := Nat.toDigits 10 n
  List.replicate (width - plain.length) '0' ++ plain

/-- A date as it is shown. -/
def renderDate (d : Date) : Text :=
  digits 4 d.year ++ '-' :: digits 2 d.month ++ '-' :: digits 2 d.day

/-- An offset as it is shown. -/
def renderOffset (minutes : Int) : Text :=
  (if minutes < 0 then '-' else '+') ::
    (digits 2 (minutes.natAbs / 60) ++ ':' :: digits 2 (minutes.natAbs % 60))

/-- A timestamp as it is shown. -/
def render : Timestamp → Text
  | .date d => renderDate d
  | .moment m =>
    renderDate m.date ++ ' ' :: digits 2 m.hour ++ ':' :: digits 2 m.minute ++ ':' ::
      digits 2 m.second ++
      (if m.microsecond = 0 then [] else '.' :: digits 6 m.microsecond) ++
      (match m.offset with
        | none => []
        | some minutes => renderOffset minutes)

end Timestamp

end Gherkin.Yaml
