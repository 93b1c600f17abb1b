import ChunkedFile.Text.Numeral
import ChunkedFile.Text.Trim

/-!
# Instants

An instant of universal time, kept as its calendar date and time of day. A text such as
`2024-02-29T23:59:59.5+05:30` is read by moving the local time by whole minutes; a text with offset
zero is read field by field. Instants are written with the fewest of 0, 3, 6 or 9 fraction digits
that are exact. In a leap second the fraction counts on past the last second of its minute.
-/

namespace ChunkedFile

/-- The number of days in a month. -/
def daysInMonth (year : Int) (month : Nat) : Nat :=
  if month = 2 then
    if year % 4 = 0 ∧ (year % 100 ≠ 0 ∨ year % 400 = 0) then 29 else 28
  else if month = 4 ∨ month = 6 ∨ month = 9 ∨ month = 11 then 30
  else 31

/-- An instant of universal time. -/
structure Instant where
  year : Int
  month : Nat
  day : Nat
  hour : Nat
  minute : Nat
  second : Nat
  /-- Billionths of a second; at least a whole second only within a leap second. -/
  nano : Nat
  year_ge : -262143 ≤ year
  year_le : year ≤ 262142
  month_pos : 1 ≤ month
  month_le : month ≤ 12
  day_pos : 1 ≤ day
  day_le : day ≤ daysInMonth year month
  hour_lt : hour < 24
  minute_lt : minute < 60
  second_lt : second < 60
  nano_lt : nano < 2000000000
  leap : 1000000000 ≤ nano → second = 59
  deriving DecidableEq, Repr

namespace Instant

/-- The instant of the given fields, where they make one. -/
def ofFields? (year : Int) (month day hour minute second nano : Nat) : Option Instant :=
  if h : (-262143 ≤ year ∧ year ≤ 262142 ∧ 1 ≤ month ∧ month ≤ 12) ∧
      (1 ≤ day ∧ day ≤ daysInMonth year month ∧ hour < 24 ∧ minute < 60) ∧
      (second < 60 ∧ nano < 2000000000 ∧ (1000000000 ≤ nano → second = 59)) then
    some ⟨year, month, day, hour, minute, second, nano, h.1.1, h.1.2.1, h.1.2.2.1, h.1.2.2.2,
      h.2.1.1, h.2.1.2.1, h.2.1.2.2.1, h.2.1.2.2.2, h.2.2.1, h.2.2.2.1, h.2.2.2.2⟩
  else none

/-- A number that orders instants in time. -/
def rank (t : Instant) : Int :=
  (((((t.year * 13 + t.month) * 32 + t.day) * 24 + t.hour) * 60 + t.minute) * 60 + t.second) *
    2000000000 + t.nano

/-- The later of two instants. -/
def latest (a b : Instant) : Instant := if a.rank ≤ b.rank then b else a

/-- The earlier of two instants. -/
def earliest (a b : Instant) : Instant := if a.rank ≤ b.rank then a else b

/-- The year in four digits, with a sign where that does not suffice. -/
def yearText (year : Int) : String :=
  if 0 ≤ year ∧ year ≤ 9999 then Text.padded 4 year.toNat
  else (if year < 0 then "-" else "+") ++ Text.padded 4 year.natAbs

/-- A fraction of a second in the fewest groups of three digits that are exact. -/
def fractionText (nano : Nat) : String :=
  if nano = 0 then ""
  else if nano % 1000000 = 0 then "." ++ Text.padded 3 (nano / 1000000)
  else if nano % 1000 = 0 then "." ++ Text.padded 6 (nano / 1000)
  else "." ++ Text.padded 9 nano

/-- The text of an instant around a given writing of the fraction. -/
def renderWith (fraction : Nat → String) (t : Instant) : String :=
  let (second, nano) :=
    if t.nano < 1000000000 then (t.second, t.nano) else (t.second + 1, t.nano - 1000000000)
  yearText t.year ++ "-" ++ Text.padded 2 t.month ++ "-" ++ Text.padded 2 t.day ++ "T" ++
    Text.padded 2 t.hour ++ ":" ++ Text.padded 2 t.minute ++ ":" ++ Text.padded 2 second ++
    fraction nano ++ "Z"

/-- The text of an instant. -/
def render (t : Instant) : String := t.renderWith fractionText

/-- The text of an instant with all nine fraction digits. -/
def renderNanos (t : Instant) : String := t.renderWith fun nano => "." ++ Text.padded 9 nano

/-- Reads up to `most` decimal digits onto `value`, with the number of digits read. -/
def takeDigits (most value count : Nat) : List Char → Nat × Nat × List Char
  | [] => (value, count, [])
  | c :: cs =>
    match most with
    | 0 => (value, count, c :: cs)
    | most + 1 =>
      if c.isDigit then takeDigits most (10 * value + (c.toNat - 48)) (count + 1) cs
      else (value, count, c :: cs)

/-- A number of one to `most` digits after any blanks. -/
def number? (most : Nat) (cs : List Char) : Option (Nat × List Char) :=
  match takeDigits most 0 0 (cs.dropWhile Text.isBlank) with
  | (_, 0, _) => none
  | (value, _, rest) => some (value, rest)

/-- A character after any blanks. -/
def literal? (c : Char) (cs : List Char) : Option (List Char) :=
  match cs.dropWhile Text.isBlank with
  | d :: rest => if d = c then some rest else none
  | [] => none

/-- A year: up to four digits, or any number of them after a sign. -/
def year? (cs : List Char) : Option (Int × List Char) :=
  match cs.dropWhile Text.isBlank with
  | '-' :: rest => (signed rest).map fun (y, rest) => (-(y : Int), rest)
  | '+' :: rest => (signed rest).map fun (y, rest) => ((y : Int), rest)
  | cs => (number? 4 cs).map fun (y, rest) => ((y : Int), rest)
where
  signed (rest : List Char) : Option (Nat × List Char) :=
    match takeDigits rest.length 0 0 rest with
    | (_, 0, _) => none
    | (value, _, rest) => some (value, rest)

/-- A fraction of a second in billionths; digits past the ninth are dropped. -/
def fraction? (cs : List Char) : Option (Nat × List Char) :=
  match cs with
  | '.' :: rest =>
    match takeDigits 9 0 0 rest with
    | (_, 0, _) => none
    | (value, count, rest) => some (value * Nat.pow 10 (9 - count), rest.dropWhile Char.isDigit)
  | cs => some (0, cs)

/-- Two digits, the first below `bound`. -/
def twoDigits? (bound : Nat) (cs : List Char) : Option (Nat × List Char) :=
  match cs with
  | c :: d :: rest =>
    if c.isDigit ∧ d.isDigit ∧ c.toNat - 48 < bound then
      some (10 * (c.toNat - 48) + (d.toNat - 48), rest)
    else none
  | _ => none

/-- The offset from universal time in minutes. -/
def offset? (cs : List Char) : Option (Int × List Char) :=
  match cs with
  | [] => none
  | c :: rest =>
    if c = 'Z' ∨ c = 'z' then some (0, rest)
    else
      match c, rest with
      | c, t :: z :: rest' =>
        if c.toLower = 'u' ∧ t.toLower = 't' ∧ z.toLower = 'c' then some (0, rest')
        else signed c rest
      | c, rest => signed c rest
where
  signed (sign : Char) (rest : List Char) : Option (Int × List Char) := do
    guard (sign = '+' ∨ sign = '-' ∨ sign = '\u2212')
    let (hours, rest) ← twoDigits? 10 rest
    let (minutes, rest) ← twoDigits? 6 (rest.dropWhile fun c => c == ':' || Text.isBlank c)
    let minutes : Int := 60 * hours + minutes
    return (if sign = '+' then minutes else -minutes, rest)

/-- The day after a date. -/
def nextDay (year : Int) (month day : Nat) : Int × Nat × Nat :=
  if day < daysInMonth year month then (year, month, day + 1)
  else if month < 12 then (year, month + 1, 1)
  else (year + 1, 1, 1)

/-- The day before a date. -/
def previousDay (year : Int) (month day : Nat) : Int × Nat × Nat :=
  if 1 < day then (year, month, day - 1)
  else if 1 < month then (year, month - 1, daysInMonth year (month - 1))
  else (year - 1, 12, 31)

/-- The instant so many minutes, less than a day, before the given local time. -/
def minus? (t : Instant) (minutes : Int) : Option Instant :=
  let time : Int := 60 * t.hour + t.minute - minutes
  let (year, month, day) :=
    if time < 0 then previousDay t.year t.month t.day
    else if 1440 ≤ time then nextDay t.year t.month t.day
    else (t.year, t.month, t.day)
  let time := (time % 1440).toNat
  ofFields? year month day (time / 60) (time % 60) t.second t.nano

/-- Reads an instant from a date, a time of day and an offset. Blanks may stand between the parts,
and a blank may stand for the `T`. -/
def parse? (text : String) : Option Instant := do
  let (year, rest) ← year? text.toList
  let rest ← literal? '-' rest
  let (month, rest) ← number? 2 rest
  let rest ← literal? '-' rest
  let (day, rest) ← number? 2 rest
  let rest ← match rest with
    | c :: rest => if c = 'T' ∨ c = 't' ∨ c = ' ' then some rest else none
    | [] => none
  let (hour, rest) ← number? 2 rest
  let rest ← literal? ':' rest
  let (minute, rest) ← number? 2 rest
  let rest ← literal? ':' rest
  let (second, rest) ← number? 2 rest
  let (nano, rest) ← fraction? rest
  let (offset, rest) ← offset? (rest.dropWhile Text.isBlank)
  guard (rest.all Text.isBlank ∧ -1440 < offset ∧ offset < 1440)
  let (second, nano) := if second = 60 then (59, nano + 1000000000) else (second, nano)
  let t ← ofFields? year month day hour minute second nano
  if offset = 0 then some t else t.minus? offset

end Instant

end ChunkedFile
