import SchemaDiagram.Text.Blank

/-!
# Timestamps

A timestamp is a moment in Coordinated Universal Time, to the nanosecond. It is written in the form
of RFC 3339 with a `Z` at the end and the fewest groups of three decimals. Reading is more lenient:
numbers may be short, blanks may stand between the parts, and an offset moves the moment to
universal time.
-/

namespace SchemaDiagram

/-! ## Dates -/

/-- Years divisible by four have a leap day, unless they end a century that four does not divide. -/
def isLeapYear (year : Int) : Bool := year % 4 == 0 && (year % 100 != 0 || year % 400 == 0)

/-- The number of days in a month. -/
def daysInMonth (year : Int) (month : Nat) : Nat :=
  if month = 2 then (if isLeapYear year then 29 else 28)
  else if month = 4 ∨ month = 6 ∨ month = 9 ∨ month = 11 then 30
  else 31

/-- Whether days of a year are told: those of the years from -262143 to 262142. -/
def isCalendarYear (year : Int) : Bool := decide (-262143 ≤ year) && decide (year ≤ 262142)

/-- A day of the calendar. -/
structure Date where
  /-- The year; the year before year 1 is year 0. -/
  year : Int
  /-- The month, counted from 1. -/
  month : Nat
  /-- The day of the month, counted from 1. -/
  day : Nat
  /-- There is such a day. -/
  exists_day : 1 ≤ month ∧ month ≤ 12 ∧ 1 ≤ day ∧ day ≤ daysInMonth year month
  deriving DecidableEq, Repr

namespace Date

/-- Every month has a day. -/
theorem one_le_daysInMonth (year : Int) (month : Nat) : 1 ≤ daysInMonth year month := by
  unfold daysInMonth
  split
  · split <;> decide
  · split <;> decide

/-- The day after. -/
def next (d : Date) : Date :=
  if h : d.day < daysInMonth d.year d.month then
    ⟨d.year, d.month, d.day + 1, d.exists_day.1, d.exists_day.2.1, by omega, h⟩
  else if h : d.month < 12 then
    ⟨d.year, d.month + 1, 1, by omega, by omega, by omega, one_le_daysInMonth _ _⟩
  else ⟨d.year + 1, 1, 1, by decide, by decide, by decide, one_le_daysInMonth _ _⟩

/-- The day before. -/
def previous (d : Date) : Date :=
  if h : 1 < d.day then
    ⟨d.year, d.month, d.day - 1, d.exists_day.1, d.exists_day.2.1, by omega,
      by have := d.exists_day.2.2.2; omega⟩
  else if h : 1 < d.month then
    ⟨d.year, d.month - 1, daysInMonth d.year (d.month - 1), by omega,
      by have := d.exists_day.2.1; omega, one_le_daysInMonth _ _, Nat.le_refl _⟩
  else ⟨d.year - 1, 12, 31, by decide, by decide, by decide, by simp [daysInMonth]⟩

end Date

/-! ## Moments -/

/-- A moment in universal time. -/
structure Timestamp where
  /-- The day. -/
  date : Date
  /-- The hour of the day. -/
  hour : Nat
  /-- The minute of the hour. -/
  minute : Nat
  /-- The second of the minute; second 60 is a leap second. -/
  second : Nat
  /-- The nanosecond of the second. -/
  nanosecond : Nat
  /-- There is such a moment of a day. -/
  exists_moment : hour < 24 ∧ minute < 60 ∧ second ≤ 60 ∧ nanosecond < 1000000000
  deriving DecidableEq, Repr

namespace Timestamp

/-- The first moment of 1970. -/
def epoch : Timestamp := ⟨⟨1970, 1, 1, by decide⟩, 0, 0, 0, 0, by decide⟩

instance : Inhabited Timestamp := ⟨epoch⟩

/-- The moment that is some nanoseconds after the first moment of 1970, leap seconds not counted. -/
def ofNanoseconds (n : Nat) : Timestamp :=
  let seconds := n / 1000000000
  ⟨Nat.repeat Date.next (seconds / 86400) epoch.date, seconds / 3600 % 24, seconds / 60 % 60,
    seconds % 60, n % 1000000000, by omega⟩

/-- The moment whose clock shows the same as `t` in a zone that is `offset` minutes ahead of
universal time; `offset` is less than a day. -/
def inZone (t : Timestamp) (offset : Int) : Timestamp :=
  let minutes := (60 * t.hour + t.minute : Nat) - offset
  let date := if minutes < 0 then t.date.previous
    else if 1440 ≤ minutes then t.date.next else t.date
  let ofDay := (minutes % 1440).toNat
  ⟨date, ofDay / 60, ofDay % 60, t.second, t.nanosecond,
    by have : ofDay < 1440 := by simp only [ofDay]; omega
       omega,
    Nat.mod_lt _ (by decide), t.exists_moment.2.2.1, t.exists_moment.2.2.2⟩

/-- In universal time itself the clock shows the moment. -/
theorem inZone_zero (t : Timestamp) : t.inZone 0 = t := by
  obtain ⟨date, hour, minute, second, nanosecond, h⟩ := t
  have hm : ((60 * hour + minute : Nat) : Int) % 1440 = ((60 * hour + minute : Nat) : Int) := by
    omega
  simp only [inZone, Int.sub_zero, hm, Int.toNat_natCast]
  rw [if_neg (by omega), if_neg (by omega)]
  congr 1 <;> omega

/-! ## Writing -/

/-- A number filled up with zeros to a width. -/
def padded (width n : Nat) : List Char :=
  let digits := Nat.toDigits 10 n
  List.replicate (width - digits.length) '0' ++ digits

/-- A year: four digits, or a sign and at least four digits outside the years 0 to 9999. -/
def yearText (year : Int) : List Char :=
  if 0 ≤ year ∧ year ≤ 9999 then padded 4 year.toNat
  else (if year < 0 then '-' else '+') :: padded 4 year.natAbs

/-- The decimals of a second: none, or the fewest groups of three that lose nothing. -/
def fractionText (nanosecond : Nat) : List Char :=
  if nanosecond = 0 then []
  else if nanosecond % 1000000 = 0 then '.' :: padded 3 (nanosecond / 1000000)
  else if nanosecond % 1000 = 0 then '.' :: padded 6 (nanosecond / 1000)
  else '.' :: padded 9 nanosecond

/-- The text of a timestamp. -/
def text (t : Timestamp) : String :=
  String.ofList (yearText t.date.year ++ '-' :: padded 2 t.date.month ++ '-' ::
    padded 2 t.date.day ++ 'T' :: padded 2 t.hour ++ ':' :: padded 2 t.minute ++ ':' ::
    padded 2 t.second ++ fractionText t.nanosecond ++ ['Z'])

/-! ## Reading -/

/-- A number of one to `width` digits, blanks before it left out, and the text behind it. -/
def number? (width : Nat) (cs : List Char) : Option (Nat × List Char) :=
  let digits := ((Text.trimStart cs).take width).takeWhile Char.isDigit
  if digits.isEmpty then none
  else some (Nat.ofDigitChars 10 digits 0, (Text.trimStart cs).drop digits.length)

/-- A year: up to four digits, or any number of digits behind a sign. -/
def year? (cs : List Char) : Option (Int × List Char) :=
  match Text.trimStart cs with
  | '-' :: rest => do
    let (n, rest) ← signed? rest
    some (-(n : Int), rest)
  | '+' :: rest => do
    let (n, rest) ← signed? rest
    some ((n : Int), rest)
  | rest => do
    let (n, rest) ← number? 4 rest
    some ((n : Int), rest)
where
  /-- The digits directly behind a sign. -/
  signed? (cs : List Char) : Option (Nat × List Char) :=
    let digits := cs.takeWhile Char.isDigit
    if digits.isEmpty then none else some (Nat.ofDigitChars 10 digits 0, cs.dropWhile Char.isDigit)

/-- A character, blanks before it left out. -/
def sign? (c : Char) (cs : List Char) : Option (List Char) :=
  match Text.trimStart cs with
  | d :: rest => if d = c then some rest else none
  | [] => none

/-- The decimals of a second, if there are any. Those after the ninth are left out. -/
def fraction? (cs : List Char) : Option (Nat × List Char) :=
  match cs with
  | '.' :: rest =>
    let digits := rest.takeWhile Char.isDigit
    if digits.isEmpty then none
    else
      let nine := (digits ++ List.replicate 9 '0').take 9
      some (Nat.ofDigitChars 10 nine 0, rest.dropWhile Char.isDigit)
  | _ => some (0, cs)

/-- Exactly two digits. -/
def twoDigits? : List Char → Option (Nat × List Char)
  | c :: d :: rest =>
    if c.isDigit && d.isDigit then some (Nat.ofDigitChars 10 [c, d] 0, rest) else none
  | _ => none

/-- An offset from universal time in minutes: `Z`, `UTC`, or a sign, hours and minutes with colons
or blanks between them. -/
def offset? (cs : List Char) : Option (Int × List Char) :=
  let signed (sign : Int) (rest : List Char) : Option (Int × List Char) := do
    let (hours, rest) ← twoDigits? rest
    let (minutes, rest) ← twoDigits? (rest.dropWhile fun c => c = ':' || Text.isBlank c)
    if hours < 24 ∧ minutes < 60 then some (sign * (60 * hours + minutes : Nat), rest) else none
  match cs with
  | 'Z' :: rest | 'z' :: rest => some (0, rest)
  | '+' :: rest => signed 1 rest
  | '-' :: rest | '\u2212' :: rest => signed (-1) rest
  | u :: t :: c :: rest =>
    if [u, t, c].map Char.toLower = ['u', 't', 'c'] then some (0, rest) else none
  | _ => none

/-- A day of a calendar year, and the text behind it. -/
def date? (cs : List Char) : Option (Date × List Char) := do
  let (year, cs) ← year? cs
  let cs ← sign? '-' cs
  let (month, cs) ← number? 2 cs
  let cs ← sign? '-' cs
  let (day, cs) ← number? 2 cs
  if h : 1 ≤ month ∧ month ≤ 12 ∧ 1 ≤ day ∧ day ≤ daysInMonth year month then
    if isCalendarYear year then some (⟨year, month, day, h⟩, cs) else none
  else none

/-- The moment that a text gives, if it gives one. Its day has to be in a calendar year as the clock
shows it and in universal time as well. -/
def ofString? (s : String) : Option Timestamp := do
  let (date, cs) ← date? s.toList
  match cs with
  | separator :: cs => do
    if separator = 'T' ∨ separator = 't' ∨ separator = ' ' then
      let (hour, cs) ← number? 2 cs
      let cs ← sign? ':' cs
      let (minute, cs) ← number? 2 cs
      let cs ← sign? ':' cs
      let (second, cs) ← number? 2 cs
      let (nanosecond, cs) ← fraction? cs
      let (offset, cs) ← offset? (Text.trimStart cs)
      if h : hour < 24 ∧ minute < 60 ∧ second ≤ 60 ∧ nanosecond < 1000000000 then
        let t := inZone ⟨date, hour, minute, second, nanosecond, h⟩ offset
        if (Text.trimStart cs).isEmpty && isCalendarYear t.date.year then some t else none
      else none
    else none
  | [] => none

end Timestamp

end SchemaDiagram
