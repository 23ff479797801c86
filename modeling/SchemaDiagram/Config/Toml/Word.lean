import SchemaDiagram.Config.Toml.Quoted
import SchemaDiagram.Config.Toml.Value
import SchemaDiagram.Timestamp

/-!
# TOML words

Values without quotes and brackets are words: numbers, truth values, dates and times. The only blank
inside one is the space that may stand between a date and a time.
-/

namespace SchemaDiagram.Toml

/-! ## Numbers -/

/-- Digits in which single underscores may stand between two digits. -/
def digits? (isDigit : Char → Bool) : List Char → Option (List Char)
  | [c] => if isDigit c then some [c] else none
  | c :: '_' :: cs => if isDigit c then (digits? isDigit cs).map (c :: ·) else none
  | c :: cs => if isDigit c then (digits? isDigit cs).map (c :: ·) else none
  | [] => none

/-- The digits of a decimal integer: no zero stands in front of other digits. -/
def decimalDigits? (cs : List Char) : Option (List Char) :=
  match digits? Char.isDigit cs with
  | some ('0' :: _ :: _) => none
  | other => other

/-- The number that digits of a base spell. -/
def natOfDigits (base : Nat) (cs : List Char) : Nat :=
  cs.foldl (fun n c => base * n + hexValue c) 0

/-- An integer that fits into 64 bits. -/
def fitting? (n : Int) : Option Int :=
  if -9223372036854775808 ≤ n ∧ n ≤ 9223372036854775807 then some n else none

/-- The integer that a word spells. -/
def integer? : List Char → Option Int
  | '0' :: 'x' :: cs => (digits? Text.isHexDigit cs).bind fun ds => fitting? (natOfDigits 16 ds)
  | '0' :: 'o' :: cs => (digits? (fun c => '0' ≤ c && c ≤ '7') cs).bind fun ds =>
      fitting? (natOfDigits 8 ds)
  | '0' :: 'b' :: cs => (digits? (fun c => c == '0' || c == '1') cs).bind fun ds =>
      fitting? (natOfDigits 2 ds)
  | '+' :: cs => (decimalDigits? cs).bind fun ds => fitting? (natOfDigits 10 ds)
  | '-' :: cs => (decimalDigits? cs).bind fun ds => fitting? (-(natOfDigits 10 ds : Int))
  | cs => (decimalDigits? cs).bind fun ds => fitting? (natOfDigits 10 ds)

/-- The digits of an exponent, with an optional sign. -/
def exponentDigits? : List Char → Option (List Char)
  | '+' :: cs => digits? Char.isDigit cs
  | '-' :: cs => (digits? Char.isDigit cs).map ('-' :: ·)
  | cs => digits? Char.isDigit cs

/-- A float without its sign, with the underscores taken out: a decimal integer with a fraction, an
exponent or both. -/
def unsignedFloat? (cs : List Char) : Option (List Char) := do
  let isMark (c : Char) : Bool := c == 'e' || c == 'E'
  let mantissa := cs.takeWhile (!isMark ·)
  let exponent ← match cs.dropWhile (!isMark ·) with
    | [] => some []
    | _ :: cs => (exponentDigits? cs).map ('e' :: ·)
  let whole ← decimalDigits? (mantissa.takeWhile (· ≠ '.'))
  match mantissa.dropWhile (· ≠ '.'), exponent with
  | [], [] => none
  | [], exponent => return whole ++ exponent
  | _ :: fraction, exponent => return whole ++ '.' :: (← digits? Char.isDigit fraction) ++ exponent

/-- The float that a word spells. One that is too great for the format is refused. -/
def float? (word : List Char) : Option Number :=
  let (negative, cs) := match word with
    | '-' :: cs => (true, cs)
    | '+' :: cs => (false, cs)
    | cs => (false, cs)
  if cs = "inf".toList then some (.infinite negative)
  else if cs = "nan".toList then some .nan
  else do
    let x ← Number.ofUnsigned? negative (← unsignedFloat? cs)
    if x = .infinite false then none else some x

/-! ## Dates and times -/

/-- Two digits that spell a number up to a bound, and the text behind them. -/
def twoDigits? (greatest : Nat) : List Char → Option (Nat × List Char)
  | c :: d :: cs =>
    if c.isDigit && d.isDigit && decide (natOfDigits 10 [c, d] ≤ greatest) then
      some (natOfDigits 10 [c, d], cs)
    else none
  | _ => none

/-- The text behind a character, if it starts with it. -/
def behind? (c : Char) : List Char → Option (List Char)
  | d :: cs => if d = c then some cs else none
  | [] => none

/-- The text behind a day of the calendar: four digits, two and two. -/
def behindDate? : List Char → Option (List Char)
  | a :: b :: c :: d :: cs =>
    if [a, b, c, d].all Char.isDigit then do
      let (month, cs) ← twoDigits? 12 (← behind? '-' cs)
      let (day, cs) ← twoDigits? 31 (← behind? '-' cs)
      if 1 ≤ month ∧ 1 ≤ day ∧ day ≤ daysInMonth (natOfDigits 10 [a, b, c, d]) month then some cs
      else none
    else none
  | _ => none

/-- The text behind a time of day: hours, minutes, seconds and optional decimals. -/
def behindTime? (cs : List Char) : Option (List Char) := do
  let (_, cs) ← twoDigits? 23 cs
  let (_, cs) ← twoDigits? 59 (← behind? ':' cs)
  let (_, cs) ← twoDigits? 60 (← behind? ':' cs)
  match cs with
  | '.' :: c :: cs => if c.isDigit then some (cs.dropWhile Char.isDigit) else none
  | cs => some cs

/-- Whether a word is an offset from universal time. -/
def isOffset : List Char → Bool
  | ['Z'] | ['z'] => true
  | sign :: cs =>
    (sign == '+' || sign == '-') &&
      (do
        let (_, cs) ← twoDigits? 23 cs
        let (_, cs) ← twoDigits? 59 (← behind? ':' cs)
        return cs) == some []
  | [] => false

/-- Whether a word is a time of day that may have an offset. -/
def isZonedTime (word : List Char) : Bool :=
  match behindTime? word with
  | some [] => true
  | some cs => isOffset cs
  | none => false

/-- Whether a word is a date, a time of day, or both with a letter `T` between them. -/
def isDateTime (word : List Char) : Bool :=
  behindTime? word == some [] ||
    match behindDate? word with
    | some [] => true
    | some (t :: time) => (t == 'T' || t == 't') && isZonedTime time
    | none => false

/-- Whether a word starts like a time of day. -/
def startsTime (word : List Char) : Bool :=
  match twoDigits? 23 word with
  | some (_, ':' :: _) => true
  | _ => false

/-! ## Words -/

/-- Whether a character belongs to a word. -/
def isWordCharacter (c : Char) : Bool :=
  !(isSpace c || ['\n', '\r', '#', ',', ']', '\x7d'].contains c)

/-- The value that a word spells. -/
def wordValue? (word : List Char) : Option Value :=
  if word = "true".toList then some (.bool true)
  else if word = "false".toList then some (.bool false)
  else if isDateTime word then some (.dateTime (String.ofList word))
  else match integer? word with
    | some n => some (.integer n)
    | none => (float? word).map .number

/-- The time of day behind a date and a space. -/
def spacedTime? : List Char → Option (List Char)
  | ' ' :: cs =>
    let time := cs.takeWhile isWordCharacter
    if startsTime time then some time else none
  | _ => none

/-- The value of the words in front of a text, and the text behind them. -/
def word (cs : List Char) : Option (Value × Rest cs) :=
  let first := cs.takeWhile isWordCharacter
  if h : 0 < first.length then
    let behind (n : Nat) : Rest cs := ⟨cs.drop (first.length + n), by
      have : first.length ≤ cs.length := (List.takeWhile_sublist _).length_le
      simp only [List.length_drop]; omega⟩
    match behindDate? first, spacedTime? (cs.drop first.length) with
    | some [], some time =>
      if isZonedTime time then
        some (.dateTime (String.ofList (first ++ ' ' :: time)), behind (1 + time.length))
      else none
    | _, _ => (wordValue? first).map fun v => (v, behind 0)
  else none

end SchemaDiagram.Toml
