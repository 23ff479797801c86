import SchemaDiagram.Number.Basic

/-!
# Reading decimal numerals

A numeral is an optional sign followed by one of the words `inf`, `infinity` and `nan` in any case,
or by digits with at most one point among them and an optional exponent. It stands for the number of
the format nearest to it.
-/

namespace SchemaDiagram

/-- The decimal value `digits * 10 ^ exponent`. -/
structure Decimal where
  /-- The digits as a whole number. -/
  digits : Nat
  /-- The power of ten that scales them. -/
  exponent : Int
  deriving DecidableEq, Repr

/-- How many decimal digits a number has; zero has one. -/
def digitCount (n : Nat) : Nat := (Nat.toDigits 10 n).length

namespace Decimal

/-- The magnitude nearest to a decimal value, or `none` if that overflows. Values of `10 ^ 310` and
more overflow, and values below `10 ^ -330` are nearer to zero than to the least unit; both are
answered without raising the power of ten. -/
def toMagnitude? (d : Decimal) : Option Magnitude :=
  if d.digits = 0 then some .zero
  else if 310 < d.exponent then none
  else if (digitCount d.digits : Int) + d.exponent < -330 then some .zero
  else if 0 ≤ d.exponent then
    Magnitude.nearest? (d.digits * Nat.pow 10 d.exponent.toNat * Nat.pow 2 binaryPlaces) 1
  else Magnitude.nearest? (d.digits * Nat.pow 2 binaryPlaces) (Nat.pow 10 (-d.exponent).toNat)

end Decimal

namespace Number

/-- The whole number that a run of digits spells. -/
def ofDigits (cs : List Char) : Nat := Nat.ofDigitChars 10 cs 0

/-- A nonempty run of digits and nothing else. -/
def wholeDigits? (cs : List Char) : Option Nat :=
  if cs.isEmpty || !cs.all Char.isDigit then none else some (ofDigits cs)

/-- The exponent after the mark: digits with an optional sign. -/
def exponent? : List Char → Option Int
  | '-' :: cs => (wholeDigits? cs).map fun n => -(n : Int)
  | '+' :: cs => (wholeDigits? cs).map Int.ofNat
  | cs => (wholeDigits? cs).map Int.ofNat

/-- The decimal value of an unsigned numeral: digits, a point that may stand before, between or
after them, and an exponent after `e` or `E`. -/
def decimal? (cs : List Char) : Option Decimal :=
  let whole := cs.takeWhile Char.isDigit
  let afterWhole := cs.dropWhile Char.isDigit
  let (fraction, tail) := match afterWhole with
    | '.' :: rest => (rest.takeWhile Char.isDigit, rest.dropWhile Char.isDigit)
    | _ => ([], afterWhole)
  let value (shift : Int) : Decimal := ⟨ofDigits (whole ++ fraction), shift - fraction.length⟩
  if whole.isEmpty && fraction.isEmpty then none
  else match tail with
    | [] => some (value 0)
    | mark :: rest => if mark == 'e' || mark == 'E' then (exponent? rest).map value else none

/-- The number of a decimal value with a sign; overflow gives an infinity. -/
def ofDecimal (negative : Bool) (d : Decimal) : Number :=
  match d.toMagnitude? with
  | some m => finite negative m
  | none => infinite negative

/-- The number of a numeral whose sign has been read. -/
def ofUnsigned? (negative : Bool) (cs : List Char) : Option Number :=
  let word := String.ofList (cs.map Char.toLower)
  if word == "inf" || word == "infinity" then some (infinite negative)
  else if word == "nan" then some nan
  else (decimal? cs).map (ofDecimal negative)

/-- The number that a text spells, if it is a numeral. -/
def ofString? (s : String) : Option Number :=
  match s.toList with
  | '-' :: cs => ofUnsigned? true cs
  | '+' :: cs => ofUnsigned? false cs
  | cs => ofUnsigned? false cs

end Number

end SchemaDiagram
