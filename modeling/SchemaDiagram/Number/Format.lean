import SchemaDiagram.Number.Shortest

/-!
# Writing numbers

A number is written with the shortest digits that read back. The layouts differ in the numbers they
write without an exponent, in whether a whole number keeps a point, and in the tie between two
equally near decimals.
-/

namespace SchemaDiagram

/-- How numbers are laid out. -/
structure NumberLayout where
  /-- The choice between two equally near decimals. -/
  tie : Tie
  /-- The least and the greatest exponent of a leading digit for which no exponent is written;
  `none` if one is never written. -/
  positional : Option (Int × Int)
  /-- Whether a whole number written without an exponent ends in `.0`. -/
  keepsPoint : Bool

namespace NumberLayout

/-- In markup and messages a number never has an exponent, and a whole number no point. -/
def plain : NumberLayout := ⟨.up, none, false⟩

/-- In JSON a number has an exponent below `1e-5` and from `1e16` on, and a whole number without
one keeps a point. -/
def json : NumberLayout := ⟨.even, some (-5, 15), true⟩

/-- The digits with a point `places` from the right end, filled up with zeros. -/
def placePoint (digits : List Char) (exponent : Int) (keepsPoint : Bool) : List Char :=
  if 0 ≤ exponent then
    digits ++ List.replicate exponent.toNat '0' ++ (if keepsPoint then ['.', '0'] else [])
  else
    let places := (-exponent).toNat
    if places < digits.length then
      digits.take (digits.length - places) ++ '.' :: digits.drop (digits.length - places)
    else '0' :: '.' :: (List.replicate (places - digits.length) '0' ++ digits)

/-- The digits with the point after the first one, and the exponent of that one. -/
def placeExponent (digits : List Char) (leading : Int) : List Char :=
  let significand := match digits with
    | first :: second :: others => first :: '.' :: second :: others
    | others => others
  let sign := if leading < 0 then '-' else '+'
  significand ++ 'e' :: sign :: Nat.toDigits 10 leading.natAbs

/-- The text of a decimal value. -/
def decimalText (layout : NumberLayout) (d : Decimal) : List Char :=
  let digits := Nat.toDigits 10 d.digits
  let leading := (digits.length : Int) - 1 + d.exponent
  let isPositional := match layout.positional with
    | none => true
    | some (least, greatest) => least ≤ leading && leading ≤ greatest
  if isPositional then placePoint digits d.exponent layout.keepsPoint
  else placeExponent digits leading

/-- The text of a magnitude. -/
def magnitudeText (layout : NumberLayout) (m : Magnitude) : List Char :=
  if m = .zero then placePoint ['0'] 0 layout.keepsPoint
  else decimalText layout (Decimal.shortest layout.tie m).trimZeros

/-- The text of a number. -/
def text (layout : NumberLayout) : Number → String
  | .nan => "NaN"
  | .infinite negative => if negative then "-inf" else "inf"
  | .finite negative m =>
    String.ofList ((if negative then ['-'] else []) ++ layout.magnitudeText m)

end NumberLayout

/-- The text of a number in markup and messages. -/
def Number.plainText (x : Number) : String := NumberLayout.plain.text x

end SchemaDiagram
