/-!
# Binary floating-point numbers

Coordinates and sizes are numbers of the 64-bit binary format: a sign and a magnitude with a
significand of at most 53 bits, the two infinities and one not-a-number value. A finite magnitude is
kept exactly, as a whole number of units of `2 ^ -1074`, the least positive value of the format.

Main statement: `Magnitude.nearest?_units`, rounding leaves a magnitude of the format as it is.
-/

namespace SchemaDiagram

/-- The number of binary places below the point: one unit is `2 ^ -binaryPlaces`. -/
def binaryPlaces : Nat := 1074

/-- A count of units belongs to the format if it has at most 2098 bits, and those after the 53
leading ones are zero. -/
def FitsFormat (units : Nat) : Prop := units.log2 < 2098 ∧ units % Nat.pow 2 (units.log2 - 52) = 0

instance (units : Nat) : Decidable (FitsFormat units) := inferInstanceAs (Decidable (_ ∧ _))

/-- A finite magnitude of the format, in units. -/
structure Magnitude where
  /-- The magnitude as a count of units. -/
  units : Nat
  /-- The count belongs to the format. -/
  fits : FitsFormat units
  deriving DecidableEq

/-- A number of the 64-bit binary format. -/
inductive Number where
  /-- Not a number. -/
  | nan
  /-- An infinity. -/
  | infinite (negative : Bool)
  /-- A finite number; zero has a sign too. -/
  | finite (negative : Bool) (magnitude : Magnitude)
  deriving DecidableEq

namespace Magnitude

instance : Repr Magnitude := ⟨fun m _ => repr m.units⟩

/-- The magnitude zero. -/
def zero : Magnitude := ⟨0, by decide⟩

instance : Inhabited Magnitude := ⟨zero⟩

/-- The quotient `num / den` as a whole number, a tie going to the even neighbour. -/
def divToEven (num den : Nat) : Nat :=
  let rest := num % den
  if 2 * rest < den then num / den
  else if den < 2 * rest then num / den + 1
  else num / den + num / den % 2

/-- The magnitude of the format nearest to `num / den` units, a tie going to the even significand;
`none` if it overflows. -/
def nearest? (num den : Nat) : Option Magnitude :=
  let spacing := Nat.pow 2 ((num / den).log2 - 52)
  let units := divToEven num (den * spacing) * spacing
  if h : FitsFormat units then some ⟨units, h⟩ else none

/-- A quotient without remainder is not rounded. -/
theorem divToEven_mul_right (n : Nat) {den : Nat} (h : 0 < den) : divToEven (n * den) den = n := by
  simp [divToEven, Nat.mul_div_cancel _ h, h]

/-- Rounding leaves a magnitude of the format as it is. -/
theorem nearest?_units (m : Magnitude) {den : Nat} (h : 0 < den) :
    nearest? (m.units * den) den = some m := by
  obtain ⟨units, hlt, hmod⟩ := m
  have hdvd : 2 ^ (units.log2 - 52) ∣ units := Nat.dvd_of_mod_eq_zero hmod
  obtain ⟨k, hk⟩ := hdvd
  have hpos : 0 < den * 2 ^ (units.log2 - 52) := Nat.mul_pos h (Nat.two_pow_pos _)
  have hnum : units * den = k * (den * 2 ^ (units.log2 - 52)) := by
    calc units * den = (2 ^ (units.log2 - 52) * k) * den := by rw [← hk]
      _ = k * (den * 2 ^ (units.log2 - 52)) := by
        rw [Nat.mul_comm (2 ^ _) k, Nat.mul_assoc, Nat.mul_comm (2 ^ _) den]
  have hunits : divToEven (units * den) (den * 2 ^ (units.log2 - 52)) * 2 ^ (units.log2 - 52)
      = units := by
    rw [hnum, divToEven_mul_right k hpos, Nat.mul_comm, ← hk]
  have hfits : FitsFormat units := ⟨hlt, hmod⟩
  simp only [nearest?, Nat.pow_eq, Nat.mul_div_cancel _ h, hunits]
  exact dif_pos hfits

end Magnitude

namespace Number

instance : Repr Number where
  reprPrec
    | nan, _ => "nan"
    | infinite negative, _ => if negative then "-inf" else "inf"
    | finite negative m, _ => (if negative then "-" else "") ++ repr m ++ " units"

/-- The positive zero. -/
def zero : Number := finite false .zero

instance : Inhabited Number := ⟨zero⟩

/-- Neither infinite nor not-a-number. -/
def isFinite : Number → Bool
  | finite _ _ => true
  | _ => false

/-- Numerical equality: the two zeros are equal, and not-a-number differs from everything. -/
def numericallyEqual : Number → Number → Bool
  | finite s m, finite t n => m == n && (s == t || m == .zero)
  | infinite s, infinite t => s == t
  | _, _ => false

instance : BEq Number := ⟨numericallyEqual⟩

end Number

end SchemaDiagram
