import SchemaDiagram.Number.Decimal

/-!
# The shortest decimal that reads back

Among the decimals with the fewest digits that read back as a given magnitude, the nearest to it is
taken. Only the two neighbours of the magnitude on each grid of decimals have to be tried: if any
point of the grid reads back, one of them does.

Main statement: `Decimal.toMagnitude?_shortest`, the result reads back.
-/

namespace SchemaDiagram

/-- Which of two equally near decimals is taken. -/
inductive Tie where
  /-- The greater one. -/
  | up
  /-- The one with an even last digit. -/
  | even
  deriving DecidableEq, Repr

namespace Magnitude

/-- The exponent of the leading decimal digit: `10 ^ p` is the greatest power of ten that does not
exceed the magnitude. -/
def leadingExponent (m : Magnitude) : Int :=
  if Nat.pow 2 binaryPlaces ≤ m.units then (digitCount (m.units / Nat.pow 2 binaryPlaces) : Int) - 1
  else -(digitCount ((Nat.pow 2 binaryPlaces - 1) / m.units) : Int)

/-- The magnitude over `10 ^ exponent`, as a numerator and a denominator. -/
def scaled (m : Magnitude) (exponent : Int) : Nat × Nat :=
  if 0 ≤ exponent then (m.units, Nat.pow 10 exponent.toNat * Nat.pow 2 binaryPlaces)
  else (m.units * Nat.pow 10 (-exponent).toNat, Nat.pow 2 binaryPlaces)

/-- A decimal that reads back as the magnitude. -/
def ReadsBack (m : Magnitude) (d : Decimal) : Prop := d.toMagnitude? = some m

instance (m : Magnitude) (d : Decimal) : Decidable (m.ReadsBack d) :=
  inferInstanceAs (Decidable (_ = _))

/-- Of the two neighbours of the magnitude on the grid `10 ^ exponent`, those that read back, the
preferred one first. -/
def neighbours (m : Magnitude) (tie : Tie) (exponent : Int) : List Decimal :=
  let (num, den) := m.scaled exponent
  let below : Decimal := ⟨num / den, exponent⟩
  let above : Decimal := ⟨num / den + 1, exponent⟩
  let rest := num % den
  let aboveFirst := den < 2 * rest || (2 * rest == den && (tie == .up || num / den % 2 == 1))
  (if aboveFirst then [above, below] else [below, above]).filter fun d => m.ReadsBack d

/-- The decimal with all its digits: `units * 5 ^ 1074` over `10 ^ 1074`. -/
def exactDecimal (m : Magnitude) : Decimal :=
  ⟨m.units * Nat.pow 5 binaryPlaces, -(binaryPlaces : Int)⟩

/-- All the digits of a magnitude read back. -/
theorem readsBack_exactDecimal (m : Magnitude) : m.ReadsBack m.exactDecimal := by
  by_cases h0 : m.units = 0
  · have hm : m = .zero := by cases m; simp_all [zero]
    simp [ReadsBack, exactDecimal, Decimal.toMagnitude?, hm, zero]
  have hpos : 0 < m.units := Nat.pos_of_ne_zero h0
  have hpow {b : Nat} (hb : 0 < b) : 0 < Nat.pow b binaryPlaces := by
    rw [Nat.pow_eq]
    exact Nat.pow_pos hb
  have hdigits : m.exactDecimal.digits ≠ 0 := Nat.ne_of_gt (Nat.mul_pos hpos (hpow (by decide)))
  have hlarge : ¬ digitCount m.exactDecimal.digits ≤ 744 := by
    rw [digitCount, Nat.length_toDigits_le_iff (by decide) (by decide), Nat.not_lt]
    calc 10 ^ 744 ≤ Nat.pow 5 binaryPlaces := by decide +kernel
      _ ≤ m.units * Nat.pow 5 binaryPlaces := Nat.le_mul_of_pos_left _ hpos
  have hexp : m.exactDecimal.exponent = -1074 := rfl
  have hten : Nat.pow 10 binaryPlaces = Nat.pow 5 binaryPlaces * Nat.pow 2 binaryPlaces := by
    simp only [Nat.pow_eq, ← Nat.mul_pow]
  unfold ReadsBack Decimal.toMagnitude?
  rw [if_neg hdigits, hexp, if_neg (by decide), if_neg (by omega), if_neg (by decide)]
  have hnat : (-(-1074 : Int)).toNat = binaryPlaces := rfl
  rw [hnat, exactDecimal, Nat.mul_assoc, ← hten]
  exact nearest?_units m (hpow (by decide))

/-- Only decimals that read back are offered. -/
theorem readsBack_of_mem_neighbours {m : Magnitude} {tie : Tie} {exponent : Int} {d : Decimal}
    (h : d ∈ m.neighbours tie exponent) : m.ReadsBack d := by
  simpa using (List.mem_filter.1 h).2

end Magnitude

namespace Decimal

/-- The grids tried, from one digit to seventeen, which always suffice. -/
def grids (m : Magnitude) : List Int :=
  (List.range 17).map fun (k : Nat) => m.leadingExponent - (k : Int)

/-- The nearest of the decimals with the fewest digits that read back as the magnitude. -/
def shortest (tie : Tie) (m : Magnitude) : Decimal :=
  ((grids m).flatMap (m.neighbours tie)).headD m.exactDecimal

/-- The shortest decimal reads back. -/
theorem toMagnitude?_shortest (tie : Tie) (m : Magnitude) :
    (shortest tie m).toMagnitude? = some m := by
  unfold shortest
  cases hs : (grids m).flatMap (m.neighbours tie) with
  | nil => exact m.readsBack_exactDecimal
  | cons d others =>
    have hd : d ∈ (grids m).flatMap (m.neighbours tie) := by simp [hs]
    obtain ⟨exponent, _, hmem⟩ := List.mem_flatMap.1 hd
    exact Magnitude.readsBack_of_mem_neighbours hmem

/-- The decimal with the zeros at its end moved into the exponent, so that its last digit counts.
The fuel is the number of digits. -/
def trimZeros (d : Decimal) : Decimal := go (digitCount d.digits) d
where
  /-- Moves at most `fuel` zeros. -/
  go : Nat → Decimal → Decimal
    | 0, d => d
    | fuel + 1, d =>
      if d.digits % 10 = 0 ∧ d.digits ≠ 0 then go fuel ⟨d.digits / 10, d.exponent + 1⟩ else d

end Decimal

end SchemaDiagram
