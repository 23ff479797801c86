import Mathlib
import SchemaDiagram.Number.Format

/-!
# Numbers in markup read back

A finite number in markup is a numeral: digits, and possibly a point with more digits behind it. Its
digits are the shortest ones that read back, moved to their place by zeros or by the point. None of
this changes the value: a zero behind the digits is a factor of ten (`toMagnitude?_tenfold`), and
the point takes as many powers of ten away as digits stand behind it.

Main statements: `Number.ofString?_plainText`, a finite number is read back from its text, and
`Number.exists_numeral_plainText`, that text is a numeral with an optional minus.
-/

namespace SchemaDiagram

/-! ## Rounding of equal fractions -/

namespace Magnitude

/-- Division to the even neighbor does not see a common factor. -/
theorem divToEven_mul_mul (num den : Nat) {c : Nat} (hc : 0 < c) :
    divToEven (c * num) (c * den) = divToEven num den := by
  have hdouble : 2 * (c * (num % den)) = c * (2 * (num % den)) := by
    rw [← Nat.mul_assoc, Nat.mul_comm 2 c, Nat.mul_assoc]
  simp only [divToEven, Nat.mul_mod_mul_left, Nat.mul_div_mul_left _ _ hc, hdouble,
    Nat.mul_lt_mul_left hc]

/-- Numerator and denominator may have a common factor. -/
theorem nearest?_mul_mul (num den : Nat) {c : Nat} (hc : 0 < c) :
    nearest? (c * num) (c * den) = nearest? num den := by
  simp only [nearest?, Nat.mul_div_mul_left _ _ hc, Nat.mul_assoc, divToEven_mul_mul _ _ hc]

/-- Division to the even neighbor does not round below the quotient. -/
theorem div_le_divToEven (num den : Nat) : num / den ≤ divToEven num den := by
  unfold divToEven
  dsimp only
  split
  · exact Nat.le_refl _
  split
  · exact Nat.le_succ _
  · exact Nat.le_add_right _ _

/-- A whole number of units that rounds to a magnitude of the format has at most 2098 bits. -/
theorem log2_lt_of_nearest? {num : Nat} {m : Magnitude} (h : nearest? num 1 = some m) :
    num.log2 < 2098 := by
  unfold nearest? at h
  simp only [Nat.div_one, Nat.one_mul] at h
  split at h
  · next hfits =>
    by_cases hzero : num = 0
    · subst hzero
      decide
    refine Nat.lt_of_le_of_lt ?_ hfits.1
    -- the spacing divides the leading power of two, so rounding stays above that
    have hsplit : 2 ^ num.log2 = 2 ^ (num.log2 - (num.log2 - 52)) * 2 ^ (num.log2 - 52) := by
      rw [← Nat.pow_add]
      congr 1
      omega
    have hquotient : 2 ^ (num.log2 - (num.log2 - 52)) ≤ num / 2 ^ (num.log2 - 52) := by
      rw [Nat.le_div_iff_mul_le (Nat.two_pow_pos _), ← hsplit]
      exact Nat.log2_self_le hzero
    have hpower : 2 ^ num.log2 ≤
        divToEven num (Nat.pow 2 (num.log2 - 52)) * Nat.pow 2 (num.log2 - 52) := by
      rw [hsplit]
      exact Nat.mul_le_mul_right _ (Nat.le_trans hquotient (div_le_divToEven _ _))
    have hpos := Nat.lt_of_lt_of_le (Nat.two_pow_pos _) hpower
    exact (Nat.le_log2 (Nat.ne_of_gt hpos)).2 hpower
  · cases h

end Magnitude

namespace Decimal

/-- Ten times a number has one digit more. -/
theorem digitCount_tenfold {n : Nat} (h : 0 < n) : digitCount (10 * n) = digitCount n + 1 := by
  have happend := Nat.toDigits_append_toDigits (b := 10) (d := 0) (by decide) h (by decide)
  have hlength := congrArg List.length happend
  rw [List.length_append, Nat.toDigits_zero] at hlength
  exact hlength.symm

/-- With more than 310 zeros behind its digits, a number is out of the format. -/
theorem le_of_nearest?_zeros {n k : Nat} {m : Magnitude} (hn : 0 < n)
    (h : Magnitude.nearest? (n * Nat.pow 10 k * Nat.pow 2 binaryPlaces) 1 = some m) :
    k ≤ 310 := by
  by_contra hlarge
  have hgrows (j a c : Nat) (hj : j ≤ k) (h : a ≤ Nat.pow 10 j * c) : a ≤ n * Nat.pow 10 k * c := by
    refine Nat.le_trans h (Nat.mul_le_mul_right c ?_)
    exact Nat.le_trans (Nat.pow_le_pow_right (by decide) hj) (Nat.le_mul_of_pos_left _ hn)
  have hpower : 2 ^ 2098 ≤ n * Nat.pow 10 k * Nat.pow 2 binaryPlaces :=
    hgrows 311 _ _ (by omega) (by decide +kernel)
  have hpos := Nat.lt_of_lt_of_le (Nat.two_pow_pos _) hpower
  have hlog := (Nat.le_log2 (Nat.ne_of_gt hpos)).2 hpower
  exact Nat.not_lt.2 hlog (Magnitude.log2_lt_of_nearest? h)

/-- A zero behind the digits may as well be a power of ten. -/
theorem toMagnitude?_tenfold {n : Nat} {e : Int} {m : Magnitude} (hn : 0 < n)
    (h : toMagnitude? ⟨10 * n, e⟩ = some m) : toMagnitude? ⟨n, e + 1⟩ = some m := by
  have hne : n ≠ 0 := Nat.ne_of_gt hn
  have hten : 10 * n ≠ 0 := by omega
  have hcount := digitCount_tenfold hn
  unfold toMagnitude? at h ⊢
  simp only [if_neg hne, if_neg hten, hcount] at h ⊢
  -- the bounds hold for both, since one digit less makes up for one place more
  by_cases hlarge : 310 < e
  · rw [if_pos hlarge] at h
    cases h
  by_cases hsmall : (digitCount n : Int) + (e + 1) < -330
  · rw [if_neg hlarge, if_pos (by omega)] at h
    rw [if_neg (by omega), if_pos hsmall]
    exact h
  rw [if_neg hlarge, if_neg (by omega)] at h
  by_cases hwhole : 0 ≤ e
  · rw [if_pos hwhole] at h
    have hexponent : (e + 1).toNat = e.toNat + 1 := by omega
    have hdigits : 10 * n * Nat.pow 10 e.toNat = n * Nat.pow 10 (e + 1).toNat := by
      rw [hexponent, Nat.pow_eq, Nat.pow_eq, Nat.pow_succ, Nat.mul_comm 10 n, Nat.mul_assoc,
        Nat.mul_comm 10]
    rw [hdigits] at h
    have hbound := le_of_nearest?_zeros hn h
    rw [if_neg (by omega), if_neg hsmall, if_pos (by omega)]
    exact h
  · rw [if_neg hwhole] at h
    rw [if_neg (by omega), if_neg hsmall]
    by_cases hlast : e = -1
    · subst hlast
      rw [if_pos (by omega), ← h]
      have hone : Nat.pow 10 (-(-1 : Int)).toNat = 10 * 1 := rfl
      rw [hone, Nat.mul_assoc 10 n, Magnitude.nearest?_mul_mul _ _ (by decide)]
      exact congrArg (Magnitude.nearest? · 1) (congrArg (· * Nat.pow 2 binaryPlaces) (Nat.mul_one n))
    · rw [if_neg (by omega), ← h]
      have hexponent : (-e).toNat = (-(e + 1)).toNat + 1 := by omega
      have hden : Nat.pow 10 (-e).toNat = 10 * Nat.pow 10 (-(e + 1)).toNat := by
        rw [hexponent, Nat.pow_eq, Nat.pow_eq, Nat.pow_succ, Nat.mul_comm]
      rw [hden, Nat.mul_assoc 10 n, Magnitude.nearest?_mul_mul _ _ (by decide)]

/-- A power of ten may as well be zeros behind the digits. -/
theorem toMagnitude?_whole {n : Nat} {e : Int} {m : Magnitude} (he : 0 ≤ e)
    (h : toMagnitude? ⟨n, e⟩ = some m) : toMagnitude? ⟨n * 10 ^ e.toNat, 0⟩ = some m := by
  unfold toMagnitude? at h ⊢
  simp only at h ⊢
  by_cases hn : n = 0
  · rw [if_pos hn] at h
    rw [if_pos (by rw [hn, Nat.zero_mul]), h]
  have hscaled : n * 10 ^ e.toNat ≠ 0 := Nat.mul_ne_zero hn (Nat.ne_of_gt (Nat.pow_pos (by decide)))
  rw [if_neg hn] at h
  rw [if_neg hscaled]
  by_cases hlarge : 310 < e
  · rw [if_pos hlarge] at h
    cases h
  rw [if_neg hlarge, if_neg (by omega), if_pos he] at h
  rw [if_neg (by decide), if_neg (by omega), if_pos (Int.le_refl 0), ← h]
  simp

/-- A decimal without its last zeros has the same magnitude. -/
theorem toMagnitude?_trimZeros {d : Decimal} {m : Magnitude} (h : d.toMagnitude? = some m) :
    d.trimZeros.toMagnitude? = some m := by
  have hgo : ∀ (fuel : Nat) (d : Decimal), d.toMagnitude? = some m →
      (trimZeros.go fuel d).toMagnitude? = some m := by
    intro fuel
    induction fuel with
    | zero => exact fun d h => h
    | succ fuel ih =>
      intro d h
      unfold trimZeros.go
      split
      · next hzero =>
        refine ih _ ?_
        obtain ⟨digits, e⟩ := d
        simp only at hzero
        have htenfold : digits = 10 * (digits / 10) := by
          have := Nat.div_add_mod digits 10
          omega
        have hpos : 0 < digits / 10 := by omega
        rw [htenfold] at h
        exact toMagnitude?_tenfold hpos h
      · exact h
  exact hgo _ d h

end Decimal

/-! ## Numerals -/

namespace Number

/-- Digits, and a point with more digits behind it if there are any. -/
def numeral (whole fraction : List Char) : List Char :=
  if fraction = [] then whole else whole ++ '.' :: fraction

/-- A nonempty run of digits. -/
def AreDigits (cs : List Char) : Prop := cs ≠ [] ∧ ∀ c ∈ cs, c.isDigit = true

/-- A numeral starts with the first of its digits. -/
theorem exists_numeral_cons (c : Char) (cs fraction : List Char) :
    ∃ ds, numeral (c :: cs) fraction = c :: ds := by
  unfold numeral
  split
  · exact ⟨cs, rfl⟩
  · exact ⟨_, rfl⟩

/-- A numeral is read as the digits and where the point stands. -/
theorem decimal?_numeral {whole fraction : List Char} (hwhole : AreDigits whole)
    (hfraction : ∀ c ∈ fraction, c.isDigit = true) :
    decimal? (numeral whole fraction) =
      some ⟨ofDigits (whole ++ fraction), 0 - (fraction.length : Int)⟩ := by
  have hpoint : '.'.isDigit = false := by decide
  unfold numeral
  by_cases h : fraction = []
  · subst h
    have htake : whole.takeWhile Char.isDigit = whole := List.takeWhile_eq_self_iff.2 hwhole.2
    have hdrop : whole.dropWhile Char.isDigit = [] := List.dropWhile_eq_nil_iff.2 hwhole.2
    simp [decimal?, htake, hdrop, hwhole.1]
  · have htake : (whole ++ '.' :: fraction).takeWhile Char.isDigit = whole := by
      rw [List.takeWhile_append_of_pos hwhole.2, List.takeWhile_cons_of_neg (by simp [hpoint]),
        List.append_nil]
    have hdrop : (whole ++ '.' :: fraction).dropWhile Char.isDigit = '.' :: fraction := by
      rw [List.dropWhile_append_of_pos hwhole.2, List.dropWhile_cons_of_neg (by simp [hpoint])]
    have htake' : fraction.takeWhile Char.isDigit = fraction :=
      List.takeWhile_eq_self_iff.2 hfraction
    have hdrop' : fraction.dropWhile Char.isDigit = [] := List.dropWhile_eq_nil_iff.2 hfraction
    simp [decimal?, h, htake, hdrop, htake', hdrop', hwhole.1]

/-- Zeros behind the digits multiply by powers of ten. -/
theorem ofDigits_append_zeros (digits : List Char) (n : Nat) :
    ofDigits (digits ++ List.replicate n '0') = ofDigits digits * 10 ^ n := by
  rw [ofDigits, Nat.ofDigitChars_append, Nat.ofDigitChars_replicate_zero, Nat.mul_comm]
  rfl

/-- Zeros in front of the digits change nothing. -/
theorem ofDigits_zeros_append (n : Nat) (digits : List Char) :
    ofDigits (List.replicate n '0' ++ digits) = ofDigits digits := by
  rw [ofDigits, Nat.ofDigitChars_append, Nat.ofDigitChars_replicate_zero, Nat.mul_zero]
  rfl

/-- Zeros are digits. -/
theorem isDigit_of_mem_zeros {n : Nat} {c : Char} (hc : c ∈ List.replicate n '0') :
    c.isDigit = true := by
  rw [List.eq_of_mem_replicate hc]
  decide

/-- The point is put among the digits without changing their value. -/
theorem exists_numeral_placePoint {digits : List Char} (hdigits : AreDigits digits) {e : Int}
    {m : Magnitude} (h : Decimal.toMagnitude? ⟨ofDigits digits, e⟩ = some m) :
    ∃ whole fraction, AreDigits whole ∧ (∀ c ∈ fraction, c.isDigit = true) ∧
      NumberLayout.placePoint digits e false = numeral whole fraction ∧
      Decimal.toMagnitude? ⟨ofDigits (whole ++ fraction), 0 - (fraction.length : Int)⟩ = some m := by
  unfold NumberLayout.placePoint
  by_cases hexponent : 0 ≤ e
  · -- zeros behind the digits, and no point
    refine ⟨digits ++ List.replicate e.toNat '0', [], ⟨?_, ?_⟩, nofun, ?_, ?_⟩
    · simp [hdigits.1]
    · intro c hc
      rcases List.mem_append.1 hc with hc | hc
      · exact hdigits.2 c hc
      · exact isDigit_of_mem_zeros hc
    · simp [hexponent, numeral]
    · rw [List.append_nil, ofDigits_append_zeros]
      exact Decimal.toMagnitude?_whole hexponent h
  by_cases hplaces : (-e).toNat < digits.length
  · -- the point between two of the digits
    refine ⟨digits.take (digits.length - (-e).toNat), digits.drop (digits.length - (-e).toNat),
      ⟨?_, ?_⟩, ?_, ?_, ?_⟩
    · rw [ne_eq, List.take_eq_nil_iff]
      rintro (hnone | hnone)
      · omega
      · exact hdigits.1 hnone
    · exact fun c hc => hdigits.2 c (List.mem_of_mem_take hc)
    · exact fun c hc => hdigits.2 c (List.mem_of_mem_drop hc)
    · have hbehind : digits.drop (digits.length - (-e).toNat) ≠ [] := by
        rw [ne_eq, List.drop_eq_nil_iff]
        omega
      simp [hexponent, hplaces, numeral, hbehind]
    · have hlength : 0 - ((digits.drop (digits.length - (-e).toNat)).length : Int) = e := by
        rw [List.length_drop]
        omega
      rw [List.take_append_drop, hlength]
      exact h
  · -- the point in front of the digits, and zeros up to it
    refine ⟨['0'], List.replicate ((-e).toNat - digits.length) '0' ++ digits, ⟨?_, ?_⟩, ?_, ?_, ?_⟩
    · simp
    · exact fun c hc => isDigit_of_mem_zeros (n := 1) hc
    · intro c hc
      rcases List.mem_append.1 hc with hc | hc
      · exact isDigit_of_mem_zeros hc
      · exact hdigits.2 c hc
    · simp [hexponent, hplaces, numeral, hdigits.1]
    · have hlength :
          0 - ((List.replicate ((-e).toNat - digits.length) '0' ++ digits).length : Int) = e := by
        rw [List.length_append, List.length_replicate]
        omega
      have hvalue : ofDigits (['0'] ++ (List.replicate ((-e).toNat - digits.length) '0' ++ digits)) =
          ofDigits digits := by
        rw [← List.append_assoc]
        exact ofDigits_zeros_append ((-e).toNat - digits.length + 1) digits
      rw [hvalue, hlength]
      exact h

/-- A magnitude is written as a numeral that reads back. -/
theorem exists_numeral_magnitudeText (m : Magnitude) :
    ∃ whole fraction, AreDigits whole ∧ (∀ c ∈ fraction, c.isDigit = true) ∧
      NumberLayout.plain.magnitudeText m = numeral whole fraction ∧
      Decimal.toMagnitude? ⟨ofDigits (whole ++ fraction), 0 - (fraction.length : Int)⟩ = some m := by
  unfold NumberLayout.magnitudeText
  by_cases hzero : m = .zero
  · subst hzero
    rw [if_pos rfl]
    refine exists_numeral_placePoint ⟨by simp, ?_⟩ ?_
    · intro c hc
      rw [List.mem_singleton.1 hc]
      decide
    · rfl
  · rw [if_neg hzero]
    have hshortest := Decimal.toMagnitude?_trimZeros (Decimal.toMagnitude?_shortest .up m)
    refine exists_numeral_placePoint ⟨Nat.toDigits_ne_nil, ?_⟩ ?_
    · exact fun c hc => Nat.isDigit_of_mem_toDigits (by decide) (by decide) hc
    · rw [ofDigits, Nat.ofDigitChars_ten_toDigits]
      exact hshortest

/-- A finite number in markup is a numeral, with a minus in front if it is negative. -/
theorem exists_numeral_plainText {x : Number} (hx : x.isFinite = true) :
    ∃ (negative : Bool) (whole fraction : List Char), AreDigits whole ∧
      (∀ c ∈ fraction, c.isDigit = true) ∧
      x.plainText.toList = (if negative then ['-'] else []) ++ numeral whole fraction ∧
      ofDecimal negative ⟨ofDigits (whole ++ fraction), 0 - (fraction.length : Int)⟩ = x := by
  cases x with
  | nan => cases hx
  | infinite negative => cases hx
  | finite negative m =>
    obtain ⟨whole, fraction, hwhole, hfraction, htext, hvalue⟩ := exists_numeral_magnitudeText m
    refine ⟨negative, whole, fraction, hwhole, hfraction, ?_, ?_⟩
    · rw [← htext]
      exact String.toList_ofList
    · rw [ofDecimal, hvalue]

/-- A numeral is none of the words for numbers that are not finite. -/
theorem ofUnsigned?_numeral (negative : Bool) {whole fraction : List Char}
    (hwhole : AreDigits whole) (hfraction : ∀ c ∈ fraction, c.isDigit = true) :
    ofUnsigned? negative (numeral whole fraction) =
      some (ofDecimal negative ⟨ofDigits (whole ++ fraction), 0 - (fraction.length : Int)⟩) := by
  obtain ⟨c, cs, rfl⟩ := List.exists_cons_of_ne_nil hwhole.1
  have hc : c.isDigit = true := hwhole.2 c (by simp)
  have hlower : c.toLower = c := by
    unfold Char.toLower
    split
    · next hupper =>
      have hdigit := hc
      simp only [Char.isDigit, ge_iff_le, Bool.and_eq_true, decide_eq_true_eq] at hdigit
      exact absurd (UInt32.le_trans hupper.1 hdigit.2) (by decide)
    · rfl
  obtain ⟨ds, htext⟩ := exists_numeral_cons c cs fraction
  have hword : ∀ word : String, word.toList.head?.any Char.isDigit = false →
      (String.ofList ((numeral (c :: cs) fraction).map Char.toLower) == word) = false := by
    intro word hhead
    rw [beq_eq_false_iff_ne]
    rintro rfl
    rw [String.toList_ofList, htext, List.map_cons, hlower] at hhead
    simp [hc] at hhead
  have hdecimal := decimal?_numeral hwhole hfraction
  unfold ofUnsigned?
  simp only [hword "inf" (by decide), hword "infinity" (by decide), hword "nan" (by decide),
    hdecimal, Bool.or_self, Bool.false_eq_true, if_false, Option.map_some]

/-- A finite number is read back from its text. -/
theorem ofString?_plainText {x : Number} (hx : x.isFinite = true) :
    ofString? x.plainText = some x := by
  obtain ⟨negative, whole, fraction, hwhole, hfraction, htext, hvalue⟩ :=
    exists_numeral_plainText hx
  have hread := fun negative => ofUnsigned?_numeral negative hwhole hfraction
  obtain ⟨c, cs, rfl⟩ := List.exists_cons_of_ne_nil hwhole.1
  have hc : c.isDigit = true := hwhole.2 c (by simp)
  obtain ⟨ds, hnumeral⟩ := exists_numeral_cons c cs fraction
  unfold ofString?
  rw [htext]
  cases negative with
  | true =>
    show ofUnsigned? true (numeral (c :: cs) fraction) = _
    rw [hread, hvalue]
  | false =>
    rw [if_neg (by decide), List.nil_append]
    split
    · next hminus =>
      rw [hnumeral] at hminus
      cases hminus
      cases hc
    · next hplus =>
      rw [hnumeral] at hplus
      cases hplus
      cases hc
    · rw [hread, hvalue]

end Number

end SchemaDiagram
