import Mathlib
import SchemaDiagram.Timestamp

/-!
# Timestamps read back

The text of a timestamp is one of many that the lenient reader takes for the moment. Every part of
it is a number filled up with zeros, so one fact carries the proof: a number that fits its width is
read back from there, whatever stands behind it (`number?_padded`).

Main statement: `Timestamp.ofString?_text`, for the moments of calendar years. No other moment reads
back, since the reader refuses days of other years.
-/

namespace SchemaDiagram

namespace Text

/-- Digits are not blank. -/
theorem isBlank_eq_false_of_isDigit {c : Char} (h : c.isDigit = true) : isBlank c = false := by
  have hlow : 48 ≤ c.toNat := by
    simp only [Char.isDigit, Bool.and_eq_true, decide_eq_true_eq] at h
    exact UInt32.le_iff_toNat_le.1 h.1
  have hhigh : c.toNat ≤ 57 := by
    simp only [Char.isDigit, Bool.and_eq_true, decide_eq_true_eq] at h
    exact UInt32.le_iff_toNat_le.1 h.2
  rw [← Char.ofNat_toNat c]
  generalize c.toNat = n at hlow hhigh
  interval_cases n <;> decide

/-- A text without a blank in front is not trimmed there. -/
theorem trimStart_cons {c : Char} (h : isBlank c = false) (cs : List Char) :
    trimStart (c :: cs) = c :: cs :=
  List.dropWhile_cons_of_neg (by rw [h]; exact Bool.false_ne_true)

end Text

namespace Timestamp

/-! ## Numbers -/

/-- A padded number is made of digits. -/
theorem isDigit_of_mem_padded {width n : Nat} {c : Char} (h : c ∈ padded width n) :
    c.isDigit = true := by
  rcases List.mem_append.1 h with h | h
  · rw [List.eq_of_mem_replicate h]
    decide
  · exact Nat.isDigit_of_mem_toDigits (by decide) (by decide) h

/-- There is a digit in front of a number. -/
theorem exists_padded_eq_cons (width n : Nat) :
    ∃ c cs, padded width n = c :: cs ∧ c.isDigit = true := by
  obtain ⟨c, cs, hcons⟩ := List.exists_cons_of_ne_nil (l := padded width n)
    (by simp [padded, Nat.toDigits_ne_nil])
  exact ⟨c, cs, hcons, isDigit_of_mem_padded (hcons ▸ List.mem_cons_self)⟩

/-- A number of at most so many digits is padded to exactly as many. -/
theorem length_padded {width n : Nat} (hwidth : 0 < width) (hn : n < 10 ^ width) :
    (padded width n).length = width := by
  have hlength := (Nat.length_toDigits_le_iff (b := 10) (by decide) hwidth).2 hn
  simp only [padded, List.length_append, List.length_replicate]
  omega

/-- A padded number is read as itself. -/
theorem ofDigitChars_padded (width n : Nat) : Nat.ofDigitChars 10 (padded width n) 0 = n := by
  rw [padded, Nat.ofDigitChars_append, Nat.ofDigitChars_replicate_zero, Nat.mul_zero,
    Nat.ofDigitChars_ten_toDigits]

/-- The digits at the front are those of the padded number. -/
theorem takeWhile_padded_append {width n : Nat} {c : Char} (hc : c.isDigit = false)
    (cs : List Char) :
    (padded width n ++ c :: cs).takeWhile Char.isDigit = padded width n := by
  rw [List.takeWhile_append_of_pos fun _ => isDigit_of_mem_padded,
    List.takeWhile_cons_of_neg (by rw [hc]; exact Bool.false_ne_true), List.append_nil]

/-- Behind the digits at the front stands what follows the padded number. -/
theorem dropWhile_padded_append {width n : Nat} {c : Char} (hc : c.isDigit = false)
    (cs : List Char) : (padded width n ++ c :: cs).dropWhile Char.isDigit = c :: cs := by
  rw [List.dropWhile_append_of_pos fun _ => isDigit_of_mem_padded,
    List.dropWhile_cons_of_neg (by rw [hc]; exact Bool.false_ne_true)]

/-- No blank is in front of a padded number. -/
theorem trimStart_padded (width n : Nat) (cs : List Char) :
    Text.trimStart (padded width n ++ cs) = padded width n ++ cs := by
  obtain ⟨c, ds, hcons, hc⟩ := exists_padded_eq_cons width n
  rw [hcons, List.cons_append, Text.trimStart_cons (Text.isBlank_eq_false_of_isDigit hc)]

/-- A number that fits a width is read back from it, whatever stands behind. -/
theorem number?_padded (width : Nat) {n : Nat} (hwidth : 0 < width) (hn : n < 10 ^ width)
    (cs : List Char) : number? width (padded width n ++ cs) = some (n, cs) := by
  have hlength := length_padded hwidth hn
  have hdigits : ((padded width n ++ cs).take width).takeWhile Char.isDigit = padded width n := by
    rw [List.take_left' hlength]
    exact List.takeWhile_eq_self_iff.2 fun _ => isDigit_of_mem_padded
  have hdrop : (padded width n ++ cs).drop (padded width n).length = cs := List.drop_left
  have hne : (padded width n).isEmpty = false := by
    rw [List.isEmpty_eq_false_iff, ← List.length_pos_iff, hlength]
    exact hwidth
  simp only [number?, trimStart_padded, hdigits, hdrop, hne, ofDigitChars_padded,
    Bool.false_eq_true, if_false]

/-! ## Parts of a timestamp -/

/-- A year is read back from its text. -/
theorem year?_yearText (year : Int) (cs : List Char) :
    year? (yearText year ++ '-' :: cs) = some (year, '-' :: cs) := by
  have hsigned : ∀ n, year?.signed? (padded 4 n ++ '-' :: cs) = some (n, '-' :: cs) := by
    intro n
    obtain ⟨c, ds, hcons, -⟩ := exists_padded_eq_cons 4 n
    have hne : (padded 4 n).isEmpty = false := by rw [hcons]; rfl
    simp only [year?.signed?, takeWhile_padded_append (c := '-') (by decide),
      dropWhile_padded_append (c := '-') (by decide), hne, ofDigitChars_padded,
      Bool.false_eq_true, if_false]
  unfold yearText
  split
  · next hplain =>
    have hread := number?_padded 4 (n := year.toNat) (by decide) (by omega) ('-' :: cs)
    obtain ⟨c, ds, hcons, hc⟩ := exists_padded_eq_cons 4 year.toNat
    unfold year?
    rw [trimStart_padded]
    split
    · next hminus =>
      rw [hcons] at hminus
      cases hminus
      cases hc
    · next hplus =>
      rw [hcons] at hplus
      cases hplus
      cases hc
    · rw [hread, Option.bind_eq_bind, Option.bind_some]
      simp only [Int.toNat_of_nonneg hplain.1]
  · next hsign =>
    by_cases hneg : year < 0
    · rw [if_pos hneg, year?, List.cons_append, Text.trimStart_cons (by decide)]
      simp only [hsigned, Option.bind_eq_bind, Option.bind_some]
      congr 2
      omega
    · rw [if_neg hneg, year?, List.cons_append, Text.trimStart_cons (by decide)]
      simp only [hsigned, Option.bind_eq_bind, Option.bind_some]
      congr 2
      omega

/-- A sign that is no blank is read where it stands. -/
theorem sign?_self {c : Char} (hc : Text.isBlank c = false) (cs : List Char) :
    sign? c (c :: cs) = some cs := by
  rw [sign?, Text.trimStart_cons hc]
  exact if_pos rfl

/-- No month has more than 31 days. -/
theorem daysInMonth_le (year : Int) (month : Nat) : daysInMonth year month ≤ 31 := by
  unfold daysInMonth
  split
  · split <;> decide
  · split <;> decide

/-- A date within the calendar's years is read back from its text. -/
theorem date?_text {date : Date} (hyear : isCalendarYear date.year = true) {c : Char}
    (cs : List Char) :
    date? (yearText date.year ++ '-' :: (padded 2 date.month ++ '-' ::
      (padded 2 date.day ++ c :: cs))) = some (date, c :: cs) := by
  obtain ⟨hfirst, hlast, hday, hdays⟩ := date.exists_day
  have hmonth : date.month < 10 ^ 2 := by omega
  have hday' : date.day < 10 ^ 2 := by
    have := daysInMonth_le date.year date.month
    omega
  simp only [date?, year?_yearText, sign?_self (c := '-') (by decide),
    number?_padded 2 (by decide) hmonth, number?_padded 2 (by decide) hday',
    Option.bind_eq_bind, Option.bind_some]
  rw [dif_pos date.exists_day, if_pos hyear]

/-- A fraction of a second is read back from its text. -/
theorem fraction?_fractionText {nanosecond : Nat} (h : nanosecond < 1000000000) :
    fraction? (fractionText nanosecond ++ ['Z']) = some (nanosecond, ['Z']) := by
  -- some digits and the zeros that fill them up to nine
  have hdigits : ∀ (width n : Nat), 0 < width → width ≤ 9 → n < 10 ^ width →
      fraction? ('.' :: padded width n ++ ['Z']) = some (n * 10 ^ (9 - width), ['Z']) := by
    intro width n hwidth hnine hn
    obtain ⟨c, ds, hcons, -⟩ := exists_padded_eq_cons width n
    have hne : (padded width n).isEmpty = false := by rw [hcons]; rfl
    have htake : (padded width n ++ List.replicate 9 '0').take 9 =
        padded width n ++ List.replicate (9 - width) '0' := by
      rw [List.take_append, length_padded hwidth hn, List.take_of_length_le (by
        rw [length_padded hwidth hn]; exact hnine), List.take_replicate]
      congr 2
      omega
    rw [List.cons_append]
    simp only [fraction?, takeWhile_padded_append (c := 'Z') (by decide),
      dropWhile_padded_append (c := 'Z') (by decide), hne, htake, Bool.false_eq_true, if_false,
      Nat.ofDigitChars_append, ofDigitChars_padded, Nat.ofDigitChars_replicate_zero]
    rw [Nat.mul_comm]
  unfold fractionText
  split
  · next hzero =>
    rw [hzero]
    rfl
  split
  · rw [hdigits 3 _ (by decide) (by decide) (by omega)]
    congr 2
    omega
  split
  · rw [hdigits 6 _ (by decide) (by decide) (by omega)]
    congr 2
    omega
  · rw [hdigits 9 _ (by decide) (by decide) (by omega)]
    congr 2
    omega

/-! ## The whole text -/

/-- A moment of a calendar year is read back from its text. -/
theorem ofString?_text {t : Timestamp} (hyear : isCalendarYear t.date.year = true) :
    ofString? t.text = some t := by
  obtain ⟨hhour, hminute, hsecond, hnanosecond⟩ := t.exists_moment
  have htext : t.text.toList = yearText t.date.year ++ '-' :: (padded 2 t.date.month ++ '-' ::
      (padded 2 t.date.day ++ 'T' :: (padded 2 t.hour ++ ':' :: (padded 2 t.minute ++ ':' ::
        (padded 2 t.second ++ (fractionText t.nanosecond ++ ['Z'])))))) := by
    simp only [text, String.toList_ofList, List.append_assoc, List.cons_append]
  have hoffset : offset? (Text.trimStart ['Z']) = some (0, []) := by decide
  rw [ofString?, htext, date?_text hyear]
  simp only [Option.bind_eq_bind, Option.bind_some, true_or, if_true,
    number?_padded 2 (n := t.hour) (by decide) (by omega),
    number?_padded 2 (n := t.minute) (by decide) (by omega),
    number?_padded 2 (n := t.second) (by decide) (by omega),
    sign?_self (c := ':') (by decide), fraction?_fractionText hnanosecond, hoffset]
  rw [dif_pos t.exists_moment, inZone_zero]
  exact if_pos (by rw [hyear]; rfl)

/-- Only moments of calendar years are read. -/
theorem isCalendarYear_of_ofString? {s : String} {t : Timestamp} (h : ofString? s = some t) :
    isCalendarYear t.date.year = true := by
  simp only [ofString?, Option.bind_eq_bind] at h
  obtain ⟨⟨date, cs⟩, -, h⟩ := Option.bind_eq_some_iff.1 h
  split at h
  · split at h
    · obtain ⟨_, -, h⟩ := Option.bind_eq_some_iff.1 h
      obtain ⟨_, -, h⟩ := Option.bind_eq_some_iff.1 h
      obtain ⟨_, -, h⟩ := Option.bind_eq_some_iff.1 h
      obtain ⟨_, -, h⟩ := Option.bind_eq_some_iff.1 h
      obtain ⟨_, -, h⟩ := Option.bind_eq_some_iff.1 h
      obtain ⟨_, -, h⟩ := Option.bind_eq_some_iff.1 h
      obtain ⟨_, -, h⟩ := Option.bind_eq_some_iff.1 h
      split at h
      · split at h
        · next hread =>
          cases h
          exact (Bool.and_eq_true_iff.1 hread).2
        · cases h
      · cases h
    · cases h
  · cases h

end Timestamp

end SchemaDiagram
