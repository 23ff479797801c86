import Mathlib.Data.List.DropRight
import SchemaDiagram.Proofs.Token.Lines
import SchemaDiagram.Source.LineIndex

/-!
# Looking up is counting

At every boundary between characters a line index finds the place that counting gives: the line
feeds in front of it are counted for its line, the characters behind the last one for its column.
That is the place where walking over the text in front comes to, so the index and the scanner agree
on the range of every token. No other offset has a place.

Main statements: `LineIndex.position?_eq_some_iff`, the places that are found are those that walking
comes to, `LineIndex.position?_counted`, they are the counted ones and are in the order of their
offsets, and `LineIndex.span?_of_scan` for the tokens. The search among the line starts is by
induction along the halving; that the last start in front of a boundary is that of its line is by
induction on the text from its end.
-/

namespace SchemaDiagram

/-! ## Halving -/

section Halving

variable {α : Type} {test : α → Bool}

/-- The border stays between `first` and `last` while the elements in front of it pass and those
behind it do not. -/
theorem partitionPoint_eq {xs : Array α} {border first last : Nat} (h : last ≤ xs.size)
    (hfirst : first ≤ border) (hlast : border ≤ last)
    (hfront : ∀ (i : Nat) (hi : i < xs.size), i < border → test xs[i] = true)
    (hback : ∀ (i : Nat) (hi : i < xs.size), border ≤ i → test xs[i] = false) :
    partitionPoint test xs first last h = border := by
  fun_induction partitionPoint test xs first last h with
  | case1 first last h hlt middle hpass ih =>
    refine ih ?_ hlast
    by_contra hgt
    have hfail := hback middle (by omega) (by omega)
    rw [hpass] at hfail
    exact absurd hfail (by decide)
  | case2 first last h hlt middle hfail ih =>
    refine ih hfirst ?_
    by_contra hgt
    exact hfail (hfront middle (by omega) (by omega))
  | case3 first last h hge => omega

/-- If the elements that pass come first, they are counted. -/
theorem partitionPoint_of_append {xs : Array α} {front back : List α}
    (h : xs.toList = front ++ back) (hfront : ∀ x ∈ front, test x = true)
    (hback : ∀ x ∈ back, test x = false) :
    partitionPoint test xs 0 xs.size (Nat.le_refl _) = front.length := by
  have hsize : xs.size = front.length + back.length := by
    rw [← Array.length_toList, h, List.length_append]
  have helement : ∀ (i : Nat) (hi : i < xs.size), xs[i]? = (front ++ back)[i]? := by
    intro i _
    rw [← h, Array.getElem?_toList]
  refine partitionPoint_eq _ (Nat.zero_le _) (by omega) ?_ ?_
  · intro i hi hlt
    have hmem := helement i hi
    rw [List.getElem?_append_left hlt, Array.getElem?_eq_getElem hi] at hmem
    exact hfront _ (List.mem_of_getElem? hmem.symm)
  · intro i hi hge
    have hmem := helement i hi
    rw [List.getElem?_append_right hge, Array.getElem?_eq_getElem hi] at hmem
    exact hback _ (List.mem_of_getElem? hmem.symm)

end Halving

/-! ## Text between offsets -/

section Offsets

variable {source : String}

/-- A position is found at an offset exactly if it has that offset. -/
theorem pos?_eq_some_iff {offset : String.Pos.Raw} {o : source.Pos} :
    source.pos? offset = some o ↔ o.offset = offset := by
  unfold String.pos? String.Slice.pos?
  constructor
  · intro h
    obtain ⟨q, hq, rfl⟩ := Option.map_eq_some_iff.1 h
    split at hq
    · cases hq
      rfl
    · cases hq
  · rintro rfl
    have hvalid : o.offset.isValidForSlice source.toSlice = true :=
      String.Pos.Raw.isValidForSlice_eq_true_iff.2 o.toSlice.isValidForSlice
    rw [dif_pos hvalid]
    rfl

/-- A text is found between two offsets exactly if it stands there in the source. -/
theorem textBetween?_eq_some_iff {first last : Nat} {text : String} :
    textBetween? source first last = some text ↔
      ∃ front back, source = front ++ text ++ back ∧
        front.utf8ByteSize = first ∧ (front ++ text).utf8ByteSize = last := by
  simp only [textBetween?, Option.bind_eq_bind, Option.bind_eq_some_iff, Option.pure_def,
    Option.some.injEq, pos?_eq_some_iff, String.slice?, Option.dite_none_right_eq_some]
  constructor
  · rintro ⟨start, hstart, stop, hstop, slice, ⟨hle, rfl⟩, hcopy⟩
    obtain ⟨front, back, hbefore, hthrough⟩ := String.copy_slice_eq_iff_splits.1 ⟨hle, hcopy⟩
    refine ⟨front, back, hthrough.eq_append, ?_, ?_⟩
    · rw [← String.byteIdx_rawEndPos, ← hbefore.offset_eq_rawEndPos, hstart]
    · rw [← String.byteIdx_rawEndPos, ← hthrough.offset_eq_rawEndPos, hstop]
  · rintro ⟨front, back, h, rfl, rfl⟩
    have hbefore := String.Pos.splits_ofEqAppend (h.trans (String.append_assoc ..))
    have hthrough := String.Pos.splits_ofEqAppend h
    obtain ⟨hle, hcopy⟩ := String.copy_slice_eq_iff_splits.2 ⟨_, _, hbefore, hthrough⟩
    exact ⟨_, hbefore.offset_eq_rawEndPos, _, hthrough.offset_eq_rawEndPos, _, ⟨hle, rfl⟩, hcopy⟩

/-- A character in front adds its size to a text's length. -/
theorem utf8ByteSize_ofList_cons (c : Char) (cs : List Char) :
    (String.ofList (c :: cs)).utf8ByteSize = c.utf8Size + (String.ofList cs).utf8ByteSize := by
  rw [String.ofList_cons, String.utf8ByteSize_append, String.utf8ByteSize_singleton]

end Offsets

/-! ## Counting -/

namespace Position

/-- The place at a boundary of a text, by counting the line feeds in front of it and the characters
behind the last of them. -/
def counted {source : String} (o : source.Pos) : Position :=
  let before := (source.sliceTo o).copy.toList
  ⟨1 + before.count '\n', 1 + (before.rtakeWhile (· ≠ '\n')).length, o.offset.byteIdx⟩

/-- The column behind a text is counted from its last line feed. -/
theorem column_start_advance (cs : List Char) :
    (Position.start.advance cs).column = 1 + (cs.rtakeWhile (· ≠ '\n')).length := by
  induction cs using List.reverseRecOn with
  | nil => rfl
  | append_singleton cs c ih =>
    rw [advance_append, advance_cons, advance_nil, next]
    split
    · next h =>
      rw [List.rtakeWhile_concat_neg _ _ _ (by simpa using h)]
      rfl
    · next h =>
      rw [List.rtakeWhile_concat_pos _ _ _ (by simpa using h), List.length_append, ← Nat.add_assoc,
        ← ih]
      rfl

/-- Walking over a text counts its lines, the characters of the last one, and the bytes. -/
theorem start_advance_eq (cs : List Char) :
    Position.start.advance cs =
      ⟨1 + cs.count '\n', 1 + (cs.rtakeWhile (· ≠ '\n')).length,
        (String.ofList cs).utf8ByteSize⟩ := by
  rw [← column_start_advance, ← Lexeme.offset_start_advance]
  have hline : (Position.start.advance cs).line = 1 + cs.count '\n' := line_advance .start cs
  rw [← hline]

variable {source : String}

/-- Counting gives the place that walking comes to. -/
theorem counted_eq_advance (o : source.Pos) :
    counted o = Position.start.advance (source.sliceTo o).copy.toList := by
  rw [start_advance_eq, String.ofList_toList, ← String.byteIdx_rawEndPos,
    ← o.splits.offset_eq_rawEndPos]
  rfl

/-- The places of a text are those of its boundaries. -/
theorem isIn_iff_exists_counted {p : Position} :
    p.IsIn source ↔ ∃ o : source.Pos, counted o = p := by
  constructor
  · rintro ⟨before, after, h, rfl⟩
    have happend : source = String.ofList before ++ String.ofList after := by
      rw [← String.ofList_append, ← h, String.ofList_toList]
    refine ⟨.ofEqAppend happend, ?_⟩
    rw [counted_eq_advance, (String.Pos.splits_ofEqAppend happend).copy_sliceTo_eq,
      String.toList_ofList]
  · rintro ⟨o, rfl⟩
    refine ⟨(source.sliceTo o).copy.toList, (source.sliceFrom o).copy.toList, ?_,
      counted_eq_advance o⟩
    rw [← String.toList_append, ← o.splits.eq_append]

/-- Of two boundaries the first one is counted to the earlier place. -/
theorem counted_before {o q : source.Pos} (h : o < q) : (counted o).Before (counted q) := by
  obtain ⟨text, hne, htext, -⟩ := (o.splits.lt_iff_exists_eq_append q.splits).1 h
  rw [counted_eq_advance, counted_eq_advance, htext, String.toList_append, advance_append]
  exact before_advance _ (mt String.toList_eq_nil_iff.1 hne)

variable {p q : Position}

/-- A place before another compares as less. -/
theorem Before.compare_eq_lt (h : p.Before q) : p.compare q = .lt := by
  rw [compare]
  rcases h.2 with hline | ⟨hline, hcolumn⟩
  · rw [compare_lt_iff_lt.2 hline]
    rfl
  · rw [hline, compare_eq_iff_eq.2 rfl, compare_lt_iff_lt.2 hcolumn]
    rfl

/-- Comparing the other way round gives the opposite. -/
theorem swap_compare (p q : Position) : (p.compare q).swap = q.compare p := by
  rw [compare, Ordering.swap_then, Ordering.swap_then, Nat.compare_swap, Nat.compare_swap,
    Nat.compare_swap]
  rfl

/-- A place compares as equal to itself. -/
theorem compare_self (p : Position) : p.compare p = .eq := by
  rw [compare, compare_eq_iff_eq.2 rfl, compare_eq_iff_eq.2 rfl, compare_eq_iff_eq.2 rfl]
  rfl

/-- Boundaries are in one order by their places and by their offsets. -/
theorem compare_counted (o q : source.Pos) :
    (counted o).compare (counted q) = Ord.compare o.offset.byteIdx q.offset.byteIdx := by
  rcases lt_trichotomy o.offset.byteIdx q.offset.byteIdx with h | h | h
  · rw [(counted_before h).compare_eq_lt, compare_lt_iff_lt.2 h]
  · rw [String.Pos.ext (String.Pos.Raw.ext h), compare_self, compare_eq_iff_eq.2 rfl]
  · rw [← swap_compare, (counted_before h).compare_eq_lt, compare_gt_iff_gt.2 h]
    rfl

/-- No two boundaries are in one column of one line. -/
theorem eq_of_counted {o q : source.Pos} (hline : (counted o).line = (counted q).line)
    (hcolumn : (counted o).column = (counted q).column) : o = q := by
  have hnot : ∀ {p q : Position}, p.line = q.line → p.column = q.column → ¬ p.Before q := by
    rintro p q hline hcolumn ⟨-, h⟩
    omega
  rcases lt_trichotomy o.offset.byteIdx q.offset.byteIdx with h | h | h
  · exact absurd (counted_before h) (hnot hline hcolumn)
  · exact String.Pos.ext (String.Pos.Raw.ext h)
  · exact absurd (counted_before h) (hnot hline.symm hcolumn.symm)

end Position

/-! ## Line starts -/

namespace LineIndex

/-- The line feeds of two texts are those of one and, further on, of the other. -/
theorem behindNewlines_append (offset : Nat) (xs ys : List Char) :
    behindNewlines offset (xs ++ ys) =
      behindNewlines offset xs ++
        behindNewlines (offset + (String.ofList xs).utf8ByteSize) ys := by
  induction xs generalizing offset with
  | nil => simp [behindNewlines]
  | cons c xs ih =>
    rw [List.cons_append, behindNewlines, behindNewlines, ih, utf8ByteSize_ofList_cons,
      Nat.add_assoc]
    split <;> rfl

/-- There are as many line starts behind line feeds as there are line feeds. -/
theorem length_behindNewlines (offset : Nat) (cs : List Char) :
    (behindNewlines offset cs).length = cs.count '\n' := by
  induction cs generalizing offset with
  | nil => rfl
  | cons c cs ih =>
    rw [behindNewlines]
    split
    · next h => rw [h, List.length_cons, ih, List.count_cons_self]
    · next h => rw [ih, List.count_cons_of_ne h]

/-- Lines that start in a text start behind its first character, and at its end at the latest. -/
theorem of_mem_behindNewlines {offset start : Nat} {cs : List Char}
    (h : start ∈ behindNewlines offset cs) :
    offset < start ∧ start ≤ offset + (String.ofList cs).utf8ByteSize := by
  induction cs generalizing offset with
  | nil => cases h
  | cons c cs ih =>
    have hsize := c.utf8Size_pos
    rw [utf8ByteSize_ofList_cons]
    rw [behindNewlines] at h
    split at h
    · rcases List.mem_cons.1 h with rfl | h
      · omega
      · have hothers := ih h
        omega
    · have hothers := ih h
      omega

/-- The last line starts behind the last line feed. -/
theorem getLast?_behindNewlines (cs : List Char) :
    (0 :: behindNewlines 0 cs).getLast? =
      some (String.ofList (cs.rdropWhile (· ≠ '\n'))).utf8ByteSize := by
  induction cs using List.reverseRecOn with
  | nil => rfl
  | append_singleton cs c ih =>
    rw [behindNewlines_append, Nat.zero_add, ← List.cons_append]
    by_cases h : c = '\n'
    · rw [List.rdropWhile_concat_neg _ _ _ (by simpa using h), h, behindNewlines, if_pos rfl,
        behindNewlines, List.getLast?_concat, String.ofList_append, String.utf8ByteSize_append]
      rfl
    · rw [List.rdropWhile_concat_pos _ _ _ (by simpa using h), behindNewlines, if_neg h,
        behindNewlines, List.append_nil, ih]

/-! ## Places -/

variable {source : String} {before after : List Char}

/-- At a boundary the line starts in front of it come first, then those behind it. -/
theorem starts_of_append (h : source.toList = before ++ after) :
    (ofText source).starts.toList =
      (0 :: behindNewlines 0 before) ++
        behindNewlines (String.ofList before).utf8ByteSize after := by
  rw [ofText, h, behindNewlines_append, Nat.zero_add, List.cons_append]

/-- The lines that start up to a boundary are as many as counting finds. -/
theorem partitionPoint_starts (h : source.toList = before ++ after) :
    partitionPoint (fun start => decide (start ≤ (String.ofList before).utf8ByteSize))
      (ofText source).starts 0 (ofText source).starts.size (Nat.le_refl _) =
        before.count '\n' + 1 := by
  rw [partitionPoint_of_append (starts_of_append h), List.length_cons, length_behindNewlines]
  · intro start hstart
    rcases List.mem_cons.1 hstart with rfl | hstart
    · exact decide_eq_true (Nat.zero_le _)
    · have hle := (of_mem_behindNewlines hstart).2
      rw [Nat.zero_add] at hle
      exact decide_eq_true hle
  · intro start hstart
    exact decide_eq_false (Nat.not_le.2 (of_mem_behindNewlines hstart).1)

/-- The last of them starts behind the last line feed. -/
theorem starts_getElem? (h : source.toList = before ++ after) :
    (ofText source).starts[before.count '\n']? =
      some (String.ofList (before.rdropWhile (· ≠ '\n'))).utf8ByteSize := by
  rw [← Array.getElem?_toList, starts_of_append h,
    List.getElem?_append_left (by simp [length_behindNewlines]), ← getLast?_behindNewlines,
    List.getLast?_eq_getElem?, List.length_cons, length_behindNewlines, Nat.add_sub_cancel]

/-- Looking up a boundary finds the place where walking comes to. -/
theorem position?_of_append (h : source.toList = before ++ after) :
    (ofText source).position? (Position.start.advance before).offset =
      some (.advance .start before) := by
  have htext : textBetween? source (String.ofList (before.rdropWhile (· ≠ '\n'))).utf8ByteSize
      (String.ofList before).utf8ByteSize =
        some (String.ofList (before.rtakeWhile (· ≠ '\n'))) := by
    refine textBetween?_eq_some_iff.2 ⟨_, String.ofList after, ?_, rfl, ?_⟩
    · rw [← String.ofList_append, ← String.ofList_append, List.rdropWhile_append_rtakeWhile, ← h,
        String.ofList_toList]
    · rw [← String.ofList_append, List.rdropWhile_append_rtakeWhile]
  rw [Lexeme.offset_start_advance, position?, partitionPoint_starts h]
  simp only [starts_getElem? h]
  rw [Position.start_advance_eq, Nat.add_comm 1, Nat.add_comm 1]
  show (textBetween? source _ _).bind _ = _
  rw [htext]
  simp

/-- The places that are found are those of the text. -/
theorem position?_eq_some_iff {offset : Nat} {p : Position} :
    (ofText source).position? offset = some p ↔ p.IsIn source ∧ p.offset = offset := by
  constructor
  · intro h
    -- The text that was counted ends at the offset, so the offset is a boundary.
    have hboundary : ∃ before after, source.toList = before ++ after ∧
        (Position.start.advance before).offset = offset := by
      rw [position?] at h
      split at h
      · cases h
      · obtain ⟨lineStart, -, h⟩ := Option.bind_eq_some_iff.1 h
        obtain ⟨text, htext, -⟩ := Option.bind_eq_some_iff.1 h
        obtain ⟨front, back, hsource, -, hoffset⟩ := textBetween?_eq_some_iff.1 htext
        refine ⟨(front ++ text).toList, back.toList, ?_, ?_⟩
        · rw [← String.toList_append, ← hsource, ofText]
        · rw [Lexeme.offset_start_advance, String.ofList_toList, hoffset]
    obtain ⟨before, after, hsource, rfl⟩ := hboundary
    rw [position?_of_append hsource] at h
    cases h
    exact ⟨⟨before, after, hsource, rfl⟩, rfl⟩
  · rintro ⟨⟨before, after, h, rfl⟩, rfl⟩
    exact position?_of_append h

/-- Every boundary of a text is found, at the place that counting gives. What is found is where
walking over the text comes to, so there is nothing off the boundaries. The places are in the order
of their offsets, and line and column tell them apart. -/
theorem position?_counted (source : String) :
    (∀ o : source.Pos, (ofText source).position? o.offset.byteIdx = some (.counted o)) ∧
      (∀ offset p, (ofText source).position? offset = some p ↔
        p.IsIn source ∧ p.offset = offset) ∧
      ∀ o q : source.Pos,
        (Position.counted o).compare (.counted q) =
            compare o.offset.byteIdx q.offset.byteIdx ∧
          ((Position.counted o).line = (Position.counted q).line →
            (Position.counted o).column = (Position.counted q).column → o = q) := by
  refine ⟨fun o => ?_, fun offset p => position?_eq_some_iff, fun o q => ⟨?_, ?_⟩⟩
  · exact position?_eq_some_iff.2 ⟨Position.isIn_iff_exists_counted.2 ⟨o, rfl⟩, rfl⟩
  · exact Position.compare_counted o q
  · exact Position.eq_of_counted

/-- At a line feed, behind it, at the end behind another one, and inside a character. -/
example : [2, 3, 4, 5, 1].map (ofText "é\nb\n").position? =
    [some ⟨1, 2, 2⟩, some ⟨2, 1, 3⟩, some ⟨2, 2, 4⟩, some ⟨3, 1, 5⟩, none] := by cbv

/-! ## Ranges of tokens -/

open Lexeme in
/-- Tokens stand between places of the text, the one that ends it too. -/
theorem isIn_of_mem_scan {ts : List Token} (h : Token.scan source = .ok ts) :
    ∀ t ∈ ts, t.span.start.IsIn source ∧ t.span.stop.IsIn source := by
  obtain ⟨pieces, hcutting, -, rfl⟩ := Token.scan_eq_ok_iff.1 h
  intro t ht
  by_cases hend : t.kind = .endOfInput
  · rw [tokensOf_eq] at ht
    rcases List.mem_append.1 ht with ht | ht
    · exact absurd hend (Token.kind_ne_endOfInput_of_mem_keptFrom hcutting .start t ht)
    · obtain rfl := List.mem_singleton.1 ht
      have hin : (Position.start.advance (textOf pieces)).IsIn source :=
        ⟨_, [], by rw [hcutting.textOf_eq, List.append_nil], rfl⟩
      exact ⟨hin, hin⟩
  · have hin := Token.isIn_of_cutting hcutting (List.nil_append _).symm t ht hend
    exact ⟨hin.start, hin.stop⟩

/-- The range of every token is the one that its offsets are looked up to. -/
theorem span?_of_scan {ts : List Token} (h : Token.scan source = .ok ts) :
    ∀ t ∈ ts, (ofText source).span? t.span.start.offset t.span.stop.offset = some t.span := by
  intro t ht
  obtain ⟨hstart, hstop⟩ := isIn_of_mem_scan h t ht
  rw [span?, position?_eq_some_iff.2 ⟨hstart, rfl⟩, position?_eq_some_iff.2 ⟨hstop, rfl⟩]
  rfl

open Lexeme in
/-- The place of an error is the one that its offset is looked up to. -/
theorem position?_of_scan_error {e : SourceError} {p : Position} (h : Token.scan source = .error e)
    (hp : e.position? = some p) : (ofText source).position? p.offset = some p := by
  obtain ⟨pieces, rest, hcutsOff, -, hreported⟩ := Token.scan_eq_error_iff.1 h
  obtain rfl := Option.some.inj (hreported.position?_eq.symm.trans hp)
  exact position?_of_append hcutsOff.append_eq.symm

end LineIndex

end SchemaDiagram
