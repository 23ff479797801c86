import SchemaDiagram.Proofs.Token.MaximalMunch

/-!
# Where tokens stand

A place in a source text is what comes of walking over the characters in front of it
(`Position.IsIn`). Of two such places the one with fewer bytes in front of it is the one on the
earlier line, or farther left on the same line (`Position.Before`). The tokens of a text are ranges
between such places: none is empty, and each ends before the next one starts.

Main statement: `Token.inOrder_of_scan`.
-/

namespace SchemaDiagram

/-! ## Places -/

namespace Position

/-- The place is an earlier one, by bytes and by line and column. -/
def Before (p q : Position) : Prop :=
  p.offset < q.offset ∧ (p.line < q.line ∨ p.line = q.line ∧ p.column < q.column)

/-- The place is the same or an earlier one. -/
def NotAfter (p q : Position) : Prop := p = q ∨ p.Before q

/-- The place stands between two characters of a source text, or at one of its ends. -/
def IsIn (source : String) (p : Position) : Prop :=
  ∃ before after : List Char, source.toList = before ++ after ∧ p = .advance .start before

variable {p q r : Position}

/-- A place before one that is before a third is before the third. -/
theorem Before.trans (h : p.Before q) (k : q.Before r) : p.Before r := by
  unfold Before at *
  omega

/-- A place before another is not after it. -/
theorem Before.notAfter (h : p.Before q) : p.NotAfter q := Or.inr h

/-- No place is after itself. -/
theorem NotAfter.refl (p : Position) : p.NotAfter p := Or.inl rfl

/-- A place that is not after one before a third is before the third. -/
theorem NotAfter.trans_before (h : p.NotAfter q) (k : q.Before r) : p.Before r := by
  rcases h with rfl | h
  · exact k
  · exact h.trans k

/-- A place before one that is not after a third is before the third. -/
theorem Before.trans_notAfter (h : p.Before q) (k : q.NotAfter r) : p.Before r := by
  rcases k with rfl | k
  · exact h
  · exact h.trans k

/-- A place that is not after one that is not after a third is not after the third. -/
theorem NotAfter.trans (h : p.NotAfter q) (k : q.NotAfter r) : p.NotAfter r := by
  rcases h with rfl | h
  · exact k
  · exact (h.trans_notAfter k).notAfter

/-- A character leads to a later place, on its own line or the next one. -/
theorem before_next (p : Position) (c : Char) : p.Before (p.next c) := by
  have hsize := c.utf8Size_pos
  unfold next
  split
  · exact ⟨by simp only; omega, Or.inl (Nat.lt_succ_self _)⟩
  · exact ⟨by simp only; omega, Or.inr ⟨rfl, Nat.lt_succ_self _⟩⟩

/-- Advancing does not go back. -/
theorem notAfter_advance (p : Position) (cs : List Char) : p.NotAfter (p.advance cs) := by
  induction cs generalizing p with
  | nil => exact .refl p
  | cons c cs ih => exact ((p.before_next c).trans_notAfter (ih _)).notAfter

/-- Advancing over some text goes on. -/
theorem before_advance (p : Position) {cs : List Char} (h : cs ≠ []) : p.Before (p.advance cs) := by
  rcases cs with _ | ⟨c, cs⟩
  · exact absurd rfl h
  · exact (p.before_next c).trans_notAfter (notAfter_advance _ _)

end Position

/-! ## Ranges -/

namespace Span

/-- The range lies in a source text and is not empty. -/
structure IsIn (source : String) (s : Span) : Prop where
  /-- It starts at a place of the text. -/
  start : s.start.IsIn source
  /-- It ends at a place of the text. -/
  stop : s.stop.IsIn source
  /-- It ends later. -/
  before : s.start.Before s.stop

/-- The range ends before the other one starts, or right there. -/
def Before (s t : Span) : Prop := s.stop.NotAfter t.start

/-- The range starts later than the other one, and ends earlier. -/
def Inside (s t : Span) : Prop := t.start.Before s.start ∧ s.stop.Before t.stop

end Span

/-! ## Tokens -/

namespace Token

/-- Tokens that stand in a source text, each behind the ones before it. -/
structure InOrder (source : String) (ts : List Token) : Prop where
  /-- Each is a range of the text. -/
  isIn : ∀ t ∈ ts, t.span.IsIn source
  /-- They stand one behind the other. -/
  pairwise : ts.Pairwise fun t u => t.span.Before u.span

/-- Some of the tokens that are in order are in order. -/
theorem InOrder.sublist {source : String} {ts us : List Token} (h : InOrder source ts)
    (hsublist : us.Sublist ts) : InOrder source us :=
  ⟨fun t ht => h.isIn t (hsublist.subset ht), h.pairwise.sublist hsublist⟩

open Lexeme

/-- The tokens of pieces stand behind what was read before, one behind the other. -/
theorem pairwise_of_cutting {cs : List Char} {pieces : List Piece} (h : Cutting cs pieces)
    (p : Position) :
    (∀ t ∈ tokensOf p pieces, p.NotAfter t.span.start) ∧
      (tokensOf p pieces).Pairwise fun t u => t.span.Before u.span := by
  induction h generalizing p with
  | nil => exact ⟨List.forall_mem_singleton.2 (.refl p), List.pairwise_singleton _ _⟩
  | @cons piece rest pieces _ _ _ ih =>
    obtain ⟨_ | kind, w⟩ := piece
    · rw [tokensOf_skipped]
      obtain ⟨hbehind, hpairwise⟩ := ih (p.advance w)
      exact ⟨fun t ht => (p.notAfter_advance w).trans (hbehind t ht), hpairwise⟩
    · rw [tokensOf_kept]
      obtain ⟨hbehind, hpairwise⟩ := ih (p.advance w)
      refine ⟨List.forall_mem_cons.2 ⟨.refl p, fun t ht => ?_⟩, .cons hbehind hpairwise⟩
      exact (p.notAfter_advance w).trans (hbehind t ht)

/-- The token of a piece is a range of the text. -/
theorem isIn_of_cutting {source : String} {before cs : List Char} {pieces : List Piece}
    (h : Cutting cs pieces) (hsource : source.toList = before ++ cs) :
    ∀ t ∈ tokensOf (.advance .start before) pieces, t.kind ≠ .endOfInput →
      t.span.IsIn source := by
  induction h generalizing before with
  | nil =>
    intro t ht hend
    obtain rfl := List.mem_singleton.1 ht
    exact absurd rfl hend
  | @cons piece rest pieces _ readAs _ ih =>
    have hrest : source.toList = (before ++ piece.text) ++ rest := by
      rw [hsource, List.append_assoc]
    have hothers := ih hrest
    rw [Position.advance_append] at hothers
    obtain ⟨_ | kind, w⟩ := piece
    · exact hothers
    · rw [tokensOf_kept]
      refine List.forall_mem_cons.2
        ⟨fun _ => ⟨⟨_, _, hsource, rfl⟩, ⟨_, _, hrest, ?_⟩, ?_⟩, hothers⟩
      · rw [Position.advance_append]
      · exact Position.before_advance _ readAs.ne_nil

/-- The tokens of a source text in front of the end stand one behind the other. -/
theorem inOrder_of_scan {source : String} {ts us : List Token} (h : scan source = .ok ts)
    (hsublist : us.Sublist ts) (hend : ∀ t ∈ us, t.kind ≠ .endOfInput) : InOrder source us := by
  obtain ⟨pieces, hcutting, -, rfl⟩ := scan_eq_ok_iff.1 h
  refine ⟨fun t ht => ?_, (pairwise_of_cutting hcutting .start).2.sublist hsublist⟩
  exact isIn_of_cutting hcutting (List.nil_append _).symm t (hsublist.subset ht) (hend t ht)

end Token

end SchemaDiagram
