import SchemaDiagram.Source.Error
import SchemaDiagram.Text.Blank
import SchemaDiagram.Token.Basic

/-!
# Reading a token list from the front

Line comments never take part in the structure of a document, so each one is set before the next
token that does. A cursor holds what lies ahead, the comments that were passed and not yet filed
with a construct, and the diagnostics so far.

Main statement: `Cursor.Reaches` is a preorder that every step of the reading keeps. What lies ahead
is a part of the end of what lay ahead, no comment is made up, and diagnostics are only ever added.
-/

namespace SchemaDiagram

/-- The text of a line comment: its two slashes and the blank characters around it go. -/
def Token.commentText (t : Token) : String :=
  let cs := t.text.toList
  String.ofList (Text.trim (if cs.take 2 = ['/', '/'] then cs.drop 2 else cs))

namespace Document

/-- A token with the line comments directly before it. -/
structure CommentedToken where
  /-- The texts of the comments. -/
  comments : List String
  /-- The token, which is neither a comment nor the end of the document. -/
  token : Token
  deriving DecidableEq, Repr

/-- The tokens before the end of a document, with their comments, and the comments after the last
one. The first argument holds the comments since the last token. -/
def gatherComments (comments : List String) : List Token → List CommentedToken × List String
  | [] => ([], comments)
  | t :: ts =>
    if t.kind = .endOfInput then ([], comments)
    else if t.kind = .comment then gatherComments (comments ++ [t.commentText]) ts
    else
      let (others, trailing) := gatherComments [] ts
      (⟨comments, t⟩ :: others, trailing)

/-- Where a token list ends: at the token that marks the end of the document, or else behind the
last token. -/
def endSpan (ts : List Token) : Span :=
  match ts.find? fun t => t.kind = .endOfInput with
  | some t => t.span
  | none =>
    match ts.getLast? with
    | some t => .point t.span.stop
    | none => .point ⟨0, 0, 0⟩

/-- How far a token list has been read. -/
structure Cursor where
  /-- The tokens ahead, each with the comments before it that have not been passed. -/
  rest : List CommentedToken
  /-- The comments that were passed and not yet filed with a construct. -/
  pending : List String
  /-- The diagnostics so far. -/
  reported : List Diagnostic
  /-- The span of the token that was read last. -/
  last : Span
  /-- Where the document ends. -/
  stop : Span
  deriving DecidableEq, Repr

namespace Cursor

/-- The cursor before the first token. -/
def ofTokens (ts : List Token) : Cursor :=
  ⟨(gatherComments [] ts).1, [], [], .point ⟨0, 0, 0⟩, endSpan ts⟩

/-- The kind of the next token. -/
def kind? (c : Cursor) : Option TokenKind := c.rest.head?.map (·.token.kind)

/-- The kind of the token after the next one. -/
def secondKind? (c : Cursor) : Option TokenKind := c.rest.tail.head?.map (·.token.kind)

/-- Passes the next token; its comments become pending. -/
def advance (c : Cursor) : Cursor :=
  match c.rest with
  | [] => c
  | t :: others =>
    { c with rest := others, pending := c.pending ++ t.comments, last := t.token.span }

/-- Passes `n` tokens. -/
def advanceBy : Nat → Cursor → Cursor
  | 0, c => c
  | n + 1, c => advanceBy n c.advance

/-- Adds a diagnostic. -/
def report (d : Diagnostic) (c : Cursor) : Cursor := { c with reported := c.reported ++ [d] }

/-- The comments before the next token. -/
def commentsAhead (c : Cursor) : List String :=
  match c.rest with
  | [] => []
  | t :: _ => t.comments

/-- The comments for a construct that starts with the next token. -/
def availableComments (c : Cursor) : List String := c.pending ++ c.commentsAhead

/-- Takes the available comments away. -/
def takeComments (c : Cursor) : Cursor :=
  match c.rest with
  | [] => { c with pending := [] }
  | t :: others => { c with rest := { t with comments := [] } :: others, pending := [] }

/-- Gives comments back, in front of all that were passed since. -/
def restore (comments : List String) (c : Cursor) : Cursor :=
  { c with pending := comments ++ c.pending }

/-- The diagnostic for a next token that cannot stand here. -/
def unexpected (expected : String) (c : Cursor) : Diagnostic :=
  match c.rest with
  | [] => .unexpectedEnd expected c.stop
  | t :: _ => .unexpectedToken expected t.token.found t.token.span

/-! ## Reading only moves forward -/

/-- The tokens ahead without their comments. -/
def tokens (c : Cursor) : List Token := c.rest.map (·.token)

/-- The comments that wait for a construct or lie ahead. -/
def comments (c : Cursor) : List String := c.pending ++ c.rest.flatMap (·.comments)

/-- A cursor that reading can reach from another one. -/
structure Reaches (c d : Cursor) : Prop where
  /-- What lies ahead is a part of the end of what lay ahead. -/
  suffix : d.tokens <:+ c.tokens
  /-- Every comment was there before. -/
  comments : d.comments ⊆ c.comments
  /-- Diagnostics are only added. -/
  reported : c.reported <+: d.reported
  /-- The document ends where it ended. -/
  stop : d.stop = c.stop

/-- Reading that has not moved has reached where it was. -/
theorem Reaches.refl (c : Cursor) : c.Reaches c :=
  ⟨List.suffix_refl _, List.Subset.refl _, List.prefix_refl _, rfl⟩

/-- Reading that goes on from a place it has reached has reached the next one too. -/
theorem Reaches.trans {c d e : Cursor} (h : c.Reaches d) (k : d.Reaches e) : c.Reaches e :=
  ⟨k.suffix.trans h.suffix, List.Subset.trans k.comments h.comments, h.reported.trans k.reported,
    k.stop.trans h.stop⟩

/-- No more tokens lie ahead than before. -/
theorem Reaches.length_le {c d : Cursor} (h : c.Reaches d) : d.rest.length ≤ c.rest.length := by
  simpa [tokens] using h.suffix.length_le

/-- Passing a token moves forward. -/
theorem reaches_advance (c : Cursor) : c.Reaches c.advance := by
  unfold advance
  split
  · exact .refl c
  · next h =>
    exact ⟨by simp [tokens, h], by simp [comments, h], List.prefix_refl _, rfl⟩

/-- Passing any number of tokens moves forward. -/
theorem reaches_advanceBy (n : Nat) (c : Cursor) : c.Reaches (advanceBy n c) := by
  induction n generalizing c with
  | zero => exact .refl c
  | succ n ih => exact (reaches_advance c).trans (ih c.advance)

/-- Reporting passes nothing and adds a diagnostic. -/
theorem reaches_report (d : Diagnostic) (c : Cursor) : c.Reaches (c.report d) :=
  ⟨List.suffix_refl _, List.Subset.refl _, List.prefix_append _ _, rfl⟩

/-- Taking comments away passes no token and makes up no comment. -/
theorem reaches_takeComments (c : Cursor) : c.Reaches c.takeComments := by
  unfold takeComments
  split
  · next h => exact ⟨List.suffix_refl _, by simp [comments, h], List.prefix_refl _, rfl⟩
  · next t others h =>
    refine ⟨by simp [tokens, h], ?_, List.prefix_refl _, rfl⟩
    have hothers : others.flatMap (·.comments) ⊆ c.rest.flatMap (·.comments) := by
      rw [h, List.flatMap_cons]
      exact List.subset_append_right _ _
    simpa [comments] using List.subset_append_of_subset_right c.pending hothers

/-- Passing a token reports nothing. -/
theorem reported_advance (c : Cursor) : c.advance.reported = c.reported := by
  unfold advance
  split <;> rfl

/-- Passing any number of tokens reports nothing. -/
theorem reported_advanceBy (n : Nat) (c : Cursor) : (c.advanceBy n).reported = c.reported := by
  induction n generalizing c with
  | zero => rfl
  | succ n ih => rw [advanceBy, ih, reported_advance]

/-- Taking comments away reports nothing. -/
theorem reported_takeComments (c : Cursor) : c.takeComments.reported = c.reported := by
  unfold takeComments
  split <;> rfl

/-- The comments for a construct are among those that wait or lie ahead. -/
theorem availableComments_subset (c : Cursor) : c.availableComments ⊆ c.comments := by
  unfold availableComments commentsAhead comments
  cases c.rest <;> simp

/-- Comments that were there before can be given back. -/
theorem Reaches.restore {c d : Cursor} (h : c.Reaches d) {comments : List String}
    (hcomments : comments ⊆ c.comments) : c.Reaches (d.restore comments) := by
  refine ⟨h.suffix, ?_, h.reported, h.stop⟩
  unfold Cursor.comments Cursor.restore
  rw [List.append_assoc]
  exact List.append_subset.2 ⟨hcomments, h.comments⟩

/-- Passing a token leaves fewer tokens ahead, if there is one. -/
theorem length_advance_lt {c : Cursor} (h : c.rest ≠ []) :
    c.advance.rest.length < c.rest.length := by
  unfold advance
  split
  · contradiction
  · next hr => simp [hr]

end Cursor

end Document

end SchemaDiagram
