import SchemaDiagram.Proofs.Document.Surroundings
import SchemaDiagram.Proofs.Markup.Words

/-!
# Reading known words

What a parser answers depends on the words ahead and not on their places. `Parser.Reads p ws vs Q`
says that `p`, in front of the words `ws`, reads a value with the property `Q` and stops in front of
the words `vs`, with no comment left over and nothing reported. There is one rule for each way to
build a parser, and a choice by the next words is decided by looking at `ws`.
-/

namespace SchemaDiagram.Document

namespace Cursor

/-- The cursor is in front of the words, with no comment waiting and nothing reported. -/
structure Faces (c : Cursor) (ws : List Word) : Prop where
  /-- The words ahead. -/
  words : c.rest.map CommentedToken.word = ws
  /-- No comment waits for a construct. -/
  pending : c.pending = []
  /-- Nothing is wrong so far. -/
  reported : c.reported = []

variable {c : Cursor} {w : Word} {ws : List Word}

/-- A cursor in front of a word has a token of that word next. -/
theorem Faces.exists_cons (h : c.Faces (w :: ws)) :
    ∃ t ts, c.rest = t :: ts ∧ t.word = w ∧ ts.map CommentedToken.word = ws :=
  List.map_eq_cons_iff.1 h.words

/-- The next kind is that of the first word. -/
theorem Faces.kind? (h : c.Faces ws) : c.kind? = ws.head?.map Word.kind := by
  unfold Cursor.kind?
  rw [← h.words, List.head?_map, Option.map_map]
  rfl

/-- The second kind is that of the second word. -/
theorem Faces.secondKind? (h : c.Faces ws) : c.secondKind? = ws.tail.head?.map Word.kind := by
  unfold Cursor.secondKind?
  rw [← h.words, ← List.map_tail, List.head?_map, Option.map_map]
  rfl

/-- Advancing moves behind the first word. -/
theorem Faces.advance (h : c.Faces (w :: ws)) (hw : w.comments = []) : c.advance.Faces ws := by
  obtain ⟨t, ts, hrest, rfl, hts⟩ := h.exists_cons
  have hcomments : t.comments = [] := hw
  refine ⟨?_, ?_, ?_⟩
  · simpa [Cursor.advance, hrest] using hts
  · simp [Cursor.advance, hrest, h.pending, hcomments]
  · simpa [Cursor.advance, hrest] using h.reported

/-- Advancing by several tokens moves behind as many words. -/
theorem Faces.advanceBy {us : List Word} (h : c.Faces (us ++ ws))
    (hus : ∀ w ∈ us, w.comments = []) : (c.advanceBy us.length).Faces ws := by
  induction us generalizing c with
  | nil => exact h
  | cons w us ih =>
    obtain ⟨hw, hus⟩ := List.forall_mem_cons.1 hus
    exact ih (h.advance hw) hus

/-- Handing over comments empties those of the first word. -/
theorem Faces.takeComments (h : c.Faces (w :: ws)) :
    c.takeComments.Faces ({ w with comments := [] } :: ws) := by
  obtain ⟨t, ts, hrest, rfl, hts⟩ := h.exists_cons
  refine ⟨?_, ?_, ?_⟩
  · simpa [Cursor.takeComments, hrest, CommentedToken.word] using hts
  · simp [Cursor.takeComments, hrest]
  · simpa [Cursor.takeComments, hrest] using h.reported

/-- The comments at hand are those of the first word. -/
theorem Faces.availableComments (h : c.Faces (w :: ws)) : c.availableComments = w.comments := by
  obtain ⟨t, ts, hrest, rfl, -⟩ := h.exists_cons
  simp [Cursor.availableComments, Cursor.commentsAhead, hrest, h.pending, CommentedToken.word]

end Cursor

/-- The token is the word at some place. -/
structure Word.IsOf (w : Word) (t : Token) : Prop where
  kind : t.kind = w.kind
  text : t.text = w.text

/-- A word's token has the word's value. -/
theorem Word.IsOf.value {w : Word} {t : Token} (h : w.IsOf t) : t.value = w.value := by
  unfold Token.value Word.value
  rw [h.kind, h.text]

/-- A token's word is that of the token. -/
theorem CommentedToken.isOf_word (t : CommentedToken) : t.word.IsOf t.token := ⟨rfl, rfl⟩

/-- Whether a word that is no keyword spells another one in any case. -/
def Word.spells (w : Word) (word : String) : Bool :=
  w.kind == .identifier && Text.spelledAlike w.text word

namespace Parser

variable {α β σ : Type} {p : Parser α} {f : α → Parser β} {w : Word} {ws us vs : List Word}
  {P : α → Prop} {Q : β → Prop}

/-- In front of the words `ws` the parser reads a value with the property `P` and stops in front of
the words `vs`. -/
def Reads (p : Parser α) (ws vs : List Word) (P : α → Prop) : Prop :=
  ∀ c : Cursor, c.Faces ws → ∃ a d, p.run c = .ok a d ∧ P a ∧ d.Faces vs

namespace Reads

/-! ## Sequences and repetition -/

/-- A returned value reads no words. -/
theorem pure {a : α} (h : P a) : (Pure.pure a : Parser α).Reads ws ws P :=
  fun c hc => ⟨a, c, rfl, h, hc⟩

/-- The property of what is read may be weakened. -/
theorem mono {P' : α → Prop} (h : p.Reads ws vs P) (hP : ∀ a, P a → P' a) : p.Reads ws vs P' := by
  intro c hc
  obtain ⟨a, d, hrun, ha, hd⟩ := h c hc
  exact ⟨a, d, hrun, hP a ha, hd⟩

/-- In sequence, the second parser reads the words that the first one leaves. -/
theorem bind (hp : p.Reads ws us P) (hf : ∀ a, P a → (f a).Reads us vs Q) :
    (p >>= f).Reads ws vs Q := by
  intro c hc
  obtain ⟨a, d, hrun, ha, hd⟩ := hp c hc
  obtain ⟨b, e, hrun', hb, he⟩ := hf a ha d hd
  exact ⟨b, e, by rw [run_bind, hrun]; exact hrun', hb, he⟩

/-- A step that goes on with a new state. -/
theorem iterate_next {step : σ → Parser (σ ⊕ α)} {h : ∀ s, (step s).Consumes} {s : σ}
    {S : σ → Prop} {v : List Word} (hstep : (step s).Reads ws v fun r => ∃ s', r = .inl s' ∧ S s')
    (hothers : ∀ s', S s' → (iterate step h s').Reads v vs P) :
    (iterate step h s).Reads ws vs P := by
  intro c hc
  obtain ⟨r, d, hrun, ⟨s', rfl, hs⟩, hd⟩ := hstep c hc
  obtain ⟨a, e, hrun', ha, he⟩ := hothers s' hs d hd
  exact ⟨a, e, by rw [run_iterate, hrun]; exact hrun', ha, he⟩

/-- A step that ends with a result. -/
theorem iterate_last {step : σ → Parser (σ ⊕ α)} {h : ∀ s, (step s).Consumes} {s : σ}
    (hstep : (step s).Reads ws vs fun r => ∃ a, r = .inr a ∧ P a) :
    (iterate step h s).Reads ws vs P := by
  intro c hc
  obtain ⟨r, d, hrun, ⟨a, rfl, ha⟩, hd⟩ := hstep c hc
  exact ⟨a, d, by rw [run_iterate, hrun], ha, hd⟩

/-! ## Single steps -/

/-- An accepted word is taken. -/
theorem take {accepts : Token → Bool} (expected : String)
    (h : ∀ t : Token, w.IsOf t → accepts t = true) (hw : w.comments = []) :
    (take accepts expected).Reads (w :: ws) ws w.IsOf := by
  intro c hc
  obtain ⟨t, ts, hrest, rfl, hts⟩ := hc.exists_cons
  refine ⟨t.token, c.advance, ?_, t.isOf_word, hc.advance hw⟩
  simp only [Parser.take, hrest]
  rw [if_pos (h t.token t.isOf_word)]

/-- A word of the expected kind is taken. -/
theorem expect {k : TokenKind} (hk : w.kind = k) (hw : w.comments = []) :
    (expect k).Reads (w :: ws) ws w.IsOf := by
  refine take _ (fun t ht => ?_) hw
  rw [beq_iff_eq, ht.kind, hk]

/-- Any word is taken where one of any kind is asked for. -/
theorem any (hw : w.comments = []) : any.Reads (w :: ws) ws w.IsOf := take _ (fun _ _ => rfl) hw

/-- A word of the optional kind is taken. -/
theorem accept {k : TokenKind} (hk : w.kind = k) (hw : w.comments = []) :
    (accept k).Reads (w :: ws) ws (· = true) := by
  intro c hc
  refine ⟨true, c.advance, ?_, rfl, hc.advance hw⟩
  simp only [Parser.accept]
  rw [if_pos (by rw [hc.kind?, List.head?_cons, Option.map_some, hk])]

/-- A token of another kind is left alone. -/
theorem accept_other {k : TokenKind} (hk : ws.head?.map Word.kind ≠ some k) :
    (Parser.accept k).Reads ws ws (· = false) := by
  intro c hc
  refine ⟨false, c, ?_, rfl, hc⟩
  simp only [Parser.accept]
  rw [if_neg (by rwa [hc.kind?])]

/-- What the tokens ahead show. -/
theorem ahead {view : List CommentedToken → α}
    (h : ∀ ts, ts.map CommentedToken.word = ws → P (view ts)) : (ahead view).Reads ws ws P :=
  fun c hc => ⟨view c.rest, c, rfl, h c.rest hc.words, hc⟩

/-- A word that is next is seen and left. -/
theorem isWord (word : String) :
    (Parser.ahead fun ts => ts.head?.any fun t => t.token.isWord word).Reads ws ws
      (· = ws.head?.any (Word.spells · word)) := by
  refine ahead fun ts hts => ?_
  rw [← hts]
  cases ts <;> rfl

/-- Words without comments are skipped. -/
theorem skip (hus : ∀ w ∈ us, w.comments = []) :
    (skip us.length).Reads (us ++ ws) ws fun _ => True :=
  fun c hc => ⟨(), c.advanceBy us.length, rfl, trivial, hc.advanceBy hus⟩

/-- The comments before the part are taken away and handed out. -/
theorem takingComments (h : p.Reads ({ w with comments := [] } :: ws) vs P) :
    p.takingComments.Reads (w :: ws) vs fun r => P r.1 ∧ r.2 = w.comments := by
  intro c hc
  obtain ⟨a, d, hrun, ha, hd⟩ := h _ hc.takeComments
  refine ⟨(a, c.availableComments), d, ?_, ⟨ha, hc.availableComments⟩, hd⟩
  simp only [Parser.takingComments, hrun]

/-! ## Choices by the next words -/

/-- What the next kind decides is decided by the first word. -/
theorem kind?_bind {f : Option TokenKind → Parser β}
    (h : (f (ws.head?.map Word.kind)).Reads ws vs Q) : (kind? >>= f).Reads ws vs Q := by
  intro c hc
  obtain ⟨b, d, hrun, hb, hd⟩ := h c hc
  refine ⟨b, d, ?_, hb, hd⟩
  show (f c.kind?).run c = _
  rw [hc.kind?]
  exact hrun

/-- What the second kind decides is decided by the second word. -/
theorem secondKind?_bind {f : Option TokenKind → Parser β}
    (h : (f (ws.tail.head?.map Word.kind)).Reads ws vs Q) : (secondKind? >>= f).Reads ws vs Q := by
  intro c hc
  obtain ⟨b, d, hrun, hb, hd⟩ := h c hc
  refine ⟨b, d, ?_, hb, hd⟩
  show (f c.secondKind?).run c = _
  rw [hc.secondKind?]
  exact hrun

/-- Whether a kind is next is decided by the first word. -/
theorem at?_bind {k : TokenKind} {f : Bool → Parser β}
    (h : (f (ws.head?.map Word.kind == some k)).Reads ws vs Q) : (at? k >>= f).Reads ws vs Q := by
  intro c hc
  obtain ⟨b, d, hrun, hb, hd⟩ := h c hc
  refine ⟨b, d, ?_, hb, hd⟩
  show (f (c.kind? == some k)).run c = _
  rw [hc.kind?]
  exact hrun

/-- Places make no difference. -/
theorem lastSpan_bind {f : Span → Parser β} (h : ∀ s, (f s).Reads ws vs Q) :
    (lastSpan >>= f).Reads ws vs Q := by
  intro c hc
  exact h c.last c hc

/-- Where the next token stands does not matter to what is read. -/
theorem nextSpan_bind {f : Span → Parser β} (h : ∀ s, (f s).Reads ws vs Q) :
    (nextSpan >>= f).Reads ws vs Q := by
  intro c hc
  obtain ⟨s, hs⟩ : ∃ s, nextSpan.run c = .ok s c := by
    unfold nextSpan
    cases hrest : c.rest with
    | nil => exact ⟨c.stop, by simp only [hrest]⟩
    | cons t ts => exact ⟨t.token.span, by simp only [hrest]⟩
  obtain ⟨b, d, hrun, hb, hd⟩ := h s c hc
  exact ⟨b, d, by rw [run_bind, hs]; exact hrun, hb, hd⟩

end Reads

end Parser

end SchemaDiagram.Document
