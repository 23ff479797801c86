import SchemaDiagram.Document.Block
import SchemaDiagram.Proofs.Markup.Columns

/-!
# Blocks in markup

What the blocks of the markup have in common: the line that opens a block, the line that closes it,
lines with a quoted value, and the rules by which the entries between the braces are read one after
another.
-/

namespace SchemaDiagram.Document

open Lexeme

variable {σ : Type} {comments : List String} {rest : List Char} {ws us vs : List Word}

/-! ## Lines of a block -/

/-- The line that opens the block of a construct, from its keyword to the brace. -/
theorem Lexes.opening {apply : σ → SettingKey → Parser (Option σ)} (keyword : String)
    (hkeyword : isLetters keyword = true) (n : String) (es : List (Entry apply))
    (h : Lexes [] rest ws) :
    Lexes comments ((Markup.line 0 (keyword ++ " " ++ Markup.name n ++
        Markup.settings (es.map Entry.text) ++ " \x7b")).toList ++ rest)
      ({ letterWord keyword with comments } :: nameWord n ::
        (settingsWords es ++ markWord .leftBrace :: ws)) := by
  have hbrace : Lexes [] (' ' :: '{' :: '\n' :: rest) (markWord .leftBrace :: ws) :=
    (Lexes.mark .leftBrace (by decide) (h.space rfl)).space rfl
  have hsettings := Lexes.settings es hbrace
  obtain ⟨c, others, hothers, hc⟩ := separated_settings (es.map Entry.text)
    (separated_cons (c := ' ') ('{' :: '\n' :: rest) rfl)
  rw [hothers] at hsettings
  have hname : Lexes [] _ _ := Lexes.name n (continuesWord_of_separates hc) hsettings
  rw [← hothers] at hname
  have hword : Lexes comments _ _ :=
    Lexes.letters (mem_word_of_isLetters hkeyword) (c := ' ') rfl (hname.space rfl)
  rw [String.ofList_toList] at hword
  have hchars : (keyword ++ " " ++ Markup.name n ++ Markup.settings (es.map Entry.text) ++
        " \x7b").toList ++ '\n' :: rest =
      keyword.toList ++ ' ' :: ((Markup.name n).toList ++
        ((Markup.settings (es.map Entry.text)).toList ++ ' ' :: '{' :: '\n' :: rest)) := by
    simp
  refine Lexes.line 0 ?_
  rw [hchars]
  exact hword

/-- Texts one after another have their words one after another. -/
theorem Lexes.join {ι : Type} (text : ι → String) (words : ι → List Word) (xs : List ι)
    (hxs : ∀ x ∈ xs, ∀ {rest : List Char} {ws : List Word}, Lexes [] rest ws →
      Lexes [] ((text x).toList ++ rest) (words x ++ ws))
    (h : Lexes [] rest ws) :
    Lexes [] ((String.join (xs.map text)).toList ++ rest) (xs.flatMap words ++ ws) := by
  induction xs with
  | nil => exact h
  | cons x xs ih =>
    obtain ⟨hx, hxs⟩ := List.forall_mem_cons.1 hxs
    rw [List.map_cons, String.join_cons, String.toList_append, List.append_assoc,
      List.flatMap_cons, List.append_assoc]
    exact hx (ih hxs)

/-- The line that closes a block. -/
theorem Lexes.closing (depth : Nat) (h : Lexes [] rest ws) :
    Lexes [] ((Markup.line depth "\x7d").toList ++ rest) (markWord .rightBrace :: ws) := by
  refine Lexes.line depth ?_
  have hchars : "\x7d".toList = ['}'] := by simp
  rw [hchars]
  exact Lexes.mark .rightBrace (by decide) (h.space rfl)

/-- The words of a line with a key and a quoted text. -/
def lineWords (key text : String) : List Word :=
  [letterWord key, markWord .colon, quotedWord .double text]

/-- The words of a line with a key and a quoted text, if there is a text. -/
def lineWords? (key : String) : Option String → List Word
  | some text => lineWords key text
  | none => []

/-- A line with a key and a text is scanned as its words. -/
theorem Lexes.keyLine (depth : Nat) (key : String) (hkey : isLetters key = true) (text : String)
    (h : Lexes [] rest ws) :
    Lexes [] ((Markup.line depth (key ++ ": " ++ Markup.text text)).toList ++ rest)
      (lineWords key text ++ ws) := by
  have htext : Lexes [] _ _ := Lexes.quoted .double text (h.space (c := '\n') rfl)
  have hword : Lexes [] _ _ := Lexes.letters (mem_word_of_isLetters hkey) (c := ':') rfl
    (Lexes.mark .colon (by decide) (htext.space (c := ' ') rfl))
  rw [String.ofList_toList] at hword
  have hchars : (key ++ ": " ++ Markup.text text).toList ++ '\n' :: rest =
      key.toList ++ ':' :: ' ' :: ((Text.quoted .double text).toList ++ '\n' :: rest) := by
    simp [Markup.text]
  refine Lexes.line depth ?_
  rw [hchars]
  exact hword

/-- A line with a key is scanned as its words, or is not there without a text. -/
theorem Lexes.keyLine? (depth : Nat) (key : String) (hkey : isLetters key = true)
    (text? : Option String) (h : Lexes [] rest ws) :
    Lexes [] ((Markup.line? depth key text?).toList ++ rest) (lineWords? key text? ++ ws) := by
  cases text? with
  | none => exact h
  | some text => exact Lexes.keyLine depth key hkey text h

/-! ## Reading a block -/

namespace Parser.Reads

variable {construct name : String} {opening : Span} {entry : σ → TokenKind → Parser σ}
  {h : ∀ s k, (entry s k).Consumes} {s : σ} {P S : σ → Prop} {w : Word}
  {v : List Word}

/-- An entry is read, and then those behind it. -/
theorem block_next (hbrace : w.kind ≠ .mark .rightBrace) (hopens : w.kind.opensConstruct = false)
    (hentry : (entry s w.kind).Reads (w :: ws) v S)
    (hothers : ∀ t, S t → (block construct name opening entry h t).Reads v vs P) :
    (block construct name opening entry h s).Reads (w :: ws) vs P := by
  refine iterate_next (S := S) ?_ hothers
  unfold blockStep
  refine kind?_bind ?_
  simp only [List.head?_cons, Option.map_some]
  rw [if_neg hbrace, if_neg (by simp [hopens])]
  exact bind hentry fun t ht => pure ⟨t, rfl, ht⟩

/-- An entry that starts with a name. -/
theorem block_name (hname : w.kind.isName = true) (hentry : (entry s w.kind).Reads (w :: ws) v S)
    (hothers : ∀ t, S t → (block construct name opening entry h t).Reads v vs P) :
    (block construct name opening entry h s).Reads (w :: ws) vs P := by
  refine block_next ?_ ?_ hentry hothers
  · intro hk
    rw [hk] at hname
    cases hname
  · by_contra hopens
    rw [isName_eq_false_of_opensConstruct (by simpa using hopens)] at hname
    cases hname

/-- The closing brace ends the block. -/
theorem block_last (hs : P s) :
    (block construct name opening entry h s).Reads (markWord .rightBrace :: vs) vs P := by
  refine iterate_last ?_
  unfold blockStep
  refine kind?_bind ?_
  exact bind (any rfl) fun _ _ => pure ⟨s, rfl, hs⟩

/-- The words of a note are read as its text. -/
theorem note (text : String) : note.Reads (lineWords "Note" text ++ ws) ws (· = text) := by
  unfold Parser.note lineWords
  refine bind (expect rfl rfl) fun _ _ => bind (accept_other (by simp [markWord])) fun b hb => ?_
  rw [hb]
  exact bind (expect rfl rfl) fun _ _ => string .double text _

end Parser.Reads

/-! ## What ends a column -/

/-- A column ends in front of a name. -/
theorem endsColumn_of_isName {w : Word} (hw : w.kind.isName = true) : EndsColumn (w :: ws) := by
  refine ⟨?_, ?_⟩
  all_goals
    rintro hk
    rw [Option.some.inj hk] at hw
    cases hw

/-- The words of a column start with its name. -/
theorem isName_columnWords (c : SchemaDiagram.Column) :
    ∃ w others, columnWords c = w :: others ∧ w.kind = nameKind c.name ∧ w.kind.isName = true :=
  ⟨_, _, rfl, rfl, isName_nameKind c.name⟩

/-- A column ends in front of another one. -/
theorem endsColumn_columns (cs : List SchemaDiagram.Column) (h : EndsColumn ws) :
    EndsColumn (cs.flatMap columnWords ++ ws) := by
  cases cs with
  | nil => exact h
  | cons c cs => exact endsColumn_of_isName (isName_nameKind c.name)

/-- A column ends in front of a line with a key. -/
theorem endsColumn_lineWords? (key : String) (hkey : isPlainKey key = true) (text? : Option String)
    (h : EndsColumn ws) : EndsColumn (lineWords? key text? ++ ws) := by
  cases text? with
  | none => exact h
  | some text => exact endsColumn_of_isName (isPlainKey_iff.1 hkey).2

/-- A column ends in front of a mark that neither parentheses nor settings start with. -/
theorem endsColumn_mark {m : Mark} (hm : m ≠ .leftParen ∧ m ≠ .leftBracket) :
    EndsColumn (markWord m :: ws) := by
  refine ⟨?_, ?_⟩
  · rintro hk
    cases hk
    exact hm.1 rfl
  · rintro hk
    cases hk
    exact hm.2 rfl

end SchemaDiagram.Document
