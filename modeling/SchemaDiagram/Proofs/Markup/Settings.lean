import SchemaDiagram.Document.Setting
import SchemaDiagram.Proofs.Markup.Reading
import SchemaDiagram.Proofs.Markup.Values

/-!
# Settings in markup

An entry of a list of settings is written in one way and read in one way, so both stand together in
`Entry`: the text, its words, and the change that reading them makes to the construct. A list of
settings is read entry by entry, and makes the changes of its entries one after another
(`Reads.settings?`).
-/

namespace SchemaDiagram.Document

open Lexeme

variable {σ : Type}

/-! ## Where an entry ends -/

/-- The text starts with a character that ends the lexeme in front of it. -/
def Separated (cs : List Char) : Prop := ∃ c rest, cs = c :: rest ∧ separates c = true

/-- A text that starts with a separating character is separated from what is in front. -/
theorem separated_cons {c : Char} (rest : List Char) (hc : separates c = true) :
    Separated (c :: rest) :=
  ⟨c, rest, rfl, hc⟩

/-- A separating character does not continue a word. -/
theorem continuesWord_of_separates {c : Char} (hc : separates c = true) :
    continuesWord c = false := by
  simp only [separates, Bool.and_eq_true, Bool.not_eq_true'] at hc
  exact hc.1.1.1

/-- The marks behind an entry of a list of settings. -/
def EndsEntry (m : Mark) : Prop := m = .comma ∨ m = .rightBracket

/-- A key that is written in letters and opens no construct. -/
def isPlainKey (key : String) : Bool := isLetters key && (wordKind key.toList).isName

/-- A plain key is written in letters and read as a name. -/
theorem isPlainKey_iff {key : String} :
    isPlainKey key = true ↔ isLetters key = true ∧ (wordKind key.toList).isName = true :=
  Bool.and_eq_true_iff

-- The keys that the settings of several constructs share.

/-- The key `pk` is plain. -/
theorem isPlainKey_pk : isPlainKey "pk" = true := rfl

/-- The key `unique` is plain. -/
theorem isPlainKey_unique : isPlainKey "unique" = true := rfl

/-- The key `alias` is plain. -/
theorem isPlainKey_alias : isPlainKey "alias" = true := rfl

/-- The key `color` is plain. -/
theorem isPlainKey_color : isPlainKey "color" = true := rfl

/-- The key `note` is plain. -/
theorem isPlainKey_note : isPlainKey "note" = true := rfl

/-! ## Entries -/

/-- An entry of a list of settings, as it is written and as it is read. -/
structure Entry (apply : σ → SettingKey → Parser (Option σ)) where
  /-- The text of the entry. -/
  text : String
  /-- The words of the entry. -/
  words : List Word
  /-- What reading the entry changes. -/
  effect : σ → σ
  /-- The entry starts with a name. -/
  starts : ∃ w ws, words = w :: ws ∧ w.kind.isName = true ∧ w.comments = []
  /-- The text has the words. -/
  lexes : ∀ {rest : List Char} {ws : List Word}, Separated rest → Lexes [] rest ws →
    Lexes [] (text.toList ++ rest) (words ++ ws)
  /-- Reading the words makes the change. -/
  reads : ∀ (s : σ) (m : Mark) (ws : List Word), EndsEntry m →
    (Parser.settingEntry apply s).Reads (words ++ markWord m :: ws) (markWord m :: ws)
      (· = effect s)

namespace Parser.Reads

variable {w : Word} {ws : List Word}

/-- A name is read as the key of a setting. -/
theorem settingKey (hname : w.kind.isName = true) (hw : w.comments = []) :
    settingKey.Reads (w :: ws) ws (· = ⟨w.value⟩) := by
  unfold Parser.settingKey
  refine secondKind?_bind (bind (take _ (fun t ht => ?_) hw) fun t ht => ?_)
  · rw [ht.kind, hname, Bool.true_or]
  · exact pure (by rw [ht.value])

/-- An entry whose key applies is read as what the key makes of the state. -/
theorem settingEntry {apply : σ → SettingKey → Parser (Option σ)} {s t : σ} {vs : List Word}
    (hname : w.kind.isName = true) (hw : w.comments = [])
    (happly : (apply s ⟨w.value⟩).Reads ws vs (· = some t)) :
    (settingEntry apply s).Reads (w :: ws) vs (· = t) := by
  unfold Parser.settingEntry
  refine bind (settingKey hname hw) fun key hkey => ?_
  rw [hkey]
  refine bind happly fun answer hanswer => ?_
  rw [hanswer]
  exact pure rfl

end Parser.Reads

namespace Entry

variable {apply : σ → SettingKey → Parser (Option σ)}

/-- The entry of a key that is written in letters and of what follows it. -/
def ofKey (key : String) (tail : List Char) (tailWords : List Word) (effect : σ → σ)
    (hkey : isPlainKey key = true)
    (htail : ∀ c ∈ tail.head?, continuesWord c = false)
    (lexes : ∀ {rest : List Char} {ws : List Word}, Separated rest → Lexes [] rest ws →
      Lexes [] (tail ++ rest) (tailWords ++ ws))
    (reads : ∀ (s : σ) (m : Mark) (ws : List Word), EndsEntry m →
      (apply s ⟨key⟩).Reads (tailWords ++ markWord m :: ws) (markWord m :: ws)
        (· = some (effect s))) : Entry apply where
  text := key ++ String.ofList tail
  words := letterWord key :: tailWords
  effect := effect
  starts := ⟨letterWord key, tailWords, rfl, (isPlainKey_iff.1 hkey).2, rfl⟩
  lexes := by
    intro rest ws hrest h
    have hnext : ∃ c others, tail ++ rest = c :: others ∧ continuesWord c = false := by
      cases tail with
      | nil =>
        obtain ⟨c, others, rfl, hc⟩ := hrest
        exact ⟨c, others, rfl, continuesWord_of_separates hc⟩
      | cons c tail => exact ⟨c, tail ++ rest, rfl, htail c rfl⟩
    obtain ⟨c, others, hothers, hc⟩ := hnext
    have hlexes := lexes hrest h
    rw [hothers] at hlexes
    have hword : Lexes [] _ _ := Lexes.letters (mem_word_of_isLetters (isPlainKey_iff.1 hkey).1) hc hlexes
    rw [String.ofList_toList] at hword
    rw [String.toList_append, String.toList_ofList, List.append_assoc, hothers]
    exact hword
  reads := by
    intro s m ws hm
    refine Parser.Reads.settingEntry (isPlainKey_iff.1 hkey).2 rfl ?_
    rw [value_letterWord]
    exact reads s m ws hm

/-- The entry of a key without a value. -/
def flag (key : String) (effect : σ → σ)
    (hkey : isPlainKey key = true)
    (happly : ∀ s, apply s ⟨key⟩ = Pure.pure (some (effect s))) : Entry apply :=
  ofKey key [] [] effect hkey nofun (fun _ h => h) fun s _ _ _ => by
    rw [happly]
    exact Parser.Reads.pure rfl

/-- The entry of a key and a value, which is one word. The construct takes over what `reader` reads
from it. -/
def value {α : Type} (key text : String) (w : Word) (reader : Parser α) (a : α) (set : α → σ → σ)
    (hkey : isPlainKey key = true)
    (happly : ∀ s, apply s ⟨key⟩ = reader >>= fun b => Pure.pure (some (set b s)))
    (lexes : ∀ {rest : List Char} {ws : List Word}, Separated rest → Lexes [] rest ws →
      Lexes [] (text.toList ++ rest) (w :: ws))
    (reads : ∀ (m : Mark) (ws : List Word), EndsEntry m →
      reader.Reads (markWord .colon :: w :: markWord m :: ws) (markWord m :: ws) (· = a)) :
    Entry apply :=
  ofKey key (':' :: ' ' :: text.toList) [markWord .colon, w] (set a) hkey
    (fun c hc => by cases hc; rfl)
    (fun hrest h => Lexes.mark .colon (by decide) ((lexes hrest h).space rfl))
    fun s m ws hm => by
      rw [happly]
      refine Parser.Reads.bind (reads m ws hm) fun b hb => ?_
      rw [hb]
      exact Parser.Reads.pure rfl

/-- A flag is written as its key. -/
theorem text_flag (key : String) (effect : σ → σ) (hkey) (happly) :
    (flag key effect hkey happly : Entry apply).text = key :=
  String.append_empty

/-- A value is written behind its key and a colon. -/
theorem text_value {α : Type} (key text : String) (w : Word) (reader : Parser α) (a : α)
    (set : α → σ → σ) (hkey) (happly) (lexes) (reads) :
    (value key text w reader a set hkey happly lexes reads : Entry apply).text =
      key ++ ": " ++ text := by
  rw [String.append_assoc]
  refine congrArg (key ++ ·) ?_
  apply String.toList_injective
  simp

end Entry

/-! ## Lists of entries -/

section List

variable {apply : σ → SettingKey → Parser (Option σ)}

/-- The words of entries with commas between them, and of the bracket behind them. -/
def entriesWords : List (Entry apply) → List Word
  | [] => [markWord .rightBracket]
  | [e] => e.words ++ [markWord .rightBracket]
  | e :: others => e.words ++ markWord .comma :: entriesWords others

/-- The words of a list of settings, which is left out if it is empty. -/
def settingsWords (es : List (Entry apply)) : List Word :=
  if es.isEmpty then [] else markWord .leftBracket :: entriesWords es

/-- What a list of settings changes. -/
def effects (es : List (Entry apply)) (s : σ) : σ := es.foldl (fun s e => e.effect s) s

/-- The entry, if a condition holds. -/
def Entry.when (isSet : Bool) (e : Entry apply) : List (Entry apply) := if isSet then [e] else []

/-- The entry of a value, if there is a value. -/
def Entry.ofOption {α : Type} (value : Option α) (e : α → Entry apply) : List (Entry apply) :=
  (value.map e).toList

/-- An entry under a condition is written as a flag is. -/
theorem map_text_when {word : String} {e : Entry apply} (h : e.text = word) (isSet : Bool) :
    (Entry.when isSet e).map Entry.text = Markup.flag? word isSet := by
  cases isSet with
  | false => rfl
  | true => exact congrArg (fun text => [text]) h

/-- The entry of an optional value is written as a setting is. -/
theorem map_text_ofOption {α : Type} {key : String} {write : α → String} {e : α → Entry apply}
    (h : ∀ a, (e a).text = key ++ ": " ++ write a) (value : Option α) :
    (Entry.ofOption value e).map Entry.text = Markup.setting? key write value := by
  cases value with
  | none => rfl
  | some a => exact congrArg (fun text => [text]) (h a)

/-- The effects of two lists are those of one after the other. -/
@[simp] theorem effects_append (es fs : List (Entry apply)) (s : σ) :
    effects (es ++ fs) s = effects fs (effects es s) :=
  List.foldl_append

/-- The text of entries and the bracket behind them is scanned as their words. -/
theorem Lexes.entries {rest : List Char} {ws : List Word} (es : List (Entry apply))
    (h : Lexes [] rest ws) :
    Lexes [] ((", ".intercalate (es.map Entry.text)).toList ++ ']' :: rest)
      (entriesWords es ++ ws) := by
  have hbracket : Lexes [] (']' :: rest) (markWord .rightBracket :: ws) :=
    Lexes.mark .rightBracket (by decide) h
  fun_induction entriesWords es with
  | case1 => exact hbracket
  | case2 e =>
    rw [List.append_assoc, List.map_singleton, String.intercalate_singleton]
    exact e.lexes (separated_cons _ rfl) hbracket
  | case3 e others hne ih =>
    obtain ⟨f, others, rfl⟩ := List.exists_cons_of_ne_nil hne
    rw [List.map_cons, List.map_cons, String.intercalate_cons_cons, String.toList_append,
      String.toList_append, List.append_assoc, List.append_assoc, List.append_assoc]
    refine e.lexes (separated_cons _ rfl) ?_
    exact Lexes.mark .comma (by decide) (ih.space rfl)

/-- The text of a list of settings is scanned as its words. -/
theorem Lexes.settings {rest : List Char} {ws : List Word} (es : List (Entry apply))
    (h : Lexes [] rest ws) :
    Lexes [] ((Markup.settings (es.map Entry.text)).toList ++ rest) (settingsWords es ++ ws) := by
  unfold Markup.settings settingsWords
  rw [List.isEmpty_map]
  split
  · exact h
  · rw [String.toList_append, String.toList_append, List.append_assoc, List.append_assoc]
    exact (Lexes.mark .leftBracket (by decide) (Lexes.entries es h)).space rfl

/-- Behind a list of settings stands what stands behind it if it is left out. -/
theorem separated_settings {rest : List Char} (es : List String) (h : Separated rest) :
    Separated ((Markup.settings es).toList ++ rest) := by
  unfold Markup.settings
  split
  · exact h
  · rw [String.toList_append, String.toList_append]
    exact separated_cons _ rfl

namespace Parser.Reads

/-- Behind an entry, a comma is taken and the bracket is left. -/
theorem settingEnd {m : Mark} {ws : List Word} (hm : EndsEntry m) :
    settingEnd.Reads (markWord m :: ws) (if m = .comma then ws else markWord m :: ws)
      (fun _ => True) := by
  unfold Parser.settingEnd
  refine kind?_bind ?_
  rcases hm with rfl | rfl
  · exact bind (any rfl) fun _ _ => pure trivial
  · exact pure trivial

/-- A step in front of an entry reads the entry and the comma behind it. -/
theorem settingsStep (e : Entry apply) (s : σ) {m : Mark} {ws : List Word} (hm : EndsEntry m) :
    (settingsStep apply s).Reads (e.words ++ markWord m :: ws)
      (if m = .comma then ws else markWord m :: ws)
      fun r => ∃ s', r = .inl s' ∧ s' = e.effect s := by
  unfold Parser.settingsStep
  refine kind?_bind ?_
  have hentry := e.reads s m ws hm
  obtain ⟨w, others, hwords, hname, -⟩ := e.starts
  rw [hwords, List.cons_append] at hentry ⊢
  split
  · next hk =>
    have hkind : w.kind = .mark .rightBracket := Option.some.inj hk
    rw [hkind] at hname
    cases hname
  · next hk =>
    have hkind : w.kind = .mark .comma := Option.some.inj hk
    rw [hkind] at hname
    cases hname
  · refine bind hentry fun t ht => bind (settingEnd hm) fun _ _ => pure ⟨t, rfl, ht⟩

/-- The words of entries are read as their effects. -/
theorem settings_loop (es : List (Entry apply)) (s : σ) {ws : List Word} :
    (iterate (Parser.settingsStep apply) (consumes_settingsStep apply) s).Reads
      (entriesWords es ++ ws) ws (· = effects es s) := by
  have hbracket : ∀ s, (iterate (Parser.settingsStep apply) (consumes_settingsStep apply) s).Reads
      (markWord .rightBracket :: ws) ws (· = s) := by
    intro s
    refine iterate_last ?_
    unfold Parser.settingsStep
    exact kind?_bind (bind (any rfl) fun _ _ => pure ⟨s, rfl, rfl⟩)
  fun_induction entriesWords es generalizing s with
  | case1 => exact hbracket s
  | case2 e =>
    rw [List.append_assoc]
    refine iterate_next (settingsStep e s (Or.inr rfl)) fun s' hs' => ?_
    rw [hs']
    exact hbracket _
  | case3 e others _ ih =>
    rw [List.append_assoc]
    refine iterate_next (settingsStep e s (Or.inl rfl)) fun s' hs' => ?_
    rw [hs']
    exact ih _

/-- A list of settings makes the changes of its entries. If it is left out, no bracket may follow. -/
theorem settings? (es : List (Entry apply)) (s : σ) {ws : List Word}
    (hnext : ws.head?.map Word.kind ≠ some (.mark .leftBracket)) :
    (settings? apply s).Reads (settingsWords es ++ ws) ws (· = effects es s) := by
  unfold Parser.settings? settingsWords
  refine at?_bind ?_
  cases es with
  | nil =>
    rw [if_neg (by simpa using hnext)]
    exact pure rfl
  | cons e es =>
    unfold Parser.settings
    exact bind (expect rfl rfl) fun _ _ => settings_loop (e :: es) s

end Parser.Reads

end List

/-! ## Values -/

namespace Parser.Reads

variable {w : Word} {ws : List Word}

/-- A colon and a value are read as the value. -/
theorem settingValue (hkind : isSettingValue w.kind = true) (hw : w.comments = []) :
    settingValue.Reads (markWord .colon :: w :: ws) ws w.IsOf := by
  unfold Parser.settingValue
  refine bind (expect rfl rfl) fun _ _ => take _ (fun t ht => ?_) hw
  rw [ht.kind, hkind]

/-- A colon and a value are read as the value's text. -/
theorem settingText (hkind : isSettingValue w.kind = true) (hw : w.comments = []) :
    settingText.Reads (markWord .colon :: w :: ws) ws (· = w.value) := by
  unfold Parser.settingText
  exact bind (settingValue hkind hw) fun t ht => pure ht.value

/-- A quoted string is read as its text. -/
theorem string (q : Text.Quote) (s : String) (expected : String) :
    (string expected).Reads (quotedWord q s :: ws) ws (· = s) := by
  unfold Parser.string
  refine bind (take expected (fun t ht => ?_) rfl) fun t ht => pure ?_
  · rw [ht.kind]
    rfl
  · rw [ht.value, value_quotedWord]

/-- A colon and a quoted string are read as the string's text. -/
theorem settingString (q : Text.Quote) (s : String) :
    settingString.Reads (markWord .colon :: quotedWord q s :: ws) ws (· = s) := by
  unfold Parser.settingString
  exact bind (expect rfl rfl) fun _ _ => string q s _

/-- A value of the right form is read as what it stands for. -/
theorem settingOf {α : Type} {view : Token → Option α} {a : α}
    (hview : ∀ t, w.IsOf t → view t = some a) (reason : String) (key : SettingKey)
    (hkind : isSettingValue w.kind = true) (hw : w.comments = []) :
    (settingOf view reason key).Reads (markWord .colon :: w :: ws) ws (· = some a) := by
  unfold Parser.settingOf
  refine bind (settingValue hkind hw) fun t ht => ?_
  rw [hview t ht]
  exact pure rfl

/-- A finite number is read as itself. -/
theorem settingNumber {x : Number} (hx : x.isFinite = true) (key : SettingKey) :
    (settingNumber key).Reads (markWord .colon :: numberWord x :: ws) ws (· = some x) := by
  refine settingOf (fun t ht => ?_) _ key rfl rfl
  unfold numberOf?
  have hkind : t.kind = .number := ht.kind
  rw [if_pos (Or.inl hkind), ht.value]
  exact Number.ofString?_plainText hx

/-- A color is read as itself. -/
theorem settingColor (color : Color) (key : SettingKey) :
    (settingColor key).Reads (markWord .colon :: colorWord color :: ws) ws (· = some color) := by
  refine settingOf (fun t ht => ?_) _ key rfl rfl
  rw [ht.value]
  exact Color.ofString?_text color

/-- A value that is one word of letters, if the key understands that word. -/
theorem settingOf_letterWord {α : Type} {view : String → Option α} {a : α} {word : String}
    (hview : view word = some a) (reason : String) (key : SettingKey)
    (hkind : isSettingValue (wordKind word.toList) = true) :
    (Parser.settingOf (fun t => view t.value) reason key).Reads
      (markWord .colon :: letterWord word :: ws) ws (· = some a) := by
  refine settingOf (fun t ht => ?_) reason key hkind rfl
  rw [ht.value, value_letterWord, hview]

end Parser.Reads

namespace Entry

variable {apply : σ → SettingKey → Parser (Option σ)}

/-- A quoted text is scanned as one word. -/
theorem lexes_quoted (q : Text.Quote) (s : String) {rest : List Char} {ws : List Word}
    (h : Lexes [] rest ws) : Lexes [] ((Text.quoted q s).toList ++ rest) (quotedWord q s :: ws) :=
  Lexes.quoted q s h

/-- The entry of a key and a quoted text. -/
def quotedText (key s : String) (set : String → σ → σ) (hkey : isPlainKey key = true)
    (happly : ∀ t, apply t ⟨key⟩ =
      Parser.settingString >>= fun b => Pure.pure (some (set b t))) : Entry apply :=
  value key (Markup.text s) (quotedWord .double s) Parser.settingString s set hkey happly
    (fun _ h => lexes_quoted .double s h) fun _ _ _ => Parser.Reads.settingString .double s

/-- The entry of a key that takes any value, with a quoted text. -/
def anyText (key s : String) (set : String → σ → σ) (hkey : isPlainKey key = true)
    (happly : ∀ t, apply t ⟨key⟩ =
      Parser.settingText >>= fun b => Pure.pure (some (set b t))) : Entry apply :=
  value key (Markup.text s) (quotedWord .double s) Parser.settingText s set hkey happly
    (fun _ h => lexes_quoted .double s h) fun m ws _ => by
      have hreads : Parser.settingText.Reads (markWord .colon :: quotedWord .double s ::
          markWord m :: ws) (markWord m :: ws) (· = (quotedWord .double s).value) :=
        Parser.Reads.settingText rfl rfl
      rwa [value_quotedWord] at hreads

/-- The entry of a key and a finite number. -/
def number (key : String) (x : Number) (hx : x.isFinite = true) (set : Option Number → σ → σ)
    (hkey : isPlainKey key = true)
    (happly : ∀ t, apply t ⟨key⟩ =
      Parser.settingNumber ⟨key⟩ >>= fun b => Pure.pure (some (set b t))) : Entry apply :=
  value key x.plainText (numberWord x) (Parser.settingNumber ⟨key⟩) (some x) set hkey happly
    (by
      rintro _ ws ⟨c, rest, rfl, hc⟩ h
      exact Lexes.number hx hc h)
    fun _ _ _ => Parser.Reads.settingNumber hx ⟨key⟩

/-- The entry of a key and a color. -/
def color (key : String) (x : Color) (set : Option Color → σ → σ) (hkey : isPlainKey key = true)
    (happly : ∀ t, apply t ⟨key⟩ =
      Parser.settingColor ⟨key⟩ >>= fun b => Pure.pure (some (set b t))) : Entry apply :=
  value key x.text (colorWord x) (Parser.settingColor ⟨key⟩) (some x) set hkey happly
    (by
      rintro _ ws ⟨c, rest, rfl, hc⟩ h
      exact Lexes.color x hc h)
    fun _ _ _ => Parser.Reads.settingColor x ⟨key⟩

/-- The entry of a key and a word of letters that the key understands. -/
def word {α : Type} (key text : String) (view : String → Option α) (reason : String) (a : α)
    (set : Option α → σ → σ) (hkey : isPlainKey key = true) (htext : isPlainKey text = true)
    (hview : view text = some a)
    (happly : ∀ t, apply t ⟨key⟩ = Parser.settingOf (fun t => view t.value) reason ⟨key⟩ >>=
      fun b => Pure.pure (some (set b t))) : Entry apply :=
  value key text (letterWord text) (Parser.settingOf (fun t => view t.value) reason ⟨key⟩) (some a)
    set hkey happly
    (by
      rintro _ ws ⟨c, rest, rfl, hc⟩ h
      have hword : Lexes [] _ _ := Lexes.letters
        (mem_word_of_isLetters (isPlainKey_iff.1 htext).1) (continuesWord_of_separates hc) h
      rwa [String.ofList_toList] at hword)
    fun _ _ _ => by
      refine Parser.Reads.settingOf_letterWord hview reason ⟨key⟩ ?_
      unfold Parser.isSettingValue
      rw [(isPlainKey_iff.1 htext).2]
      rfl

/-- The entry for a size, if it is finite. -/
def size (key : String) (set : Option Number → σ → σ) (hkey : isPlainKey key = true)
    (happly : ∀ t, apply t ⟨key⟩ =
      Parser.settingNumber ⟨key⟩ >>= fun b => Pure.pure (some (set b t))) :
    Option Number → List (Entry apply)
  | some x => if hx : x.isFinite = true then [number key x hx set hkey happly] else []
  | none => []

/-- A size is written as the markup writes it. -/
theorem map_text_size {key : String} {set : Option Number → σ → σ} {hkey happly} (x : Option Number) :
    (size key set hkey happly x : List (Entry apply)).map Entry.text = Markup.size? key x := by
  cases x with
  | none => rfl
  | some x =>
    simp only [size, Markup.size?]
    by_cases hx : x.isFinite = true
    · rw [dif_pos hx, Option.filter_some, if_pos hx]
      exact congrArg (fun text => [text]) (text_value ..)
    · rw [dif_neg hx, Option.filter_some, if_neg hx]
      rfl

/-- A size that is finite is set, and another one changes nothing. -/
theorem effects_size {key : String} {set : Option Number → σ → σ} {hkey happly}
    (x : Option Number) (s : σ) :
    effects (size key set hkey happly x : List (Entry apply)) s =
      match x.filter Number.isFinite with
      | some y => set (some y) s
      | none => s := by
  cases x with
  | none => rfl
  | some x =>
    simp only [size]
    by_cases hx : x.isFinite = true
    · rw [dif_pos hx, Option.filter_some, if_pos hx]
      rfl
    · rw [dif_neg hx, Option.filter_some, if_neg hx]
      rfl

/-- The entries for a place on the canvas, if both coordinates are finite. -/
def position (setX setY : Option Number → σ → σ)
    (hx : ∀ t, apply t ⟨"pos_x"⟩ =
      Parser.settingNumber ⟨"pos_x"⟩ >>= fun b => Pure.pure (some (setX b t)))
    (hy : ∀ t, apply t ⟨"pos_y"⟩ =
      Parser.settingNumber ⟨"pos_y"⟩ >>= fun b => Pure.pure (some (setY b t))) :
    Option Point → List (Entry apply)
  | some p =>
    if hp : p.isFinite = true then
      [number "pos_x" p.x (Bool.and_eq_true_iff.1 hp).1 setX rfl hx,
        number "pos_y" p.y (Bool.and_eq_true_iff.1 hp).2 setY rfl hy]
    else []
  | none => []

/-- A place is written as the markup writes it. -/
theorem map_text_position {setX setY : Option Number → σ → σ} {hx hy} (p : Option Point) :
    (position setX setY hx hy p : List (Entry apply)).map Entry.text = Markup.position? p := by
  cases p with
  | none => rfl
  | some p =>
    simp only [position, Markup.position?]
    by_cases hp : p.isFinite = true
    · rw [dif_pos hp, Option.filter_some, if_pos hp]
      exact congrArg₂ (fun x y => [x, y]) (text_value ..) (text_value ..)
    · rw [dif_neg hp, Option.filter_some, if_neg hp]
      rfl

/-- A place that is finite is set, and another one changes nothing. -/
theorem effects_position {setX setY : Option Number → σ → σ} {hx hy} (p : Option Point) (s : σ) :
    effects (position setX setY hx hy p : List (Entry apply)) s =
      match p.filter Point.isFinite with
      | some q => setY (some q.y) (setX (some q.x) s)
      | none => s := by
  cases p with
  | none => rfl
  | some p =>
    simp only [position]
    by_cases hp : p.isFinite = true
    · rw [dif_pos hp, Option.filter_some, if_pos hp]
      rfl
    · rw [dif_neg hp, Option.filter_some, if_neg hp]
      rfl

end Entry

end SchemaDiagram.Document
