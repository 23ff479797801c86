import SchemaDiagram.Document.Parser
import SchemaDiagram.Document.Basic

/-!
# Settings

A list of settings stands in brackets: entries of a key and, for most keys, a colon and a value,
with commas between them. The construct that the list belongs to says which keys it knows and how
it reads their entries; an entry with any other key is passed over up to the comma or bracket that
ends it. A value that a key cannot take is reported, and the setting is left as it was.
-/

namespace SchemaDiagram.Document

/-- A setting's key as it was written. -/
structure SettingKey where
  /-- The key without quotes. -/
  text : String
  deriving DecidableEq, Repr

/-- The form in which keys are compared: small letters without underscores, so that `pos_x`, `posX`
and `POSX` are the same key. The Kelvin sign is the one letter beyond ASCII that has an ASCII letter
as its small form. -/
def SettingKey.form (key : SettingKey) : String :=
  String.ofList
    ((key.text.toList.filter (· ≠ '_')).map fun c => if c = '\u212a' then 'k' else c.toLower)

namespace Parser

variable {σ : Type}

/-! ## Words and texts -/

/-- Reads a name. -/
def name (expected : String) : Parser Token := take (fun t => t.kind.isName) expected

/-- Reads a quoted text. -/
def string (expected : String) : Parser String := do
  let t ← take (fun t => t.kind.isString) expected
  return t.value

/-! ## Keys and values -/

/-- Reads the key of a setting. A keyword that opens a construct is a key only in front of a
colon. -/
def settingKey : Parser SettingKey := do
  let second ← secondKind?
  let t ← take (fun t => t.kind.isName || (t.kind.opensConstruct && second == some (.mark .colon)))
    "setting name"
  return ⟨t.value⟩

/-- The tokens that can be the value of a setting. -/
def isSettingValue (k : TokenKind) : Bool :=
  k.isName || k.isString || k == .number || k == .color

/-- Reads a colon and a value. -/
def settingValue : Parser Token := do
  let _ ← expect (.mark .colon)
  take (fun t => isSettingValue t.kind) "setting value"

/-- Reads a colon and a value, as a text. -/
def settingText : Parser String := do
  let t ← settingValue
  return t.value

/-- Reads a colon and a quoted text. -/
def settingString : Parser String := do
  let _ ← expect (.mark .colon)
  string "string literal"

/-- Reports a value that a key cannot take. -/
def invalidValue (key : SettingKey) (t : Token) (reason : String) : Parser Unit :=
  report (.invalidValue key.text t.text reason t.span)

/-- Reads a colon and a value that `view` understands; any other value is reported. -/
def settingOf {α : Type} (view : Token → Option α) (reason : String) (key : SettingKey) :
    Parser (Option α) := do
  let t ← settingValue
  match view t with
  | some a => return some a
  | none => do
    invalidValue key t reason
    return none

/-- The number that a token stands for: a numeral, with or without quotes. -/
def numberOf? (t : Token) : Option Number :=
  if t.kind = .number ∨ t.kind = .string .double ∨ t.kind = .string .single then
    Number.ofString? t.value
  else none

/-- The truth value that a token spells in any case. -/
def flagOf? (t : Token) : Option Bool :=
  if Text.spelledAlike t.value "true" then some true
  else if Text.spelledAlike t.value "false" then some false
  else none

/-- Reads a number. -/
def settingNumber : SettingKey → Parser (Option Number) := settingOf numberOf? "expected a number"

/-- Reads a truth value. -/
def settingFlag : SettingKey → Parser (Option Bool) := settingOf flagOf? "expected true or false"

/-- Reads a color. -/
def settingColor : SettingKey → Parser (Option Color) :=
  settingOf (fun t => Color.ofString? t.value) "expected #RGB or #RRGGBB"

/-- Reads the horizontal place of a label. -/
def settingHorizontalLabel : SettingKey → Parser (Option HorizontalLabel) :=
  settingOf (fun t => HorizontalLabel.ofWord? (Text.lower t.value)) "expected left, center or right"

/-- Reads the vertical place of a label. -/
def settingVerticalLabel : SettingKey → Parser (Option VerticalLabel) :=
  settingOf (fun t => VerticalLabel.ofWord? (Text.lower t.value)) "expected top, center or bottom"

/-! ## Passing over a value -/

/-- How many brackets of any kind are open behind a token if `depth` were open in front of it. -/
def depthAfter (depth : Nat) : TokenKind → Nat
  | .mark .leftBracket | .mark .leftParen | .mark .leftBrace => depth + 1
  | .mark .rightBracket | .mark .rightParen | .mark .rightBrace => depth - 1
  | _ => depth

/-- How many tokens the rest of an entry has, and whether the comma or bracket that ends it follows
them. Inside brackets commas do not count. A keyword that opens a construct breaks the entry off,
unless a colon follows it. -/
def entryLength (depth : Nat) : List CommentedToken → Nat × Bool
  | [] => (0, false)
  | t :: ts =>
    let k := t.token.kind
    let opensNext := k.opensConstruct && ts.head?.map (·.token.kind) != some (.mark .colon)
    if depth = 0 ∧ (k = .mark .comma ∨ k = .mark .rightBracket) then (0, true)
    else if depth = 0 ∧ k = .mark .rightBrace then (0, false)
    else if opensNext then (0, false)
    else
      let (n, ended) := entryLength (depthAfter depth k) ts
      (n + 1, ended)

/-- Passes over the rest of an entry with an unknown key. -/
def skipEntry : Parser Unit := do
  let (n, ended) ← ahead (entryLength 0)
  skip n
  if ended then return () else unexpected "']'"

/-- Passes over the value of a line with an unknown key in a block. -/
def skipLineValue : Parser Unit := do
  let _ ← accept (.mark .colon)
  let ends (k : TokenKind) : Bool := k == .mark .rightBrace || k.opensConstruct
  ahead (fun ts => if ts.head?.any (fun t => !ends t.token.kind) then 1 else 0) >>= skip

/-! ## Lists of settings -/

/-- Reads one entry. `apply` reads what follows a key that the construct knows, and answers `none`
to any other key. -/
def settingEntry (apply : σ → SettingKey → Parser (Option σ)) (s : σ) : Parser σ := do
  let key ← settingKey
  match ← apply s key with
  | some t => return t
  | none => do
    skipEntry
    return s

/-- Reads the comma after an entry, or sees the bracket that ends the list. -/
def settingEnd : Parser Unit := do
  match ← kind? with
  | some (.mark .comma) => do
    let _ ← any
    return ()
  | some (.mark .rightBracket) => return ()
  | _ => unexpected "',' or ']'"

/-- Reads a stray comma, an entry, or the bracket that ends the list. -/
def settingsStep (apply : σ → SettingKey → Parser (Option σ)) (s : σ) : Parser (σ ⊕ σ) := do
  match ← kind? with
  | some (.mark .rightBracket) => do
    let _ ← any
    return .inr s
  | some (.mark .comma) => do
    let _ ← any
    return .inl s
  | _ => do
    let t ← settingEntry apply s
    settingEnd
    return .inl t

/-- A key is a token. -/
theorem consumes_settingKey : settingKey.Consumes :=
  consumes_bind_of_forall fun _ => (consumes_take _ _).bind _

/-- An entry of a list takes its key. -/
theorem consumes_settingEntry (apply : σ → SettingKey → Parser (Option σ)) (s : σ) :
    (settingEntry apply s).Consumes :=
  consumes_settingKey.bind _

/-- A round of reading a list takes a token. -/
theorem consumes_settingsStep (apply : σ → SettingKey → Parser (Option σ)) (s : σ) :
    (settingsStep apply s).Consumes := by
  refine consumes_bind_of_forall fun k => ?_
  split
  · exact consumes_any.bind _
  · exact consumes_any.bind _
  · exact (consumes_settingEntry apply s).bind _

/-- Reads a list of settings. -/
def settings (apply : σ → SettingKey → Parser (Option σ)) (s : σ) : Parser σ := do
  let _ ← expect (.mark .leftBracket)
  iterate (settingsStep apply) (consumes_settingsStep apply) s

/-- Reads a list of settings if there is one. -/
def settings? (apply : σ → SettingKey → Parser (Option σ)) (s : σ) : Parser σ := do
  if ← at? (.mark .leftBracket) then settings apply s else return s

end Parser

end SchemaDiagram.Document
