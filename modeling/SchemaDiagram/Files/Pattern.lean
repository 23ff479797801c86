/-!
# Path patterns

In a path pattern `?` stands for one character, `*` for any characters of a name, `[a-z]` for one of
a set of characters, `[!a-z]` for one outside of it, and `**` as a whole piece for any folders. The
rules are checked on the whole pattern first and then on every piece between slashes, since a set
may not reach over a slash although it does no harm to the whole.
-/

namespace SchemaDiagram

/-- A choice in a set of characters: those from one to another. -/
structure CharRange where
  /-- The first character. -/
  first : Char
  /-- The last character. -/
  last : Char
  deriving DecidableEq, Repr

/-- Whether a character is in one of the ranges of a set. -/
def CharRange.anyContains (ranges : List CharRange) (c : Char) : Bool :=
  ranges.any fun r => decide (r.first ≤ c) && decide (c ≤ r.last)

/-- What stands for characters in a pattern. -/
inductive Wildcard where
  /-- The character itself. -/
  | char (c : Char)
  /-- Any character. -/
  | anyChar
  /-- Any characters. -/
  | anyChars
  /-- Any folders. -/
  | anyFolders
  /-- A character in a set. -/
  | within (ranges : List CharRange)
  /-- A character outside a set. -/
  | except (ranges : List CharRange)
  deriving DecidableEq, Repr

/-- Whether a wildcard stands for any number of characters. -/
def Wildcard.repeats : Wildcard → Bool
  | anyChars | anyFolders => true
  | _ => false

/-- Whether a wildcard can stand for a character. -/
def Wildcard.matchesChar : Wildcard → Char → Bool
  | char d, c => c == d
  | anyChar, _ | anyChars, _ | anyFolders, _ => true
  | within ranges, c => CharRange.anyContains ranges c
  | except ranges, c => !CharRange.anyContains ranges c

/-- What is wrong with a pattern. -/
inductive PatternFault where
  /-- More than two stars in a row. -/
  | tooManyStars
  /-- Two stars that are not a piece of their own. -/
  | misplacedFolders
  /-- A set that is not closed or has nothing in it. -/
  | invalidSet
  deriving DecidableEq, Repr

/-- A fault of a pattern and the number of characters before it. -/
structure PatternError where
  /-- The number of characters before the fault. -/
  position : Nat
  /-- What is wrong. -/
  fault : PatternFault
  deriving DecidableEq, Repr

/-- The message of an error. -/
def PatternError.message (e : PatternError) : String :=
  let reason := match e.fault with
    | .tooManyStars => "wildcards are either regular \x60*\x60 or recursive \x60**\x60"
    | .misplacedFolders => "recursive wildcards must form a single path component"
    | .invalidSet => "invalid range pattern"
  s!"Pattern syntax error near position {e.position}: {reason}"

/-- The pattern of one name: a piece of a path pattern. -/
abbrev NamePattern := List Wildcard

namespace NamePattern

/-- The ranges that the characters between two brackets stand for. -/
def ranges : List Char → List CharRange
  | first :: '-' :: last :: cs => ⟨first, last⟩ :: ranges cs
  | c :: cs => ⟨c, c⟩ :: ranges cs
  | [] => []

/-- Cuts a text before its first closing bracket and leaves out the bracket. -/
def cutAtBracket : List Char → Option (List Char × List Char)
  | [] => none
  | ']' :: cs => some ([], cs)
  | c :: cs => (cutAtBracket cs).map fun (inside, rest) => (c :: inside, rest)

/-- The set of characters behind an opening bracket. It has at least one character, which may be a
closing bracket. -/
def charSet? : List Char → Option (Wildcard × List Char)
  | '!' :: c :: cs =>
    (cutAtBracket cs).map fun (inside, rest) => (.except (ranges (c :: inside)), rest)
  | ['!'] => none
  | c :: cs => (cutAtBracket cs).map fun (inside, rest) => (.within (ranges (c :: inside)), rest)
  | [] => none

/-- What follows a bracket is shorter than what had it. -/
theorem length_of_cutAtBracket {cs inside rest : List Char}
    (h : cutAtBracket cs = some (inside, rest)) : rest.length < cs.length := by
  induction cs generalizing inside with
  | nil => simp [cutAtBracket] at h
  | cons c cs ih =>
    by_cases hb : c = ']'
    · subst hb
      simp only [cutAtBracket, Option.some.injEq, Prod.mk.injEq] at h
      simp [h.2]
    · rw [cutAtBracket] at h
      · obtain ⟨p, hp, h⟩ := Option.map_eq_some_iff.mp h
        obtain ⟨-, rfl⟩ := Prod.mk.inj h
        exact Nat.lt_succ_of_lt (ih hp)
      · exact hb

/-- What follows a set of characters is shorter than what had it. -/
theorem length_of_charSet? {cs rest : List Char} {w : Wildcard} (h : charSet? cs = some (w, rest)) :
    rest.length < cs.length := by
  unfold charSet? at h
  split at h
  · obtain ⟨p, hp, h⟩ := Option.map_eq_some_iff.mp h
    obtain ⟨-, rfl⟩ := Prod.mk.inj h
    have := length_of_cutAtBracket hp
    simp only [List.length_cons]
    omega
  · simp at h
  · obtain ⟨p, hp, h⟩ := Option.map_eq_some_iff.mp h
    obtain ⟨-, rfl⟩ := Prod.mk.inj h
    exact Nat.lt_succ_of_lt (length_of_cutAtBracket hp)
  · simp at h

/-- Reads a pattern from the character behind `position` characters on; `atStart` says whether a
piece starts there. -/
def read (position : Nat) (atStart : Bool) : List Char → Except PatternError NamePattern
  | [] => .ok []
  | '?' :: cs => return .anyChar :: (← read (position + 1) false cs)
  | '*' :: '*' :: '*' :: _ => .error ⟨position + 2, .tooManyStars⟩
  | '*' :: '*' :: cs =>
    if !atStart then .error ⟨position - 1, .misplacedFolders⟩
    else
      match cs with
      | [] => .ok [.anyFolders]
      | '/' :: cs => return .anyFolders :: (← read (position + 3) true cs)
      | _ => .error ⟨position + 2, .misplacedFolders⟩
  | '*' :: cs => return .anyChars :: (← read (position + 1) false cs)
  | '[' :: cs =>
    match h : charSet? cs with
    | some (w, rest) =>
      have := length_of_charSet? h
      return w :: (← read (position + 1 + (cs.length - rest.length)) false rest)
    | none => .error ⟨position, .invalidSet⟩
  | c :: cs => return .char c :: (← read (position + 1) (c = '/') cs)
termination_by cs => cs.length

/-- The pattern that a text stands for. -/
def ofString (text : String) : Except PatternError NamePattern := read 0 true text.toList

/-- The text that is the only one to match a pattern without wildcards. -/
def literal? : NamePattern → Option (List Char)
  | [] => some []
  | .char c :: ws => (literal? ws).map (c :: ·)
  | _ => none

/-- Puts a wildcard in front of a pattern: from whether the pattern matches a name and each of its
endings, longest first, to whether the longer pattern does. -/
def extend (w : Wildcard) : List Char → List Bool → List Bool
  | [], matched => [w.repeats && matched.headD false]
  | c :: cs, matched =>
    let extended := extend w cs matched.tail
    (if w.repeats then matched.headD false || extended.headD false
      else w.matchesChar c && matched.tail.headD false) :: extended

/-- Whether a pattern matches a name and each of its endings, longest first. -/
def endings : NamePattern → List Char → List Bool
  | [], cs => cs.map (fun _ => false) ++ [true]
  | w :: ws, cs => extend w cs (endings ws cs)

/-- Whether a name matches a pattern. The answer takes as many steps as there are pairs of a
wildcard and a character. -/
def accepts (ws : NamePattern) (cs : List Char) : Bool := (endings ws cs).headD false

/-- The answer for the name itself stands in front of those for its endings. -/
theorem tail_endings (ws : NamePattern) (c : Char) (cs : List Char) :
    (endings ws (c :: cs)).tail = endings ws cs := by
  induction ws with
  | nil => rfl
  | cons w ws ih => simp [endings, extend, ih]

/-- The empty pattern matches the empty name. -/
theorem accepts_nil (cs : List Char) : accepts [] cs = cs.isEmpty := by
  cases cs <;> rfl

/-- At the end of a name only wildcards for any characters are left out. -/
theorem accepts_cons_nil (w : Wildcard) (ws : NamePattern) :
    accepts (w :: ws) [] = (w.repeats && accepts ws []) := rfl

/-- A wildcard for any characters stands for none, or for the next one and more; another wildcard
stands for the next character. -/
theorem accepts_cons_cons (w : Wildcard) (ws : NamePattern) (c : Char) (cs : List Char) :
    accepts (w :: ws) (c :: cs) =
      if w.repeats then accepts ws (c :: cs) || accepts (w :: ws) cs
      else w.matchesChar c && accepts ws cs := by
  simp [accepts, endings, extend, tail_endings]

end NamePattern

end SchemaDiagram
