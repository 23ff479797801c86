import SchemaDiagram.Diagram.Identifier

/-!
# What an identifier was made from

The identifier of a reference is taken apart again: `ReferenceId.endpoints?` reads its four parts up
to the separators that no backslash marks. A part may hold any characters, separators and
backslashes among them, and may be empty.

Main statement: `ReferenceId.ofEndpoints_eq_iff`, references share an identifier only if they share
all four parts, and the parts are read back from the identifier and from no other text. It rests on
`ReferenceId.readPart_eq_some_iff`: what is read up to a separator is what was written in front of
it, so no boundary between two parts can be mistaken.
-/

namespace SchemaDiagram

/-- Areas of different names have different ids. -/
theorem AreaId.ofName_injective {m n : String} (h : ofName m = ofName n) : m = n :=
  (String.append_right_inj _).1 (congrArg AreaId.text h)

namespace ReferenceId

/-! ## One part -/

/-- Whether a character separates parts. -/
def IsSeparator (c : Char) : Prop := c = '.' ∨ c = '-'

instance (c : Char) : Decidable (IsSeparator c) := inferInstanceAs (Decidable (_ ∨ _))

/-- Reads a part up to a separator without a mark, or to the end. Only a backslash and the
separators have marks. -/
def readPart : List Char → Option (List Char × List Char)
  | [] => some ([], [])
  | c :: cs =>
    if IsSeparator c then some ([], c :: cs)
    else if c = '\\' then
      match cs with
      | [] => none
      | d :: ds =>
        if d = '\\' ∨ IsSeparator d then (readPart ds).map fun (w, rest) => (d :: w, rest) else none
    else (readPart cs).map fun (w, rest) => (c :: w, rest)

/-- A part ends here: nothing is left, or a separator is next. -/
def EndsPart (cs : List Char) : Prop := ∀ c ∈ cs.head?, IsSeparator c

/-- Where a part ends, an empty one is read. -/
theorem readPart_of_endsPart {cs : List Char} (h : EndsPart cs) : readPart cs = some ([], cs) := by
  rcases cs with _ | ⟨c, cs⟩
  · rfl
  · rw [readPart.eq_def]
    exact if_pos (h c rfl)

/-- A character behind a backslash belongs to the part. -/
theorem readPart_mark {d : Char} (hd : d = '\\' ∨ IsSeparator d) (ds : List Char) :
    readPart ('\\' :: d :: ds) = (readPart ds).map fun (w, rest) => (d :: w, rest) := by
  conv => lhs; rw [readPart.eq_def]
  simp only [if_neg (by decide : ¬ IsSeparator '\\'), if_pos hd, if_true]

/-- A character that is no mark belongs to the part. -/
theorem readPart_plain {c : Char} (hc : ¬ (c = '\\' ∨ IsSeparator c)) (cs : List Char) :
    readPart (c :: cs) = (readPart cs).map fun (w, rest) => (c :: w, rest) := by
  obtain ⟨hmark, hseparator⟩ := not_or.1 hc
  conv => lhs; rw [readPart.eq_def]
  simp only [if_neg hmark, if_neg hseparator]

/-- A backslash or a separator is written behind a backslash. -/
theorem escapePart_mark {c : Char} (hc : c = '\\' ∨ IsSeparator c) (cs : List Char) :
    escapePart (c :: cs) = '\\' :: c :: escapePart cs := if_pos hc

/-- Any other character is written as it is. -/
theorem escapePart_plain {c : Char} (hc : ¬ (c = '\\' ∨ IsSeparator c)) (cs : List Char) :
    escapePart (c :: cs) = c :: escapePart cs := if_neg hc

/-- What is read up to the end of a part is what was written there. -/
theorem readPart_eq_some_iff {cs w rest : List Char} :
    readPart cs = some (w, rest) ↔ cs = escapePart w ++ rest ∧ EndsPart rest := by
  constructor
  · intro h
    fun_induction readPart cs generalizing w with
    | case1 =>
      cases h
      exact ⟨rfl, nofun⟩
    | case2 c cs hc =>
      cases h
      refine ⟨rfl, ?_⟩
      rintro _ ⟨⟩
      exact hc
    | case3 => cases h
    | case4 d ds hd _ ih =>
      obtain ⟨⟨v, others⟩, hread, hsome⟩ := Option.map_eq_some_iff.1 h
      cases hsome
      obtain ⟨rfl, hends⟩ := ih hread
      exact ⟨by rw [escapePart_mark hd, List.cons_append, List.cons_append], hends⟩
    | case5 => cases h
    | case6 c cs hseparator hmark ih =>
      obtain ⟨⟨v, others⟩, hread, hsome⟩ := Option.map_eq_some_iff.1 h
      cases hsome
      obtain ⟨rfl, hends⟩ := ih hread
      exact ⟨by rw [escapePart_plain (not_or.2 ⟨hmark, hseparator⟩), List.cons_append], hends⟩
  · rintro ⟨rfl, hends⟩
    induction w with
    | nil => exact readPart_of_endsPart hends
    | cons c w ih =>
      by_cases hc : c = '\\' ∨ IsSeparator c
      · rw [escapePart_mark hc, List.cons_append, List.cons_append, readPart_mark hc, ih]
        rfl
      · rw [escapePart_plain hc, List.cons_append, readPart_plain hc, ih]
        rfl

/-! ## Four parts -/

/-- Reads a part and the given separator behind it. -/
def readPartBefore (separator : Char) (cs : List Char) : Option (List Char × List Char) :=
  match readPart cs with
  | some (w, c :: rest) => if c = separator then some (w, rest) else none
  | _ => none

/-- Reads the last part. -/
def readLastPart (cs : List Char) : Option (List Char) :=
  match readPart cs with
  | some (w, []) => some w
  | _ => none

/-- A part and the separator behind it are read exactly where they are written. -/
theorem readPartBefore_eq_some_iff {separator : Char} (hseparator : IsSeparator separator)
    {cs w rest : List Char} :
    readPartBefore separator cs = some (w, rest) ↔ cs = escapePart w ++ separator :: rest := by
  constructor
  · intro h
    unfold readPartBefore at h
    split at h
    · next v c others hread =>
      split at h
      · next hc =>
        cases h
        rw [(readPart_eq_some_iff.1 hread).1, hc]
      · cases h
    · cases h
  · intro h
    have hends : EndsPart (separator :: rest) := by
      rintro _ ⟨⟩
      exact hseparator
    rw [readPartBefore, readPart_eq_some_iff.2 ⟨h, hends⟩]
    exact if_pos rfl

/-- The last part is read exactly where it is written. -/
theorem readLastPart_eq_some_iff {cs w : List Char} :
    readLastPart cs = some w ↔ cs = escapePart w := by
  constructor
  · intro h
    unfold readLastPart at h
    split at h
    · next v hread =>
      cases h
      rw [(readPart_eq_some_iff.1 hread).1, List.append_nil]
    · cases h
  · intro h
    rw [readLastPart, readPart_eq_some_iff.2 ⟨h.trans (List.append_nil _).symm, nofun⟩]

/-- The table and the column that a reference starts from and those that it leads to, read from its
identifier. -/
def endpoints? (id : ReferenceId) : Option (String × String × String × String) :=
  match id.text.toList with
  | 'r' :: 'e' :: 'f' :: '-' :: cs => do
    let (fromTable, cs) ← readPartBefore '.' cs
    let (fromColumn, cs) ← readPartBefore '-' cs
    let (toTable, cs) ← readPartBefore '.' cs
    let toColumn ← readLastPart cs
    return (.ofList fromTable, .ofList fromColumn, .ofList toTable, .ofList toColumn)
  | _ => none

variable {a b c d : String}

/-- The identifier of four parts is the only text that they are read from. -/
theorem endpoints?_eq_some_iff {id : ReferenceId} :
    id.endpoints? = some (a, b, c, d) ↔ id = ofEndpoints a b c d := by
  have hdot : IsSeparator '.' := Or.inl rfl
  have hdash : IsSeparator '-' := Or.inr rfl
  constructor
  · intro h
    unfold endpoints? at h
    split at h
    · next cs htext =>
      obtain ⟨⟨v, cs⟩, hv, h⟩ := Option.bind_eq_some_iff.1 h
      obtain ⟨⟨w, cs⟩, hw, h⟩ := Option.bind_eq_some_iff.1 h
      obtain ⟨⟨x, cs⟩, hx, h⟩ := Option.bind_eq_some_iff.1 h
      obtain ⟨y, hy, h⟩ := Option.bind_eq_some_iff.1 h
      cases h
      rw [(readPartBefore_eq_some_iff hdot).1 hv, (readPartBefore_eq_some_iff hdash).1 hw,
        (readPartBefore_eq_some_iff hdot).1 hx, readLastPart_eq_some_iff.1 hy] at htext
      obtain ⟨text⟩ := id
      simp only [ofEndpoints, String.toList_ofList, ← htext, String.ofList_toList]
    · cases h
  · rintro rfl
    have hpart {separator : Char} (hseparator : IsSeparator separator) (w rest : List Char) :
        readPartBefore separator (escapePart w ++ separator :: rest) = some (w, rest) :=
      (readPartBefore_eq_some_iff hseparator).2 rfl
    have hlast (w : List Char) : readLastPart (escapePart w) = some w :=
      readLastPart_eq_some_iff.2 rfl
    simp [endpoints?, ofEndpoints, hpart hdot, hpart hdash, hlast]

/-- References share an identifier only if all four parts are equal, whatever characters these have:
the identifier of four parts is the only text that they are read back from. -/
theorem ofEndpoints_eq_iff (a b c d a' b' c' d' : String) :
    (ofEndpoints a b c d = ofEndpoints a' b' c' d' ↔ a = a' ∧ b = b' ∧ c = c' ∧ d = d') ∧
      ∀ id : ReferenceId, id.endpoints? = some (a, b, c, d) ↔ id = ofEndpoints a b c d := by
  refine ⟨⟨fun h => ?_, ?_⟩, fun id => endpoints?_eq_some_iff⟩
  · have hread := endpoints?_eq_some_iff.2 h
    rw [endpoints?_eq_some_iff.2 rfl] at hread
    cases hread
    exact ⟨rfl, rfl, rfl, rfl⟩
  · rintro ⟨rfl, rfl, rfl, rfl⟩
    rfl

/-- Marks tell the separators in a part from those between two parts. -/
example :
    (ofEndpoints "a.b" "" "d\\" "-").text = "ref-a\\.b.-d\\\\.\\-" ∧
      (ofEndpoints "a.b" "" "d\\" "-").endpoints? = some ("a.b", "", "d\\", "-") := by
  constructor <;> cbv

end ReferenceId

end SchemaDiagram
