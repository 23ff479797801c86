import Mathlib
import SchemaDiagram.Diagram.Markup
import SchemaDiagram.Proofs.Markup.Words

/-!
# Comments in markup

A comment of the model may have any text, and markup has line comments only. Each line of the text
becomes a comment of its own, without the blanks around it (`Markup.commentLines`). A text that
reading has made of a line comment is one line without such blanks, so it stays what it is.
-/

namespace SchemaDiagram

/-! ## Trimmed texts and lines -/

namespace Text

/-- Blanks are trimmed from the second text only if the first one is all blanks. -/
theorem trimStart_append (xs ys : List Char) :
    trimStart (xs ++ ys) = if (trimStart xs).isEmpty then trimStart ys else trimStart xs ++ ys :=
  List.dropWhile_append

/-- Blanks at the end are trimmed with what is trimmed behind the text. -/
theorem trimEnd_append_of_blank {xs ys : List Char} (h : ∀ c ∈ ys, isBlank c = true) :
    trimEnd (xs ++ ys) = trimEnd xs := by
  unfold trimEnd
  rw [List.reverse_append, List.dropWhile_append_of_pos (by simpa using h)]

/-- What is trimmed at the end is blanks. -/
theorem exists_trimEnd_append (cs : List Char) :
    ∃ blanks, (∀ c ∈ blanks, isBlank c = true) ∧ cs = trimEnd cs ++ blanks := by
  refine ⟨(cs.reverse.takeWhile isBlank).reverse, fun c hc => ?_, ?_⟩
  · rw [List.mem_reverse] at hc
    exact List.mem_takeWhile_imp hc
  · unfold trimEnd
    rw [← List.reverse_append, List.takeWhile_append_dropWhile, List.reverse_reverse]

/-- Blanks at the end make no difference to a text that is trimmed anyway. -/
theorem trim_trimEnd (cs : List Char) : trim (trimEnd cs) = trim cs := by
  obtain ⟨blanks, hblanks, hcs⟩ := exists_trimEnd_append cs
  conv_rhs => rw [hcs]
  unfold trim
  rw [trimStart_append]
  split
  · next hempty =>
    have hstart : trimStart blanks = [] := List.dropWhile_eq_nil_iff.2 hblanks
    rw [List.isEmpty_iff.1 hempty, hstart]
  · rw [trimEnd_append_of_blank hblanks]

/-- Trimming twice is trimming once. -/
theorem trim_trim (cs : List Char) : trim (trim cs) = trim cs := by
  have hstart : trimStart (trimStart cs) = trimStart cs := List.dropWhile_idempotent _ _
  calc trim (trim cs) = trim (trimStart cs) := trim_trimEnd _
    _ = trim cs := by rw [trim, hstart, trim]

/-- A space in front is trimmed. -/
theorem trim_space (cs : List Char) : trim (' ' :: cs) = trim cs := rfl

/-- Trimming the end adds no character. -/
theorem trimEnd_subset (cs : List Char) : trimEnd cs ⊆ cs := by
  obtain ⟨blanks, -, hcs⟩ := exists_trimEnd_append cs
  intro c hc
  rw [hcs]
  exact List.mem_append_left _ hc

/-- Trimming adds no character. -/
theorem trim_subset (cs : List Char) : trim cs ⊆ cs :=
  List.Subset.trans (trimEnd_subset _) (List.dropWhile_sublist _).subset

/-- A line has no line feed in it. -/
theorem newline_not_mem_of_mem_lines {cs l : List Char} (h : l ∈ lines cs) : '\n' ∉ l := by
  fun_induction lines cs generalizing l with
  | case1 => cases h
  | case2 rest ih =>
    rcases List.mem_cons.1 h with rfl | h
    · exact List.not_mem_nil
    · exact ih h
  | case3 c rest hc hrest ih =>
    obtain rfl := List.mem_singleton.1 h
    have hne : '\n' ≠ c := fun heq => hc heq.symm
    simpa using hne
  | case4 c rest hc first others hrest ih =>
    rw [hrest] at ih
    rcases List.mem_cons.1 h with rfl | h
    · have hne : '\n' ≠ c := fun heq => hc heq.symm
      have hfirst := ih List.mem_cons_self
      simp [hne, hfirst]
    · exact ih (List.mem_cons_of_mem _ h)

/-- A text without line feeds is one line. -/
theorem lines_of_newline_not_mem {cs : List Char} (h : '\n' ∉ cs) (hne : cs ≠ []) :
    lines cs = [cs] := by
  fun_induction lines cs with
  | case1 => exact absurd rfl hne
  | case2 rest => exact absurd List.mem_cons_self h
  | case3 c rest hc hrest ih =>
    have hnil : rest = [] := by
      by_contra hne
      rw [ih (fun hmem => h (List.mem_cons_of_mem _ hmem)) hne] at hrest
      cases hrest
    rw [hnil]
  | case4 c rest hc first others hrest ih =>
    have hne : rest ≠ [] := by
      rintro rfl
      cases hrest
    have hlines := ih (fun hmem => h (List.mem_cons_of_mem _ hmem)) hne
    rw [hrest] at hlines
    cases hlines
    rfl

end Text

/-! ## The comments of a comment -/

namespace Markup

/-- The comments that are read back from a comment: its lines without the blanks around them, or an
empty comment if it has no line. -/
def commentLines (c : String) : List String :=
  match Text.lines c.toList with
  | [] => [""]
  | ls => ls.map fun l => String.ofList (Text.trim l)

/-- A text that a line comment can have once it has been read. -/
structure IsCommentText (c : String) : Prop where
  /-- The text is one line. -/
  oneLine : '\n' ∉ c.toList
  /-- There are no blanks around it. -/
  trimmed : Text.trim c.toList = c.toList

/-- A comment's text is one line, which is written as it is. -/
theorem commentLines_of_isCommentText {c : String} (h : IsCommentText c) :
    commentLines c = [c] := by
  unfold commentLines
  by_cases hempty : c.toList = []
  · rw [hempty]
    exact congrArg (fun cs => [String.ofList cs]) hempty.symm |>.trans (by rw [String.ofList_toList])
  · rw [Text.lines_of_newline_not_mem h.oneLine hempty]
    simp only [List.map_cons, List.map_nil]
    rw [h.trimmed, String.ofList_toList]

/-- The texts of comments are written as they are. -/
theorem flatMap_commentLines {cs : List String} (h : ∀ c ∈ cs, IsCommentText c) :
    cs.flatMap commentLines = cs := by
  induction cs with
  | nil => rfl
  | cons c cs ih =>
    obtain ⟨hc, hcs⟩ := List.forall_mem_cons.1 h
    rw [List.flatMap_cons, commentLines_of_isCommentText hc, ih hcs]
    rfl

/-- Indentation is two spaces a level. -/
theorem toList_indentation (depth : Nat) :
    (indentation depth).toList = List.replicate (2 * depth) ' ' := by
  have hpush : ∀ n, ("".pushn ' ' n).toList = List.replicate n ' ' := by
    intro n
    rw [String.pushn_eq_repeat_push]
    induction n with
    | zero => rfl
    | succ n ih => rw [Nat.repeat, String.toList_push, ih, List.replicate_succ']
  exact hpush (2 * depth)

/-- A line is its indentation, its content and a line feed. -/
theorem toList_line (depth : Nat) (content : String) :
    (line depth content).toList =
      List.replicate (2 * depth) ' ' ++ (content.toList ++ ['\n']) := by
  unfold line
  rw [String.toList_append, String.toList_append, toList_indentation, List.append_assoc]
  rfl

end Markup

namespace Document.Lexes

variable {comments : List String} {rest : List Char} {ws : List Word}

/-- A line of a text has the words of its content. -/
theorem line (depth : Nat) {content : String}
    (h : Lexes comments (content.toList ++ '\n' :: rest) ws) :
    Lexes comments ((Markup.line depth content).toList ++ rest) ws := by
  rw [Markup.toList_line, List.append_assoc, List.append_assoc]
  refine Lexes.spaces (fun c hc => ?_) h
  rw [(List.mem_replicate.1 hc).2]
  rfl

/-- A comment is read line by line. -/
theorem comment_lines (depth : Nat) (c : String)
    (h : Lexes (comments ++ Markup.commentLines c) rest ws) :
    Lexes comments ((Markup.comment depth c).toList ++ rest) ws := by
  have hlines : ∀ ls : List (List Char), (∀ l ∈ ls, '\n' ∉ l) → ∀ comments,
      Lexes (comments ++ ls.map fun l => String.ofList (Text.trim l)) rest ws →
      Lexes comments ((String.join (ls.map fun l =>
        Markup.line depth ("// " ++ String.ofList (Text.trimEnd l)))).toList ++ rest) ws := by
    intro ls hls
    induction ls with
    | nil =>
      intro comments h
      simpa using h
    | cons l ls ih =>
      intro comments h
      obtain ⟨hl, hls⟩ := List.forall_mem_cons.1 hls
      rw [List.map_cons, String.join_cons, String.toList_append, List.append_assoc]
      refine Lexes.line depth ?_
      have hcontent : ("// " ++ String.ofList (Text.trimEnd l)).toList =
          '/' :: '/' :: ' ' :: Text.trimEnd l := by
        simp
      rw [hcontent]
      refine Lexes.commentLine (l := ' ' :: Text.trimEnd l) ?_ ?_
      · intro d hd
        rintro rfl
        rcases List.mem_cons.1 hd with hd | hd
        · cases hd
        · exact hl (Text.trimEnd_subset l hd)
      · rw [Text.trim_space, Text.trim_trimEnd]
        refine ih hls _ ?_
        rwa [List.append_assoc]
  unfold Markup.commentLines at h
  unfold Markup.comment
  cases hcut : Text.lines c.toList with
  | nil =>
    rw [hcut] at h
    have hcontent : "//".toList = ['/', '/'] := by simp
    refine Lexes.line depth ?_
    rw [hcontent]
    exact Lexes.commentLine (l := []) (by simp) h
  | cons l ls =>
    rw [hcut] at h
    refine hlines (l :: ls) (fun k hk => ?_) comments h
    rw [← hcut] at hk
    exact Text.newline_not_mem_of_mem_lines hk

/-- The comments that are written in front of a text stand in front of its first word. -/
theorem comments_lines (depth : Nat) (cs : List String)
    (h : Lexes (comments ++ cs.flatMap Markup.commentLines) rest ws) :
    Lexes comments ((Markup.comments depth cs).toList ++ rest) ws := by
  unfold Markup.comments
  induction cs generalizing comments with
  | nil => simpa using h
  | cons c cs ih =>
    rw [List.map_cons, String.join_cons, String.toList_append, List.append_assoc]
    refine comment_lines depth c (ih ?_)
    rwa [List.append_assoc]

end Document.Lexes

end SchemaDiagram
