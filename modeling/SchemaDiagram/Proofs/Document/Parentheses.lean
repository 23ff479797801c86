import SchemaDiagram.Proofs.Document.Ahead
import SchemaDiagram.Proofs.Document.Parts

/-!
# Texts in parentheses are balanced

A text in parentheses ends at the parenthesis that closes it, found by one count of the parentheses
that are open. The count is never taken below zero: behind each part of the text it is the number of
opening parentheses passed less the number of closing ones (`rawLength_passed`). So what stands in
front of the closing parenthesis is balanced, and a balanced run with a closing parenthesis behind it
is read whatever comes then.

Main statement: `run_parenthesized_iff`.
-/

namespace SchemaDiagram.Document

open SchemaDiagram.Document.Parser Grammar

/-! ## Counting parentheses -/

/-- What a token adds to the number of open parentheses. -/
def parenDelta (t : Token) : Int :=
  if t.kind = .mark .leftParen then 1 else if t.kind = .mark .rightParen then -1 else 0

/-- How many more parentheses some tokens open than they close. -/
def openParens : List Token → Int
  | [] => 0
  | t :: ts => parenDelta t + openParens ts

/-- No tokens leave no parenthesis open. -/
@[simp] theorem openParens_nil : openParens [] = 0 := rfl

/-- A token adds its parenthesis to those that the tokens behind it leave open. -/
@[simp] theorem openParens_cons (t : Token) (ts : List Token) :
    openParens (t :: ts) = parenDelta t + openParens ts := rfl

/-- Two lists of tokens leave open what each leaves open, added up. -/
@[simp] theorem openParens_append (ts us : List Token) :
    openParens (ts ++ us) = openParens ts + openParens us := by
  induction ts with
  | nil => exact (Int.zero_add _).symm
  | cons t ts ih => rw [List.cons_append, openParens_cons, openParens_cons, ih, Int.add_assoc]

/-- One token of a text in parentheses that is closed: the parenthesis that closes it, or a token
behind which the count has changed by what the token adds. -/
theorem rawLength_cons_of_closed {depth : Nat} {t : CommentedToken} {ts : List CommentedToken}
    (h : (rawLength depth (t :: ts)).2 = true) :
    (rawLength depth (t :: ts)).1 = 0 ∧ depth = 0 ∧ t.token.kind = .mark .rightParen ∨
      ∃ inner : Nat, (inner : Int) = depth + parenDelta t.token ∧
        t.token.kind.opensConstruct = false ∧ (rawLength inner ts).2 = true ∧
        (rawLength depth (t :: ts)).1 = (rawLength inner ts).1 + 1 := by
  simp only [rawLength] at h ⊢
  split at h
  · next hclose =>
    rw [if_pos hclose]
    exact Or.inl ⟨rfl, hclose.2, hclose.1⟩
  split at h
  · cases h
  · next hclose hopens =>
    rw [if_neg hclose, if_neg hopens]
    refine Or.inr ⟨_, ?_, by simpa using hopens, h, rfl⟩
    unfold parenDelta
    split
    · omega
    · split
      · next hright =>
        -- the count is positive here, or this would be the closing parenthesis
        have hdepth : depth ≠ 0 := fun hzero => hclose ⟨hright, hzero⟩
        omega
      · omega

/-- The number of parentheses that are open is counted exactly: behind each part of a text in
parentheses that is closed, it is the number in front plus those that the part opens, less those
that it closes, which is never below zero. -/
theorem rawLength_passed {depth : Nat} {ts : List CommentedToken}
    (h : (rawLength depth ts).2 = true) (n : Nat) (hn : n ≤ (rawLength depth ts).1) :
    ∃ inner : Nat, (inner : Int) = depth + openParens ((ts.take n).map (·.token)) ∧
      rawLength inner (ts.drop n) = ((rawLength depth ts).1 - n, true) := by
  induction n generalizing depth ts with
  | zero =>
    refine ⟨depth, by simp, ?_⟩
    rw [List.drop_zero, Nat.sub_zero, ← h]
  | succ n ih =>
    cases ts with
    | nil => cases h
    | cons t ts =>
      rcases rawLength_cons_of_closed h with ⟨hzero, -⟩ | ⟨inner, hinner, -, hclosed, hlength⟩
      · omega
      · obtain ⟨deeper, hdeeper, hrest⟩ := ih hclosed (by omega)
        refine ⟨deeper, ?_, ?_⟩
        · rw [hdeeper, hinner, List.take_succ_cons, List.map_cons, openParens_cons,
            Int.add_assoc]
        · rw [List.drop_succ_cons, hrest, hlength, Nat.add_sub_add_right]

/-! ## Balanced runs -/

/-- Tokens that close `depth` parentheses and are balanced otherwise. -/
def Closes : Nat → List Token → Prop
  | 0, ts => Balanced ts
  | depth + 1, ts => ∃ us closing vs, ts = us ++ closing :: vs ∧ Balanced us ∧
      closing.kind = .mark .rightParen ∧ Closes depth vs

/-- Balanced tokens in front make no difference. -/
theorem Closes.append {depth : Nat} {ts : List Token}
    (hbalanced : ∀ {us}, Balanced us → Balanced (ts ++ us)) {us : List Token}
    (h : Closes depth us) : Closes depth (ts ++ us) := by
  cases depth with
  | zero => exact hbalanced h
  | succ depth =>
    obtain ⟨vs, closing, ws, rfl, hvs, hclosing, hws⟩ := h
    exact ⟨ts ++ vs, closing, ws, (List.append_assoc _ _ _).symm, hbalanced hvs, hclosing, hws⟩

/-- What stands in front of the closing parenthesis closes the parentheses that are open. -/
theorem closes_of_closed {depth : Nat} {ts : List CommentedToken}
    (h : (rawLength depth ts).2 = true) :
    ∃ us closing vs, ts.map (·.token) = us ++ closing :: vs ∧ closing.kind = .mark .rightParen ∧
      us.length = (rawLength depth ts).1 ∧ Closes depth us := by
  induction ts generalizing depth with
  | nil => cases h
  | cons t ts ih =>
    rcases rawLength_cons_of_closed h with
      ⟨hzero, rfl, hclosing⟩ | ⟨inner, hinner, hopens, hclosed, hlength⟩
    · exact ⟨[], t.token, ts.map (·.token), rfl, hclosing, hzero.symm, Balanced.nil⟩
    obtain ⟨us, closing, vs, htokens, hclosing, hus, hcloses⟩ := ih hclosed
    refine ⟨t.token :: us, closing, vs, by rw [List.map_cons, htokens]; rfl, hclosing,
      by rw [List.length_cons, hus, hlength], ?_⟩
    unfold parenDelta at hinner
    split at hinner
    · next hleft =>
      -- the parenthesis that is opened here is closed by the first one that is left over
      obtain rfl : inner = depth + 1 := by omega
      obtain ⟨vs, last, ws, rfl, hvs, hlast, hws⟩ := hcloses
      have happ : t.token :: (vs ++ last :: ws) = (t.token :: (vs ++ [last])) ++ ws := by simp
      rw [happ]
      refine Closes.append (fun hrest => ?_) hws
      have hgroup := Balanced.group hleft hvs hlast hrest
      simpa using hgroup
    split at hinner
    · next hright =>
      obtain rfl : depth = inner + 1 := by omega
      exact ⟨[], t.token, us, rfl, .nil, hright, hcloses⟩
    · next hleft hright =>
      obtain rfl : depth = inner := by omega
      exact @Closes.append depth [t.token] (fun hrest => .cons hleft hright hopens hrest) _ hcloses

/-- A balanced run is passed up to the closing parenthesis behind it. -/
theorem rawLength_of_balanced {ts : List CommentedToken} {us vs : List Token} {closing : Token}
    (hts : ts.map (·.token) = us ++ closing :: vs) (h : Balanced us)
    (hclosing : closing.kind = .mark .rightParen) : rawLength 0 ts = (us.length, true) := by
  have hbare : ((us ++ closing :: vs).map fun t => (⟨[], t⟩ : CommentedToken)).map (·.token) =
      us ++ closing :: vs := by
    rw [List.map_map]
    exact List.map_id _
  rw [rawLength_congr (hts.trans hbare.symm) 0, rawLength_balanced h, List.map_cons, rawLength,
    if_pos ⟨hclosing, rfl⟩, Nat.zero_add]

/-! ## Reading texts in parentheses -/

section Reading

variable {c d : Cursor}

/-- A text in parentheses is read exactly where a balanced run of tokens stands between them; the
text is that of the run, and reading stops behind the closing parenthesis. -/
theorem run_parenthesized_iff {text : String} :
    parenthesized.run c = .ok text d ↔
      ∃ opening inner closing, c.tokens = opening :: (inner ++ closing :: d.tokens) ∧
        opening.kind = .mark .leftParen ∧ Balanced inner ∧ closing.kind = .mark .rightParen ∧
        text = rawText inner ∧ d = c.advanceBy (inner.length + 2) := by
  have htext : ∀ {ts : List CommentedToken} {inner behind : List Token},
      ts.map (·.token) = inner ++ behind → (ts.take inner.length).map (·.token) = inner := by
    intro ts inner behind hts
    rw [List.map_take, hts, List.take_left' rfl]
  constructor
  · intro h
    rw [run_parenthesized] at h
    split at h
    · next opening e hexpect =>
      obtain ⟨hopening, htokens, rfl⟩ := exists_of_run_expect hexpect
      split at h
      · next hclosed =>
        -- the closing parenthesis is the first one that leaves none open
        obtain ⟨inner, closing, vs, hinner, hclosing, hlength, hbalanced⟩ := closes_of_closed hclosed
        rw [← hlength, htext hinner] at h
        obtain ⟨t, e, hany, hpure⟩ := exists_of_run_bind h
        obtain ⟨-, hbehind, rfl⟩ := exists_of_run_take hany
        cases hpure
        rw [Cursor.tokens_advanceBy_of_append hinner] at hbehind
        refine ⟨opening, inner, closing, ?_, hopening, hbalanced, hclosing, rfl, ?_⟩
        · rw [htokens, ← (List.cons.inj hbehind).2]
          exact congrArg (opening :: ·) hinner
        · exact (Cursor.advanceBy_add (inner.length + 1) 1 c).symm
      · cases h
    · cases h
  · rintro ⟨opening, inner, closing, htokens, hopening, hbalanced, hclosing, rfl, hd⟩
    have hinner := Cursor.tokens_advance htokens
    rw [run_parenthesized, run_expect_of_tokens htokens hopening]
    simp only [rawLength_of_balanced hinner hbalanced hclosing, if_true, htext hinner]
    refine (run_bind_of_ok (run_take_of_tokens (Cursor.tokens_advanceBy_of_append hinner) rfl)).trans
      ?_
    rw [hd, Cursor.advanceBy_add (inner.length + 1) 1 c]
    rfl

/-- At each place of a balanced run that a closing parenthesis follows, the parentheses that are open
are counted exactly, and so at least as many have been opened as closed. -/
theorem rawLength_drop_of_balanced {ts : List CommentedToken} {inner vs : List Token}
    {closing : Token} (hts : ts.map (·.token) = inner ++ closing :: vs) (h : Balanced inner)
    (hclosing : closing.kind = .mark .rightParen) {n : Nat} (hn : n ≤ inner.length) :
    ∃ depth : Nat, (depth : Int) = openParens (inner.take n) ∧
      rawLength depth (ts.drop n) = (inner.length - n, true) := by
  have hlength := rawLength_of_balanced hts h hclosing
  obtain ⟨depth, hdepth, hrest⟩ := rawLength_passed (n := n) (by rw [hlength]) (by rwa [hlength])
  rw [hlength] at hrest
  refine ⟨depth, ?_, hrest⟩
  rw [hdepth, List.map_take, hts, List.take_append_of_le_length hn]
  exact Int.zero_add _

/-- A balanced run opens as many parentheses as it closes. -/
theorem openParens_of_balanced {inner : List Token} (h : Balanced inner) : openParens inner = 0 := by
  induction h with
  | nil => rfl
  | cons hleft hright _ _ ih => simp [parenDelta, hleft, hright, ih]
  | group hopening _ hclosing _ ih ih' =>
    simp [parenDelta, hopening, hclosing, ih, ih']

end Reading

end SchemaDiagram.Document
