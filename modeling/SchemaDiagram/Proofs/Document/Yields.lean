import SchemaDiagram.Proofs.Document.Changes
import SchemaDiagram.Proofs.Document.Surroundings

/-!
# What parsers yield

A property of the values that a parser reads, wherever it starts in some region of cursors. A region
is closed under reading on, so a property of a sequence or a repetition follows from those of its
parts. There is one rule for each way to put parsers together, and nothing is said of failures.

The rules are used here for what holds of every construct, wherever it is read: it starts where its
keyword does (`construct_yields`), and the header of a table or an area gives no columns.
-/

namespace SchemaDiagram.Document

/-- Reading does not leave the region. -/
def Cursor.IsRegion (I : Cursor → Prop) : Prop := ∀ c d, I c → c.Reaches d → I d

/-- The region of all cursors. -/
def Cursor.Anywhere : Cursor → Prop := fun _ => True

/-- No parser leaves the region of all cursors. -/
theorem Cursor.isRegion_anywhere : IsRegion Anywhere := fun _ _ h _ => h

namespace Parser

variable {α β σ : Type} {I : Cursor → Prop} {p : Parser α} {f : α → Parser β} {P : α → Prop}
  {Q : β → Prop} {S : σ → Prop}

/-- Every value that the parser reads in the region has the property. -/
def Yields (I : Cursor → Prop) (p : Parser α) (P : α → Prop) : Prop :=
  ∀ c, I c → ∀ a d, p.run c = .ok a d → P a

/-- A cursor where a value has been read is in the region. -/
theorem in_region (hI : Cursor.IsRegion I) {c d : Cursor} {a : α} (hc : I c)
    (hr : p.run c = .ok a d) : I d := by
  have hreaches := p.reaches c
  rw [hr] at hreaches
  exact hI c d hc hreaches

namespace Yields

/-- A returned value has the properties it has. -/
theorem pure {a : α} (h : P a) : Yields I (Pure.pure a) P := by
  rintro c _ _ _ ⟨⟩
  exact h

/-- Of any parser's value nothing need be said. -/
theorem any (p : Parser α) : Yields I p fun _ => True := fun _ _ _ _ _ => trivial

/-- The property of what is read may be weakened. -/
theorem mono {P' : α → Prop} (h : Yields I p P) (hP : ∀ a, P a → P' a) : Yields I p P' :=
  fun c hc a d hr => hP a (h c hc a d hr)

/-- What a parser yields anywhere it yields in a region. -/
theorem within (h : Yields Cursor.Anywhere p P) : Yields I p P := fun c _ => h c trivial

/-- A failure reads no value, so it yields anything. -/
theorem fail (e : Diagnostic) : Yields I (fail e) P := nofun

/-- A refusal reads no value, so it yields anything. -/
theorem unexpected (expected : String) : Yields I (unexpected expected) P := nofun

variable (hI : Cursor.IsRegion I)
include hI

/-- In sequence, the second parser's value has its property whenever the first one's has. -/
theorem bind (hp : Yields I p P) (hf : ∀ a, P a → Yields I (f a) Q) : Yields I (p >>= f) Q := by
  intro c hc b e hr
  obtain ⟨a, d, hd, hr⟩ := exists_of_run_bind hr
  exact hf a (hp c hc a d hd) d (in_region hI hc hd) b e hr

/-- What comes first makes no difference. -/
theorem bind_any (p : Parser α) (hf : ∀ a, Yields I (f a) Q) : Yields I (p >>= f) Q :=
  (any p).bind hI fun a _ => hf a

omit hI in
/-- The image of a value has the property that the value gives it. -/
theorem map (hp : Yields I p P) {g : α → β} (hg : ∀ a, P a → Q (g a)) : Yields I (g <$> p) Q := by
  intro c hc b d hr
  change (p >>= fun a => Pure.pure (g a)).run c = .ok b d at hr
  obtain ⟨a, e, he, ⟨⟩⟩ := exists_of_run_bind hr
  exact hg a (hp c hc a _ he)

/-- What the states of a repetition keep, and its last round makes of it. -/
theorem iterate {step : σ → Parser (σ ⊕ α)} (h : ∀ s, (step s).Consumes)
    (hstep : ∀ s, S s → Yields I (step s) fun r => r.elim S P) {s : σ} (hs : S s) :
    Yields I (iterate step h s) P := by
  intro c hc a d hr
  change iterate.loop step h s c = _ at hr
  fun_induction iterate.loop step h s c with
  | case1 s c s' e hround ih =>
    exact ih (hstep s hs c hc _ _ hround) (in_region hI hc hround) hr
  | case2 s c b e hround =>
    cases hr
    exact hstep s hs c hc _ _ hround
  | case3 s c b e hround => cases hr

/-- Filing comments leaves the value's property. -/
theorem takingComments (hp : Yields I p P) : Yields I p.takingComments fun r => P r.1 :=
  fun c hc r d hr =>
    hp _ (hI c _ hc c.reaches_takeComments) r.1 d (run_of_run_takingComments hr)

/-- Settings keep what each entry keeps. -/
theorem settings? {apply : σ → SettingKey → Parser (Option σ)}
    (happly : ∀ s key, S s → Yields I (apply s key) fun t => ∀ u ∈ t, S u) {s : σ} (hs : S s) :
    Yields I (settings? apply s) S := by
  have hentry (s : σ) (hs : S s) : Yields I (settingEntry apply s) S := by
    refine bind_any hI _ fun key => (happly s key hs).bind hI fun t ht => ?_
    rcases t with _ | t
    · exact bind_any hI _ fun _ => pure hs
    · exact pure (ht t rfl)
  refine bind_any hI _ fun isNext => ?_
  split
  · refine bind_any hI _ fun _ => iterate hI _ (fun s hs => bind_any hI _ fun k => ?_) hs
    split
    · exact bind_any hI _ fun _ => pure hs
    · exact bind_any hI _ fun _ => pure hs
    · exact (hentry s hs).bind hI fun t ht => bind_any hI _ fun _ => pure ht
  · exact pure hs

/-- A block keeps what each entry keeps. -/
theorem block (construct name : String) (opening : Span) {entry : σ → TokenKind → Parser σ}
    (h : ∀ s k, (entry s k).Consumes) (hentry : ∀ s k, S s → Yields I (entry s k) S) {s : σ}
    (hs : S s) : Yields I (block construct name opening entry h s) S := by
  refine iterate hI _ (fun s hs => bind_any hI _ fun k => ?_) hs
  split
  · exact fail _
  split
  · exact bind_any hI _ fun _ => pure hs
  split
  · exact fail _
  · exact (hentry s _ hs).bind hI fun t ht => pure ht

end Yields

/-- What the last part of a sequence yields anywhere, the sequence yields. -/
theorem Yields.later {p : Parser α} (hf : ∀ a, Yields Cursor.Anywhere (f a) Q) :
    Yields Cursor.Anywhere (p >>= f) Q :=
  .bind_any Cursor.isRegion_anywhere p hf

end Parser

/-! ## Where a construct starts -/

/-- The text of a construct. -/
def Construct.span : Construct → Span
  | project p => p.span
  | table t => t.span
  | reference r => r.span
  | area a => a.span

/-- Comments leave a construct's span. -/
@[simp] theorem Construct.span_withComments (comments : List String) (x : Construct) :
    (x.withComments comments).span = x.span := by
  cases x <;> rfl

namespace Parser

open Cursor

/-- A project starts at its keyword. -/
theorem project_yields (start : Span) :
    Yields Anywhere (project start) fun p => p.span.start = start.start :=
  .later fun _ => .later fun _ => .later fun _ => .later fun _ => .pure rfl

/-- A table starts at its keyword. -/
theorem table_yields (start : Span) :
    Yields Anywhere (table start) fun t => t.span.start = start.start :=
  .later fun _ => .later fun _ => .later fun _ => .later fun _ => .later fun _ => .later fun _ =>
    .pure rfl

/-- An area starts at its keyword. -/
theorem area_yields (start : Span) :
    Yields Anywhere (area start) fun a => a.span.start = start.start :=
  .later fun _ => .later fun _ => .later fun _ => .later fun _ => .later fun _ => .pure rfl

/-- A reference starts at its keyword. -/
theorem reference_yields (start : Span) :
    Yields Anywhere (reference start) fun r => r.span.start = start.start := by
  refine .later fun _ => .later fun _ => .later fun isBraced => .later fun _ => ?_
  refine .later fun _ => .later fun _ => .later fun _ => ?_
  split
  · exact .later fun _ => .later fun _ => .pure rfl
  · exact .later fun _ => .pure rfl

/-- A construct starts where its keyword does. -/
theorem construct_yields {k : TokenKind} {construct : Span → Parser Construct}
    (h : construct? k = some construct) (start : Span) :
    Yields Anywhere (construct start) fun x => x.span.start = start.start := by
  obtain ⟨-, rfl⟩ | ⟨-, rfl⟩ | ⟨-, rfl⟩ | ⟨-, rfl⟩ := construct?_eq_some h
  · exact (project_yields start).map fun _ hp => hp
  · exact (table_yields start).map fun _ ht => ht
  · exact (reference_yields start).map fun _ hr => hr
  · exact (area_yields start).map fun _ ha => ha

/-! ## Settings give no entries of the block -/

/-- An entry makes a change or none, so it keeps what every change keeps. -/
theorem apply_keeps {α : Type} {l : ListKind} {f : l.State → α}
    (hset : ∀ s change, f (l.set s change) = f s) (s : l.State) (key : SettingKey) :
    Yields Anywhere (l.apply s key) fun t => ∀ u ∈ t, f u = f s := by
  have hkept (change : Change) : ∀ u ∈ some (l.set s change), f u = f s := by
    rintro _ ⟨⟩
    exact hset s change
  have hnone : ∀ u ∈ (none : Option l.State), f u = f s :=
    fun _ h => absurd h (Option.not_mem_none _)
  refine ListKind.apply_of_reader (P := fun p => Yields Anywhere p fun t => ∀ u ∈ t, f u = f s)
    (fun field after _ => ?_) (.pure hnone)
  cases after with
  | nothing change => exact .pure (hkept change)
  | null change => exact .later fun _ => .pure (hkept change)
  | key change =>
    refine .later fun isKey => ?_
    split
    · exact .later fun _ => .pure (hkept change)
    · exact .pure hnone
  | text change => exact .later fun text => .pure (hkept (change text))
  | string change => exact .later fun text => .pure (hkept (change text))
  | checked view expectation =>
    refine .later fun change => .pure ?_
    cases change with
    | none => rintro _ ⟨⟩; rfl
    | some change => exact hkept change
  | default => exact .later fun value => .pure (hkept (.default value))

/-- A setting of a table leaves its columns and indexes alone. -/
theorem tableSetting_body (t : Table) (key : SettingKey) :
    Yields Anywhere (tableSetting t key) fun u =>
      ∀ v ∈ u, v.columns = t.columns ∧ v.indexes = t.indexes := by
  have hset (t : Table) (change : Change) : (ListKind.table.set t change).columns = t.columns ∧
      (ListKind.table.set t change).indexes = t.indexes := by
    cases change <;> exact ⟨rfl, rfl⟩
  have hkeeps := apply_keeps (l := .table) (f := fun t : Table => (t.columns, t.indexes))
    (fun t change => Prod.ext (hset t change).1 (hset t change).2) t key
  exact hkeeps.mono fun _ h v hv => Prod.mk.inj (h v hv)

/-- A setting of an area leaves its common columns alone. -/
theorem areaSetting_commonColumns (a : Area) (key : SettingKey) :
    Yields Anywhere (areaSetting a key) fun b => ∀ c ∈ b, c.commonColumns = a.commonColumns :=
  apply_keeps (l := .area) (f := Area.commonColumns) (fun _ change => by cases change <;> rfl) a key

end Parser

end SchemaDiagram.Document
