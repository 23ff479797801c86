import Mathlib.Data.List.Perm.Basic
import SchemaDiagram.Proofs.Document.Entries

/-!
# Lists of entries in any order

The tokens between the brackets of a list of settings are its entries with commas around them: at
least one behind each entry that is not the last, and any number anywhere else (`Laid`). Where every
entry was accepted, the list is read without a diagnostic and makes the changes of its entries one
after the other (`Laid.run_settings?`). Changes of different fields commute, so the order of the
entries does not matter where no two of them set the same field.

Main statement: `Laid.exists_run_settings?_of_perm`.
-/

namespace SchemaDiagram.Document

open SchemaDiagram.Document.Parser

/-- The tokens of a list of entries, with commas in front of, between and behind them. Behind each
entry stands a comma, unless nothing does. -/
inductive Laid : List (List Token) → List Token → Prop
  | nil : Laid [] []
  | comma {entries : List (List Token)} {ts : List Token} {t : Token}
    (ht : t.kind = .mark .comma) (h : Laid entries ts) : Laid entries (t :: ts)
  | entry {entries : List (List Token)} {entry ts : List Token} (h : Laid entries ts)
    (hnext : ∀ t ∈ ts.head?, t.kind = .mark .comma) : Laid (entry :: entries) (entry ++ ts)

section Changes

variable {l : ListKind} {entries entries' : List (List Token)} {changes changes' : List Change}

/-! ## Changes in any order -/

/-- Changes of fields that are all different can be made in any order. -/
theorem foldl_set_of_perm (hperm : changes.Perm changes')
    (hfields : (changes.map Change.field).Nodup) (s : l.State) :
    changes.foldl l.set s = changes'.foldl l.set s := by
  refine hperm.foldl_eq' (fun x hx y hy s => ?_) s
  by_cases h : x.field = y.field
  · rw [List.inj_on_of_nodup_map hfields hx hy h]
  · exact ListKind.set_comm h s

/-- Entries that a list accepts each have a change. -/
theorem exists_changes (h : ∀ entry ∈ entries, Accepts l entry) :
    ∃ changes, List.Forall₂ (IsEntry l) entries changes := by
  induction entries with
  | nil => exact ⟨[], .nil⟩
  | cons entry entries ih =>
    obtain ⟨hentry, hentries⟩ := List.forall_mem_cons.1 h
    obtain ⟨change, hsaid⟩ := hentry.exists_isEntry
    obtain ⟨changes, hchanges⟩ := ih hentries
    exact ⟨change :: changes, .cons hsaid hchanges⟩

/-- The fields that entries set are those that their changes change. -/
theorem map_fieldOf? (h : List.Forall₂ (IsEntry l) entries changes) :
    entries.map l.fieldOf? = (changes.map Change.field).map some := by
  induction h with
  | nil => rfl
  | cons hsaid _ ih => rw [List.map_cons, List.map_cons, List.map_cons, hsaid.fieldOf?_eq, ih]

end Changes

/-! ## Reading a list -/

section Reading

variable {l : ListKind} {entries entries' : List (List Token)} {changes : List Change}
  {c : Cursor} {opening closing : Token} {ts ts' ws : List Token}

/-- Up to its closing bracket a list makes the changes of its entries. -/
theorem Laid.run_settingsRest (h : Laid entries ts)
    (hsaid : List.Forall₂ (IsEntry l) entries changes)
    (hclosing : closing.kind = .mark .rightBracket) (s : l.State)
    (hc : c.tokens = ts ++ closing :: ws) :
    (settingsRest l.apply s).run c = .ok (changes.foldl l.set s) (c.advanceBy (ts.length + 1)) := by
  induction h generalizing changes c s with
  | nil =>
    cases hsaid
    refine run_settingsRest_of_rightBracket ?_ s
    rw [Cursor.kind?_eq, hc]
    exact congrArg some hclosing
  | comma ht h ih =>
    have hcomma : c.kind? = some (.mark .comma) := by
      rw [Cursor.kind?_eq, hc]
      exact congrArg some ht
    exact (run_settingsFrom_of_comma hcomma false s).trans (ih hsaid s (Cursor.tokens_advance hc))
  | @entry entries entry ts h hnext ih =>
    rcases hsaid with _ | ⟨hentry, hentries⟩
    rw [List.append_assoc] at hc
    have hends : EntryEnds ((ts ++ closing :: ws).head?.map (·.kind)) := by
      cases ts with
      | nil => exact Or.inr (congrArg some hclosing)
      | cons t ts => exact Or.inl (congrArg some (hnext t rfl))
    have hbehind := Cursor.tokens_advanceBy_of_append hc
    rw [run_settingsRest_of_entry (hentry.run_settingEntry s hc hends),
      run_settingsFrom_eq fun _ => by rwa [Cursor.kind?_eq, hbehind], ih hentries _ hbehind,
      ← Cursor.advanceBy_add, List.length_append, Nat.add_assoc]
    rfl

/-- A list makes the changes of its entries and reports nothing. -/
theorem Laid.run_settings? (h : Laid entries ts)
    (hsaid : List.Forall₂ (IsEntry l) entries changes)
    (hopening : opening.kind = .mark .leftBracket)
    (hclosing : closing.kind = .mark .rightBracket) (s : l.State)
    (hc : c.tokens = opening :: (ts ++ closing :: ws)) :
    (settings? l.apply s).run c = .ok (changes.foldl l.set s) (c.advanceBy (ts.length + 2)) := by
  have hbracket : c.kind? = some (.mark .leftBracket) := by
    rw [Cursor.kind?_eq, hc]
    exact congrArg some hopening
  rw [(Gap.first hbracket).run_settings?]
  exact h.run_settingsRest hsaid hclosing s (Cursor.tokens_advance hc)

/-- Two lists of the same accepted entries in any order, with any commas that they need or do not
need, say the same if no two of the entries set one field: reading either of them takes its tokens,
reports nothing and makes the changes of the entries. -/
theorem Laid.exists_run_settings?_of_perm (h : Laid entries ts) (h' : Laid entries' ts')
    (hperm : entries'.Perm entries) (haccepted : ∀ entry ∈ entries, Accepts l entry)
    (hfields : (entries.map l.fieldOf?).Nodup) (hopening : opening.kind = .mark .leftBracket)
    (hclosing : closing.kind = .mark .rightBracket) (s : l.State) :
    ∃ changes, List.Forall₂ (IsEntry l) entries changes ∧
      (∀ (c : Cursor) (ws : List Token), c.tokens = opening :: (ts ++ closing :: ws) →
        (settings? l.apply s).run c = .ok (changes.foldl l.set s) (c.advanceBy (ts.length + 2))) ∧
      ∀ (c : Cursor) (ws : List Token), c.tokens = opening :: (ts' ++ closing :: ws) →
        (settings? l.apply s).run c =
          .ok (changes.foldl l.set s) (c.advanceBy (ts'.length + 2)) := by
  obtain ⟨changes, hsaid⟩ := exists_changes haccepted
  obtain ⟨changes', hsaid', hperm'⟩ := List.perm_comp_forall₂ hperm hsaid
  rw [map_fieldOf? hsaid] at hfields
  refine ⟨changes, hsaid, fun c ws hc => h.run_settings? hsaid hopening hclosing s hc,
    fun c ws hc => ?_⟩
  rw [foldl_set_of_perm hperm'.symm (List.Nodup.of_map _ hfields)]
  exact h'.run_settings? hsaid' hopening hclosing s hc

end Reading

end SchemaDiagram.Document
