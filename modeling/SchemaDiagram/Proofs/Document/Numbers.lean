import SchemaDiagram.Proofs.Document.Attempts
import SchemaDiagram.Proofs.Document.Writable

/-!
# The numbers of a document

The numbers of a document are those that tokens of its source text spell: whatever holds of the
numbers that lie ahead holds of the numbers that are read (`numbers_ofTokens`).
-/

namespace SchemaDiagram.Document

/-- The coordinates of a table. -/
def Table.numbers (t : Table) : List Number := t.posX.toList ++ t.posY.toList

/-- The coordinates and the sizes of an area. -/
def Area.numbers (a : Area) : List Number :=
  a.posX.toList ++ a.posY.toList ++ a.width.toList ++ a.height.toList

/-- A table's numbers are its position's. -/
theorem Table.mem_numbers {t : Table} {x : Number} :
    x ∈ t.numbers ↔ t.posX = some x ∨ t.posY = some x := by
  simp [numbers]

/-- An area's numbers are those of its position and size. -/
theorem Area.mem_numbers {a : Area} {x : Number} : x ∈ a.numbers ↔
    a.posX = some x ∨ a.posY = some x ∨ a.width = some x ∨ a.height = some x := by
  simp [numbers]

/-- The numbers of a construct. -/
def Construct.numbers : Construct → List Number
  | table t => t.numbers
  | area a => a.numbers
  | project _ => []
  | reference _ => []

/-- Comments leave a construct's numbers. -/
theorem Construct.numbers_withComments (comments : List String) (x : Construct) :
    (x.withComments comments).numbers = x.numbers := by
  cases x <;> rfl

namespace Cursor

/-- Whatever number a token ahead spells, it has the property. -/
def SpellsOnly (P : Number → Prop) (c : Cursor) : Prop :=
  ∀ t ∈ c.tokens, ∀ x ∈ Parser.numberOf? t, P x

/-- Parsers stay within tokens that spell only the given numbers. -/
theorem isRegion_spellsOnly (P : Number → Prop) : IsRegion (SpellsOnly P) :=
  fun _ _ h hd t ht => h t (hd.suffix.subset ht)

end Cursor

namespace Parser

open Cursor

variable {P : Number → Prop}

/-! ## Settings -/

/-- The token that is taken was ahead. -/
theorem take_spellsOnly (accepts : Token → Bool) (expected : String) :
    Yields (SpellsOnly P) (take accepts expected) fun t => ∀ x ∈ numberOf? t, P x := by
  intro c hc t d hr
  unfold take at hr
  rcases hrest : c.rest with _ | ⟨u, others⟩
  · simp only [hrest] at hr
    cases hr
  · simp only [hrest] at hr
    split at hr
    · cases hr
      exact hc _ (by rw [tokens, hrest]; exact List.mem_cons_self)
    · cases hr

/-- A setting's number is one that a token spells. -/
theorem settingNumber_yields (key : SettingKey) :
    Yields (SpellsOnly P) (settingNumber key) fun x? => ∀ x ∈ x?, P x := by
  have hvalue : Yields (SpellsOnly P) settingValue fun t => ∀ x ∈ numberOf? t, P x :=
    .bind_any (isRegion_spellsOnly P) _ fun _ => take_spellsOnly _ _
  refine hvalue.bind (isRegion_spellsOnly P) fun t ht => ?_
  split
  · next x hx =>
    refine .pure ?_
    rintro _ ⟨⟩
    exact ht x hx
  · exact .bind_any (isRegion_spellsOnly P) _ fun _ =>
      .pure fun _ h => absurd h (Option.not_mem_none _)

section Set

variable {σ : Type} {numbers : σ → List Number} {s : σ}

/-- A setting that takes no number keeps the numbers. -/
theorem set_numbers {α : Type} (hs : ∀ x ∈ numbers s, P x) (p : Parser α) {set : α → σ}
    (hset : ∀ a, numbers (set a) = numbers s) :
    Yields (SpellsOnly P) (p >>= fun a => Pure.pure (some (set a))) fun u =>
      ∀ v ∈ u, ∀ x ∈ numbers v, P x := by
  refine .bind_any (isRegion_spellsOnly P) _ fun a => .pure ?_
  rintro _ ⟨⟩
  rw [hset a]
  exact hs

/-- A number that is set is one that a token spells. -/
theorem setNumber_numbers (hs : ∀ x ∈ numbers s, P x) (key : SettingKey) {set : Option Number → σ}
    (hset : ∀ x?, ∀ x ∈ numbers (set x?), x? = some x ∨ x ∈ numbers s) :
    Yields (SpellsOnly P) (settingNumber key >>= fun x? => Pure.pure (some (set x?))) fun u =>
      ∀ v ∈ u, ∀ x ∈ numbers v, P x := by
  refine (settingNumber_yields key).bind (isRegion_spellsOnly P) fun x? hx? => .pure ?_
  rintro _ ⟨⟩ x hx
  exact (hset x? x hx).elim (hx? x) (hs x)

end Set

/-- A setting of a table adds only numbers that tokens spell. -/
theorem tableSetting_numbers {t : Table} (ht : ∀ x ∈ t.numbers, P x) (key : SettingKey) :
    Yields (SpellsOnly P) (tableSetting t key) fun u => ∀ v ∈ u, ∀ x ∈ v.numbers, P x := by
  unfold tableSetting
  split
  case h_2 | h_3 =>
    refine setNumber_numbers ht key fun x? x hx => ?_
    simp only [Table.mem_numbers, Option.or_eq_some_iff] at hx ⊢
    tauto
  case h_7 => exact .pure fun _ h => absurd h (Option.not_mem_none _)
  all_goals exact set_numbers ht _ fun _ => rfl

/-- A setting of an area adds only numbers that tokens spell. -/
theorem areaSetting_numbers {a : Area} (ha : ∀ x ∈ a.numbers, P x) (key : SettingKey) :
    Yields (SpellsOnly P) (areaSetting a key) fun b => ∀ c ∈ b, ∀ x ∈ c.numbers, P x := by
  unfold areaSetting
  split
  case h_1 | h_2 | h_3 | h_4 =>
    refine setNumber_numbers ha key fun x? x hx => ?_
    simp only [Area.mem_numbers, Option.or_eq_some_iff] at hx ⊢
    tauto
  case h_10 => exact .pure fun _ h => absurd h (Option.not_mem_none _)
  all_goals exact set_numbers ha _ fun _ => rfl

/-! ## Constructs -/

/-- An entry of a table's body adds only numbers that tokens spell. -/
theorem tableEntry_numbers {t : Table} (ht : ∀ x ∈ t.numbers, P x) (k : TokenKind) :
    Yields (SpellsOnly P) (tableEntry t k) fun u => ∀ x ∈ u.numbers, P x := by
  have hI := isRegion_spellsOnly P
  refine .bind_any hI _ fun second => ?_
  split
  · exact .bind_any hI _ fun _ => .pure ht
  split
  · exact .bind_any hI _ fun _ => .pure ht
  split
  · exact .bind_any hI _ fun _ => .pure ht
  · exact .bind_any hI _ fun _ => .pure ht

/-- A table's numbers are spelled by its tokens. -/
theorem table_numbers (start : Span) :
    Yields (SpellsOnly P) (table start) fun t => ∀ x ∈ t.numbers, P x := by
  have hI := isRegion_spellsOnly P
  refine .bind_any hI _ fun _ => .bind_any hI _ fun _ => ?_
  refine .bind hI (P := fun t : Table => ∀ x ∈ t.numbers, P x)
    (.settings? hI (fun t key ht => tableSetting_numbers ht key)
      fun _ h => absurd h List.not_mem_nil)
    fun head hhead => .bind_any hI _ fun _ => ?_
  refine .bind hI (.block hI _ _ _ _ (fun t k ht => tableEntry_numbers ht k) hhead) fun t ht => ?_
  exact .bind_any hI _ fun _ => .pure ht

/-- An entry of an area's body adds only numbers that tokens spell. -/
theorem areaEntry_numbers {a : Area} (ha : ∀ x ∈ a.numbers, P x) (k : TokenKind) :
    Yields (SpellsOnly P) (areaEntry a k) fun b => ∀ x ∈ b.numbers, P x := by
  have hI := isRegion_spellsOnly P
  refine .bind_any hI _ fun second => ?_
  split
  · exact .bind_any hI _ fun _ => .pure ha
  split
  · exact .bind_any hI _ fun _ => .pure ha
  split
  · refine .bind_any hI _ fun key => (areaSetting_numbers ha key).bind hI fun b hb => ?_
    rcases b with _ | b
    · exact .bind_any hI _ fun _ => .pure ha
    · exact .pure (hb b rfl)
  split
  · exact .bind_any hI _ fun _ => .pure ha
  · exact .bind_any hI _ fun _ => .pure ha

/-- An area's numbers are spelled by its tokens. -/
theorem area_numbers (start : Span) :
    Yields (SpellsOnly P) (area start) fun a => ∀ x ∈ a.numbers, P x := by
  have hI := isRegion_spellsOnly P
  refine .bind_any hI _ fun _ => ?_
  refine .bind hI (P := fun a : Area => ∀ x ∈ a.numbers, P x)
    (.settings? hI (fun a key ha => areaSetting_numbers ha key)
      fun _ h => absurd h List.not_mem_nil)
    fun head hhead => .bind_any hI _ fun _ => ?_
  refine .bind hI (.block hI _ _ _ _ (fun a k ha => areaEntry_numbers ha k) hhead) fun a ha => ?_
  exact .bind_any hI _ fun _ => .pure ha

/-- Every construct's numbers are spelled by its tokens, whichever keyword selects it. -/
theorem construct_numbers {k : TokenKind} {construct : Span → Parser Construct}
    (h : construct? k = some construct) (start : Span) :
    Yields (SpellsOnly P) (construct start) fun x => ∀ y ∈ x.numbers, P y := by
  obtain ⟨-, rfl⟩ | ⟨-, rfl⟩ | ⟨-, rfl⟩ | ⟨-, rfl⟩ := construct?_eq_some h
  · exact (Yields.any _).map fun _ _ _ hy => absurd hy List.not_mem_nil
  · exact (table_numbers start).map fun _ ht => ht
  · exact (Yields.any _).map fun _ _ _ hy => absurd hy List.not_mem_nil
  · exact (area_numbers start).map fun _ ha => ha

end Parser

/-! ## Documents -/

/-- Whatever holds of every number that a token spells holds of the numbers of the document. -/
theorem numbers_ofTokens {P : Number → Prop} {ts : List Token}
    (h : ∀ t ∈ ts, ∀ x ∈ Parser.numberOf? t, P x) :
    ∀ x ∈ (ofTokens ts).document.constructs, ∀ y ∈ x.numbers, P y := by
  have hspells : (Cursor.ofTokens ts).SpellsOnly P := by
    intro t ht
    obtain ⟨u, hu, rfl⟩ := List.mem_map.1 ht
    exact h _ (mem_gatherComments hu).1
  intro x hx
  obtain ⟨z, d, hz, -, rfl⟩ := exists_of_mem_readConstructs (Cursor.isRegion_spellsOnly P)
    Parser.construct_numbers hspells x hx
  rw [Construct.numbers_withComments]
  exact hz

end SchemaDiagram.Document
