import SchemaDiagram.Proofs.Command.Canonical
import SchemaDiagram.Proofs.Files.Looking

/-!
# Runs of the formatter

What formatting files in place makes of a file tree: each file that compiles without warnings holds
its canonical form, and nothing else is changed (`IsFormatted`). Formatting one file does this to
one path (`formatFile_inPlace`), and since the canonical form of a canonical form is the same, it
makes no difference whether two paths lead to one file (`IsFormatted.cons`).
-/

namespace SchemaDiagram

/-- The diagram files that are found on a tree. -/
def FileTree.diagramFiles (tree : FileTree) (extension : String) (paths : List String) :
    Except SearchError (List String) :=
  (SchemaDiagram.diagramFiles extension paths : ExceptT SearchError (ReaderM FileTree) _).run tree

namespace Format

/-- A path to a text that can be formatted. -/
def IsFormattableAt (options : CompileOptions) (tree : FileTree) (path : String) : Prop :=
  ∃ text, tree.read path = .ok text ∧ IsFormattable options text

instance (options : CompileOptions) (tree : FileTree) (path : String) :
    Decidable (IsFormattableAt options tree path) :=
  match h : tree.read path with
  | .ok text => decidable_of_iff (IsFormattable options text)
      ⟨fun htext => ⟨text, h, htext⟩, fun ⟨_, hread, htext⟩ => by
        cases h.symm.trans hread
        exact htext⟩
  | .error _ => .isFalse fun ⟨_, hread, _⟩ => by cases h.symm.trans hread

/-- Whether a path leads to a text with warnings. -/
def hasWarningsAt (options : CompileOptions) (tree : FileTree) (path : String) : Bool :=
  match tree.read path with
  | .ok text => hasWarnings options text
  | .error _ => false

/-- The failure of a run that skipped some of all files. -/
def failureOfSkipped? (skipped total : Nat) : Option Failure :=
  if 0 < skipped then some (.check skipped total) else none

/-- What formatting the files at some paths makes of a tree. -/
structure IsFormatted (options : CompileOptions) (paths : List String) (before after : FileTree) :
    Prop where
  /-- Paths lead where they led, to things of the same kind. -/
  sameKinds : before.SameKinds after
  /-- The files are formatted. -/
  texts : ∀ path ∈ paths, ∀ text, before.read path = .ok text →
    after.read path = .ok (canonicalText options text)
  /-- Nothing else is changed. -/
  others : ∀ place, (∀ path ∈ paths, before.place path ≠ .ok place) →
    after.get? place = before.get? place

variable {options : CompileOptions} {tree tree' tree'' : FileTree} {path : String}

/-! ## Trees with formatted files -/

/-- With no files, the tree stays as it is. -/
theorem IsFormatted.nil : IsFormatted options [] tree tree :=
  ⟨.refl tree, nofun, fun _ _ => rfl⟩

/-- A file is as it was, or one of the paths leads to it and it is formatted. -/
theorem IsFormatted.read {paths : List String} (h : IsFormatted options paths tree tree')
    {text : String} (hread : tree.read path = .ok text) :
    tree'.read path = .ok text ∨ tree'.read path = .ok (canonicalText options text) := by
  obtain ⟨place, hplace, hget⟩ := FileTree.read_eq_ok_iff.1 hread
  have hplace' : tree'.place path = .ok place := h.sameKinds.place path ▸ hplace
  by_cases hother : ∀ q ∈ paths, tree.place q ≠ .ok place
  · exact .inl (FileTree.read_eq_ok_iff.2 ⟨place, hplace', (h.others place hother).trans hget⟩)
  · push Not at hother
    obtain ⟨q, hq, hqplace⟩ := hother
    have hqread := h.texts q hq text (FileTree.read_eq_ok_iff.2 ⟨place, hqplace, hget⟩)
    rw [FileTree.read_eq_ok_iff, ← h.sameKinds.place, hqplace] at hqread
    obtain ⟨_, ⟨⟩, hget'⟩ := hqread
    exact .inr (FileTree.read_eq_ok_iff.2 ⟨place, hplace', hget'⟩)

/-- Files that can be formatted can be formatted again. -/
theorem IsFormattableAt.of_isFormatted {paths : List String}
    (h : IsFormatted options paths tree tree') (hpath : IsFormattableAt options tree path) :
    IsFormattableAt options tree' path := by
  obtain ⟨text, hread, htext⟩ := hpath
  rcases h.read hread with hread' | hread'
  · exact ⟨text, hread', htext⟩
  · exact ⟨_, hread', htext.canonicalText⟩

/-- Formatting neither adds warnings nor takes them away. -/
theorem IsFormatted.hasWarningsAt {paths : List String} (h : IsFormatted options paths tree tree')
    (hpath : IsFormattableAt options tree path) :
    hasWarningsAt options tree' path = hasWarningsAt options tree path := by
  obtain ⟨text, hread, htext⟩ := hpath
  rcases h.read hread with hread' | hread'
  · simp only [Format.hasWarningsAt, hread, hread']
  · simp only [Format.hasWarningsAt, hread, hread']
    exact hasWarnings_canonicalText htext (.refl options)

/-- Formatting some files and then others is formatting all of them, also if a file is among
both. -/
theorem IsFormatted.append {front back : List String} (h : IsFormatted options front tree tree')
    (h' : IsFormatted options back tree' tree'')
    (hpaths : ∀ path ∈ front ++ back, IsFormattableAt options tree path) :
    IsFormatted options (front ++ back) tree tree'' where
  sameKinds := h.sameKinds.trans h'.sameKinds
  texts path hpath text hread := by
    obtain ⟨_, hread', htext⟩ := hpaths path hpath
    cases hread.symm.trans hread'
    -- the same file may have been formatted before, so its canonical form may be formatted here
    have hagain := canonicalText_canonicalText htext (.refl options)
    rcases List.mem_append.1 hpath with hfront | hback
    · have hread' := h.texts path hfront text hread
      rcases h'.read hread' with hread'' | hread''
      · exact hread''
      · rw [hread'', hagain]
    · rcases h.read hread with hread' | hread'
      · exact h'.texts path hback text hread'
      · rw [h'.texts path hback _ hread', hagain]
  others place hplace := by
    have hfront : tree'.get? place = tree.get? place :=
      h.others place fun path hpath => hplace path (List.mem_append_left back hpath)
    refine (h'.others place fun path hpath => ?_).trans hfront
    rw [← h.sameKinds.place]
    exact hplace path (List.mem_append_right front hpath)

/-! ## Formatting a file -/

section File

variable {text : String} {compiled : Compiled}

/-- A file that can be read is loaded with what it compiles to. -/
theorem answers_load (hread : tree.read path = .ok text) :
    Looks.Answers tree (SourceFile.load options path) (SourceFile.load options path)
      (.ok ⟨path, text, compile options text⟩) :=
  ((Looks.read tree path).answers hread).bind ⟨rfl, rfl⟩

/-- A file that can be read can be written through the same path. -/
theorem write_of_read (hread : tree.read path = .ok text) (content : String) :
    ∃ place, tree.place path = .ok place ∧ tree.get? place = some (.text text) ∧
      (MonadFiles.write path content : StateM FileTree _) tree =
        (.ok (), tree.insert place (.text content)) := by
  obtain ⟨place, hplace, hget, hwrite⟩ := FileTree.write_of_read hread content
  refine ⟨place, hplace, hget, ?_⟩
  have hget : (get : StateM FileTree FileTree) tree = (tree, tree) := rfl
  refine (stateM_bind _ hget).trans ?_
  rw [hwrite]
  rfl

/-- A text put into a file is found there, and nowhere else. -/
theorem isFormatted_insert {place : Place} (hplace : tree.place path = .ok place)
    (hget : tree.get? place = some (.text text)) :
    IsFormatted options [path] tree (tree.insert place (.text (canonicalText options text))) := by
  have hkinds := FileTree.sameKinds_insert hget (canonicalText options text)
  have hnames : place.names ≠ [] := fun hnil => by
    rw [FileTree.get?, if_pos hnil] at hget
    cases hget
  refine ⟨hkinds, ?_, ?_⟩
  · intro q hq text' hread
    cases List.mem_singleton.1 hq
    obtain ⟨_, hplace', hget'⟩ := FileTree.read_eq_ok_iff.1 hread
    cases hplace.symm.trans hplace'
    cases hget.symm.trans hget'
    exact FileTree.read_eq_ok_iff.2
      ⟨place, hkinds.place path ▸ hplace, FileTree.get?_insert_self hnames _ tree⟩
  · intro other hother
    refine FileTree.get?_insert_of_ne (fun heq => ?_) _ tree
    exact hother path List.mem_cons_self (heq ▸ hplace)

/-- A text in its canonical form is formatted without being written. -/
theorem isFormatted_self (hread : tree.read path = .ok text)
    (htext : canonicalText options text = text) : IsFormatted options [path] tree tree := by
  refine ⟨.refl tree, ?_, fun _ _ => rfl⟩
  intro q hq text' hread'
  cases List.mem_singleton.1 hq
  cases hread.symm.trans hread'
  rw [htext]
  exact hread

/-- A file is skipped if its text has warnings. -/
theorem isSkipped_ofCompiled (hcompile : compile options text = .ok compiled) (source : String) :
    (Formatted.ofCompiled source compiled).isSkipped = hasWarnings options text := by
  rw [hasWarnings, hcompile]
  obtain ⟨d, _ | ⟨w, ws⟩⟩ := compiled <;> rfl

/-- A file is changed if its text has no warnings and is not its diagram's markup. -/
theorem isChanged_ofCompiled (source : String) (compiled : Compiled) :
    (Formatted.ofCompiled source compiled).isChanged = true ↔
      compiled.warnings = [] ∧ compiled.diagram.markup ≠ source := by
  rw [Formatted.ofCompiled]
  cases compiled.warnings with
  | nil => simp [Formatted.isChanged]
  | cons w ws => simp [Formatted.isChanged]

/-- A file that is not changed is only looked at, in every mode. -/
theorem answers_formatFile (hread : tree.read path = .ok text)
    (hcompile : compile options text = .ok compiled)
    (hunchanged : ¬ (Formatted.ofCompiled text compiled).isChanged = true) (mode : FormatMode) :
    Looks.Answers tree (formatFile options mode path) (formatFile options mode path)
      (.ok (path, .ofCompiled text compiled)) := by
  unfold formatFile
  refine (answers_load hread).bind ?_
  simp only [SourceFile.compiled, hcompile, Except.mapError]
  -- only a changed text is written, and that in one mode
  rcases hof : Formatted.ofCompiled text compiled with n | ⟨t, _ | _⟩
  · cases mode <;> exact ⟨rfl, rfl⟩
  · cases mode <;> exact ⟨rfl, rfl⟩
  · rw [hof] at hunchanged
    exact absurd rfl hunchanged

/-- Formatting a file in place. -/
theorem formatFile_inPlace (hread : tree.read path = .ok text)
    (hcompile : compile options text = .ok compiled) :
    ∃ formatted tree', (formatFile options .inPlace path : StateM FileTree _) tree =
        (.ok (path, formatted), tree') ∧
      formatted.isSkipped = hasWarnings options text ∧ IsFormatted options [path] tree tree' := by
  refine ⟨Formatted.ofCompiled text compiled, ?_⟩
  by_cases hchanged : (Formatted.ofCompiled text compiled).isChanged = true
  · obtain ⟨hempty, hmarkup⟩ := (isChanged_ofCompiled text compiled).1 hchanged
    have htext : canonicalText options text = compiled.diagram.markup := by
      obtain ⟨d, ws⟩ := compiled
      cases hempty
      exact canonicalText_of_compile hcompile
    obtain ⟨place, hplace, hget, hwrite⟩ := write_of_read hread compiled.diagram.markup
    refine ⟨tree.insert place (.text compiled.diagram.markup), ?_,
      isSkipped_ofCompiled hcompile text, htext ▸ isFormatted_insert hplace hget⟩
    have hof : Formatted.ofCompiled text compiled = .canonical compiled.diagram.markup true := by
      simp [Formatted.ofCompiled, hempty, hmarkup]
    rw [formatFile, stateM_bind _ (answers_load hread).onState]
    simp only [SourceFile.compiled, hcompile, Except.mapError, hof]
    rw [stateM_bind _ hwrite]
    rfl
  · refine ⟨tree, (answers_formatFile hread hcompile hchanged _).onState,
      isSkipped_ofCompiled hcompile text, isFormatted_self hread ?_⟩
    rw [isChanged_ofCompiled, not_and, not_not] at hchanged
    by_cases hempty : compiled.warnings = []
    · obtain ⟨d, ws⟩ := compiled
      cases hempty
      rw [canonicalText_of_compile hcompile]
      exact hchanged rfl
    · exact canonicalText_of_warnings hcompile hempty

end File

/-! ## Formatting files one after the other -/

section Files

/-- A step without failure, and the steps behind it. -/
theorem upToFailure_cons_ok {σ α β : Type} {treat : α → StateM σ (Except Failure β)} {a : α}
    {as : List α} {b : β} {bs : List β} {failure? : Option Failure} {s s' s'' : σ}
    (h : treat a s = (.ok b, s')) (has : upToFailure treat as s' = ((bs, failure?), s'')) :
    upToFailure treat (a :: as) s = ((b :: bs, failure?), s'') := by
  rw [upToFailure, stateM_bind _ h]
  exact stateM_bind _ has

/-- The first failure ends a run. -/
theorem upToFailure_cons_error {σ α β : Type} {treat : α → StateM σ (Except Failure β)} {a : α}
    (as : List α) {e : Failure} {s s' : σ} (h : treat a s = (.error e, s')) :
    upToFailure treat (a :: as) s = (([], some e), s') := by
  rw [upToFailure, stateM_bind _ h]
  rfl

/-- Formatting files in place and going on with others. The files still ahead can be formatted after
each step, with the same warnings, although the step may have written some of them. -/
theorem upToFailure_inPlace {files : List String}
    (hfiles : ∀ path ∈ files, IsFormattableAt options tree path) (others : List String) :
    ∃ (results : List (String × Formatted)) (tree' : FileTree),
      IsFormatted options files tree tree' ∧ results.length = files.length ∧
      results.countP (·.2.isSkipped) = files.countP (hasWarningsAt options tree) ∧
      ∀ more failure? tree'', (upToFailure (formatFile options .inPlace) others :
          StateM FileTree _) tree' = ((more, failure?), tree'') →
        (upToFailure (formatFile options .inPlace) (files ++ others) : StateM FileTree _) tree =
          ((results ++ more, failure?), tree'') := by
  induction files generalizing tree with
  | nil => exact ⟨[], tree, .nil, rfl, rfl, fun _ _ _ => id⟩
  | cons path files ih =>
    obtain ⟨text, hread, compiled, hcompile, hfits⟩ := hfiles path List.mem_cons_self
    obtain ⟨formatted, tree₁, hstep, hskipped, hformatted⟩ :=
      formatFile_inPlace hread hcompile
    have hlater : ∀ q ∈ files, IsFormattableAt options tree q := fun q hq =>
      hfiles q (List.mem_cons_of_mem path hq)
    -- files that come later may have been rewritten under another path, but to their canonical
    -- texts
    obtain ⟨results, tree', hresults, hlength, hcount, hgo⟩ :=
      ih fun q hq => (hlater q hq).of_isFormatted hformatted
    refine ⟨(path, formatted) :: results, tree', hformatted.append hresults hfiles, ?_, ?_,
      fun more failure? tree'' hothers =>
        upToFailure_cons_ok hstep (hgo more failure? tree'' hothers)⟩
    · rw [List.length_cons, List.length_cons, hlength]
    · have hwarnings : hasWarningsAt options tree path = hasWarnings options text := by
        rw [hasWarningsAt, hread]
      rw [List.countP_cons, List.countP_cons, hcount, hskipped, hwarnings]
      congr 1
      exact List.countP_congr fun q hq => by rw [hformatted.hasWarningsAt (hlater q hq)]

/-- A step that only looks at files, and steps behind it that do. -/
theorem answers_upToFailure_cons {α β : Type} {treat : α → StateM FileTree (Except Failure β)}
    {treat' : α → ReaderM FileTree (Except Failure β)} {a : α} {as : List α} {b : β} {bs : List β}
    {failure? : Option Failure} (h : Looks.Answers tree (treat a) (treat' a) (.ok b))
    (has : Looks.Answers tree (upToFailure treat as) (upToFailure treat' as) (bs, failure?)) :
    Looks.Answers tree (upToFailure treat (a :: as)) (upToFailure treat' (a :: as))
      (b :: bs, failure?) := by
  unfold upToFailure
  exact h.bind (has.bind ⟨rfl, rfl⟩)

/-- Formatted files are only looked at, in every mode. -/
theorem answers_upToFailure {options' : CompileOptions} {paths files : List String}
    (h : IsFormatted options paths tree tree')
    (hpaths : ∀ path ∈ paths, IsFormattableAt options tree path) (halike : options.Alike options')
    (mode : FormatMode) (hfiles : ∀ path ∈ files, path ∈ paths) :
    ∃ results : List (String × Formatted),
      Looks.Answers tree' (upToFailure (formatFile options' mode) files)
        (upToFailure (formatFile options' mode) files) (results, none) ∧
      results.length = files.length ∧ unformatted results = [] ∧
      results.countP (·.2.isSkipped) = files.countP (hasWarningsAt options tree) := by
  induction files with
  | nil => exact ⟨[], ⟨rfl, rfl⟩, rfl, rfl, rfl⟩
  | cons path files ih =>
    obtain ⟨results, hanswers, hlength, hunformatted, hcount⟩ :=
      ih fun q hq => hfiles q (List.mem_cons_of_mem path hq)
    have hpath := hfiles path List.mem_cons_self
    obtain ⟨text, hread, htext⟩ := hpaths path hpath
    obtain ⟨compiled, hcompile, -, hmarkup⟩ := exists_compile_canonicalText htext halike
    -- formatting is idempotent, so the second run has nothing to write
    have hunchanged : ¬ (Formatted.ofCompiled (canonicalText options text) compiled).isChanged =
        true := fun hchanged => by
      obtain ⟨hempty, hne⟩ := (isChanged_ofCompiled _ _).1 hchanged
      exact hne (hmarkup hempty)
    have hanswer := answers_formatFile (h.texts path hpath text hread) hcompile hunchanged mode
    have hskipped : (Formatted.ofCompiled (canonicalText options text) compiled).isSkipped =
        hasWarningsAt options tree path := by
      rw [isSkipped_ofCompiled hcompile, hasWarnings_canonicalText htext halike, hasWarningsAt,
        hread]
    refine ⟨(path, .ofCompiled (canonicalText options text) compiled) :: results,
      answers_upToFailure_cons hanswer hanswers, ?_, ?_, ?_⟩
    · rw [List.length_cons, List.length_cons, hlength]
    · rw [unformatted, List.filter_cons_of_neg (by exact hunchanged)]
      exact hunformatted
    · rw [List.countP_cons, List.countP_cons, hcount, hskipped]

end Files

/-! ## Running the formatter -/

end Format

/-- Trees of the same kinds have the same files of diagrams. -/
theorem FileTree.SameKinds.diagramFiles {s t : FileTree} (h : s.SameKinds t) (extension : String)
    (paths : List String) : s.diagramFiles extension paths = t.diagramFiles extension paths :=
  congrArg Prod.fst
    (Eq.trans (looks_diagramFiles (.refl s) extension paths).symm
      (looks_diagramFiles h extension paths))

namespace Format

section Run

variable {console : Console} {config : Config} {paths files : List String} {mode : FormatMode}

/-- The files that are found on a tree are found by looking. -/
theorem answers_diagramFiles {extension : String}
    (hfiles : tree.diagramFiles extension paths = .ok files) :
    Looks.Answers tree (SchemaDiagram.diagramFiles extension paths).run
      (SchemaDiagram.diagramFiles extension paths).run (.ok files) :=
  (looks_diagramFiles (.refl tree) extension paths).answers hfiles

/-- A run formats the files that are found. -/
theorem run_of_diagramFiles
    (hfiles : tree.diagramFiles config.extension (config.inputPaths paths) = .ok files) :
    (run console config options paths mode : StateM FileTree Outcome) tree =
      (formatFiles console options mode files : StateM FileTree Outcome) tree := by
  rw [run, stateM_bind _ (answers_diagramFiles hfiles).onState]

/-- In place, a run fails exactly if it skips some file. -/
theorem failure?_inPlace (results : List (String × Formatted)) :
    failure? .inPlace results =
      failureOfSkipped? (results.countP (·.2.isSkipped)) results.length := by
  simp only [failure?, reduceCtorEq, false_and, if_false]
  rfl

/-- With every file formatted, a run in any mode fails exactly if it skips some file. -/
theorem failure?_of_unformatted_eq_nil {results : List (String × Formatted)}
    (h : unformatted results = []) (mode : FormatMode) :
    failure? mode results = failureOfSkipped? (results.countP (·.2.isSkipped)) results.length := by
  simp only [failure?, h, ne_eq, not_true, and_false, if_false]
  rfl

/-- Paths that lead elsewhere lead to what they led to. -/
theorem IsFormatted.lookup (h : IsFormatted options paths tree tree') {path : String}
    (hpath : ∀ q ∈ paths, tree.place q ≠ tree.place path) :
    tree'.lookup path = tree.lookup path := by
  rcases hplace : tree.place path with e | place
  · rw [FileTree.lookup_of_place_error hplace,
      FileTree.lookup_of_place_error (h.sameKinds.place path ▸ hplace)]
  · rw [FileTree.lookup_of_place hplace,
      FileTree.lookup_of_place (h.sameKinds.place path ▸ hplace),
      h.others place fun q hq => hplace ▸ hpath q hq]

/-- A run in place over files that can be formatted. -/
theorem run_inPlace_of_formattable (console : Console)
    (hfiles : tree.diagramFiles config.extension (config.inputPaths paths) = .ok files)
    (hformattable : ∀ path ∈ files, IsFormattableAt options tree path) :
    ∃ output tree', (run console config options paths .inPlace : StateM FileTree Outcome) tree =
        (⟨output, failureOfSkipped? (files.countP (hasWarningsAt options tree)) files.length⟩,
          tree') ∧
      IsFormatted options files tree tree' := by
  obtain ⟨results, tree', hformatted, hlength, hcount, hgo⟩ := upToFailure_inPlace hformattable []
  have hrun := hgo [] none tree' rfl
  rw [List.append_nil, List.append_nil] at hrun
  refine ⟨reports console .inPlace results ++ closing console .inPlace results, tree', ?_,
    hformatted⟩
  rw [run_of_diagramFiles hfiles, formatFiles, stateM_bind _ hrun, ← hcount, ← hlength,
    ← failure?_inPlace]
  rfl

/-- A run, in any mode, over files that are formatted. -/
theorem answers_run (console : Console) (mode : FormatMode) {options' : CompileOptions}
    (hfiles : tree.diagramFiles config.extension (config.inputPaths paths) = .ok files)
    (hformattable : ∀ path ∈ files, IsFormattableAt options tree path)
    (h : IsFormatted options files tree tree') (halike : options.Alike options') :
    ∃ output, Looks.Answers tree' (run console config options' paths mode)
      (run console config options' paths mode)
      ⟨output, failureOfSkipped? (files.countP (hasWarningsAt options tree)) files.length⟩ := by
  obtain ⟨results, hanswers, hlength, hunformatted, hcount⟩ :=
    answers_upToFailure h hformattable halike mode fun _ hpath => hpath
  rw [h.sameKinds.diagramFiles] at hfiles
  refine ⟨reports console mode results ++ closing console mode results, ?_⟩
  rw [← hcount, ← hlength, ← failure?_of_unformatted_eq_nil hunformatted]
  unfold run formatFiles
  exact (answers_diagramFiles hfiles).bind (hanswers.bind ⟨rfl, rfl⟩)

/-- A run in place that comes to a text that does not compile. -/
theorem run_inPlace_of_error (console : Console) {front back : List String} {path text : String}
    {error : SourceError}
    (hfiles : tree.diagramFiles config.extension (config.inputPaths paths) =
      .ok (front ++ path :: back))
    (hfront : ∀ path ∈ front, IsFormattableAt options tree path)
    (hread : tree.read path = .ok text) (hcompile : compile options text = .error error) :
    ∃ output tree', (run console config options paths .inPlace : StateM FileTree Outcome) tree =
        (⟨output, some (.unreadable path error)⟩, tree') ∧
      IsFormatted options front tree tree' ∧ tree'.read path = .ok text := by
  obtain ⟨results, tree', hformatted, -, -, hgo⟩ := upToFailure_inPlace hfront (path :: back)
  have hcanonical : canonicalText options text = text := by
    rw [canonicalText, hcompile]
  -- a text that does not compile is canonical as it is, so formatting leaves it alone
  have hread' : tree'.read path = .ok text := by
    rcases hformatted.read hread with hread' | hread'
    · exact hread'
    · rw [hread', hcanonical]
  have hstep : (formatFile options .inPlace path : StateM FileTree _) tree' =
      (.error (.unreadable path error), tree') := by
    rw [formatFile, stateM_bind _ (answers_load hread').onState]
    simp only [SourceFile.compiled, hcompile, Except.mapError]
    rfl
  have hrun := hgo [] _ tree' (upToFailure_cons_error back hstep)
  rw [List.append_nil] at hrun
  refine ⟨reports console .inPlace results, tree', ?_, hformatted, hread'⟩
  rw [run_of_diagramFiles hfiles, formatFiles, stateM_bind _ hrun]
  rfl

/-- Formatting in place. If all files can be formatted, then those without warnings come to hold
their canonical forms, nothing else changes, and the run fails exactly if files have warnings, with
their number. A later run has the same failure in every mode, and writes nothing: its tree stays as
it is, and it comes to the same on a tree that nobody may write to. If a text does not compile, the
run fails with that, the files before it are formatted, and nothing else changes. -/
theorem run_inPlace (console : Console) (config : Config) (id : String) (timestamp : Timestamp)
    (paths files : List String) (tree : FileTree)
    (hfiles : tree.diagramFiles config.extension (config.inputPaths paths) = .ok files) :
    let options := config.compileOptions id timestamp
    let failure? := failureOfSkipped? (files.countP (hasWarningsAt options tree)) files.length
    ((∀ path ∈ files, IsFormattableAt options tree path) →
      ∃ output tree', (run console config options paths .inPlace : StateM FileTree Outcome) tree =
          (⟨output, failure?⟩, tree') ∧
        IsFormatted options files tree tree' ∧
        ∀ (console' : Console) (id' : String) (timestamp' : Timestamp) (mode : FormatMode),
          ∃ output', (run console' config (config.compileOptions id' timestamp') paths mode :
              StateM FileTree Outcome) tree' = (⟨output', failure?⟩, tree') ∧
            (run console' config (config.compileOptions id' timestamp') paths mode :
              ReaderM FileTree Outcome) tree' = ⟨output', failure?⟩) ∧
    ∀ front path back text error, files = front ++ path :: back →
      (∀ q ∈ front, IsFormattableAt options tree q) → tree.read path = .ok text →
      compile options text = .error error →
      ∃ output tree', (run console config options paths .inPlace : StateM FileTree Outcome) tree =
          (⟨output, some (.unreadable path error)⟩, tree') ∧
        IsFormatted options front tree tree' ∧ tree'.read path = tree.read path ∧
        ∀ q ∈ back, (∀ p ∈ front, tree.place p ≠ tree.place q) →
          tree'.lookup q = tree.lookup q := by
  intro options failure?
  constructor
  · intro hformattable
    obtain ⟨output, tree', hrun, hformatted⟩ :=
      run_inPlace_of_formattable console hfiles hformattable
    refine ⟨output, tree', hrun, hformatted, fun console' id' timestamp' mode => ?_⟩
    have halike : options.Alike (config.compileOptions id' timestamp') := ⟨rfl, rfl⟩
    obtain ⟨output', hanswers⟩ :=
      answers_run console' mode hfiles hformattable hformatted halike
    exact ⟨output', hanswers.onState, hanswers.onReader⟩
  · rintro front path back text error rfl hfront hread hcompile
    obtain ⟨output, tree', hrun, hformatted, hread'⟩ :=
      run_inPlace_of_error console hfiles hfront hread hcompile
    exact ⟨output, tree', hrun, hformatted, hread'.trans hread.symm, fun q _ =>
      hformatted.lookup⟩

/-- A text in no canonical form, a reference that breaks off, what is no source text, and a text
behind that. -/
def shelf : FileTree :=
  ⟨[(Place.here.child "a.dbml", .text "Table a\x7bid int\x7d"),
    (Place.here.child "b.dbml", .text "Ref a"),
    (Place.here.child "c.dbml", .text "#"),
    (Place.here.child "d.dbml", .text "Table d\x7b\x7d")]⟩

/-- The canonical form of the first text. -/
def shelfText : String :=
  "Project \"Untitled Diagram\" \x7b\n  database_type: \"PostgreSQL\"\n\x7d\n\n" ++
    "Table a \x7b\n  id integer\n\x7d\n"

/-- One run comes to the first text by two paths and skips the second one, and one run ends at the
third text. -/
theorem run_inPlace_shelf :
    (∃ output tree', (run ⟨.human, false⟩ {} (Config.compileOptions {} "shelf" default)
          ["./a.dbml", "a.dbml", "b.dbml"] .inPlace : StateM FileTree Outcome) shelf =
        (⟨output, some (.check 1 3)⟩, tree') ∧
      tree'.read "a.dbml" = .ok shelfText ∧ tree'.read "b.dbml" = .ok "Ref a" ∧
      ∃ output', (run ⟨.plain, true⟩ {} (Config.compileOptions {} "later" default)
          ["./a.dbml", "a.dbml", "b.dbml"] .verify : ReaderM FileTree Outcome) tree' =
        ⟨output', some (.check 1 3)⟩) ∧
    ∃ output tree', (run ⟨.human, false⟩ {} (Config.compileOptions {} "shelf" default)
          ["a.dbml", "c.dbml", "d.dbml"] .inPlace : StateM FileTree Outcome) shelf =
        (⟨output, some (.unreadable "c.dbml" (.invalidColor "#" ⟨1, 1, 0⟩ "#"))⟩, tree') ∧
      tree'.read "a.dbml" = .ok shelfText ∧ tree'.read "c.dbml" = .ok "#" ∧
      tree'.lookup "d.dbml" = .ok (.text "Table d\x7b\x7d") := by
  have hfiles : shelf.diagramFiles "dbml" ["./a.dbml", "a.dbml", "b.dbml"] =
      .ok ["./a.dbml", "a.dbml", "b.dbml"] := by
    refine Eq.trans (b := .ok (Path.sortOnce ["./a.dbml", "a.dbml", "b.dbml"])) rfl ?_
    simp +decide [Path.sortOnce, List.mergeSort_of_pairwise, Path.sortOnce.dropRepeats]
  have hfiles' : shelf.diagramFiles "dbml" ["a.dbml", "c.dbml", "d.dbml"] =
      .ok ["a.dbml", "c.dbml", "d.dbml"] := by
    refine Eq.trans (b := .ok (Path.sortOnce ["a.dbml", "c.dbml", "d.dbml"])) rfl ?_
    simp +decide [Path.sortOnce, List.mergeSort_of_pairwise, Path.sortOnce.dropRepeats]
  have hread : shelf.read "a.dbml" = .ok "Table a\x7bid int\x7d" := by decide +kernel
  have htext : canonicalText (Config.compileOptions {} "shelf" default)
      "Table a\x7bid int\x7d" = shelfText := by decide +kernel
  have hskipped : canonicalText (Config.compileOptions {} "shelf" default) "Ref a" = "Ref a" := by
    decide +kernel
  have hcount : ["./a.dbml", "a.dbml", "b.dbml"].countP
      (hasWarningsAt (Config.compileOptions {} "shelf" default) shelf) = 1 := by decide +kernel
  constructor
  · obtain ⟨output, tree', hrun, hformatted, hlater⟩ :=
      (run_inPlace ⟨.human, false⟩ {} "shelf" default ["./a.dbml", "a.dbml", "b.dbml"]
        ["./a.dbml", "a.dbml", "b.dbml"] shelf hfiles).1 (by decide +kernel)
    obtain ⟨output', -, hverify⟩ := hlater ⟨.plain, true⟩ "later" default .verify
    rw [hcount] at hrun hverify
    refine ⟨output, tree', hrun, ?_, ?_, output', hverify⟩
    · rw [hformatted.texts "a.dbml" (by decide) _ hread, htext]
    · rw [hformatted.texts "b.dbml" (by decide) "Ref a" (by decide +kernel), hskipped]
  · obtain ⟨output, tree', hrun, hformatted, hread', hothers⟩ :=
      (run_inPlace ⟨.human, false⟩ {} "shelf" default ["a.dbml", "c.dbml", "d.dbml"]
        ["a.dbml", "c.dbml", "d.dbml"] shelf hfiles').2 ["a.dbml"] "c.dbml" ["d.dbml"] "#"
        (.invalidColor "#" ⟨1, 1, 0⟩ "#") rfl (by decide +kernel) (by decide +kernel)
        (by decide +kernel)
    refine ⟨output, tree', hrun, ?_, ?_, ?_⟩
    · rw [hformatted.texts "a.dbml" (by decide) _ hread, htext]
    · rw [hread']
      decide +kernel
    · rw [hothers "d.dbml" (by decide) (by decide +kernel)]
      decide +kernel

end Run

end Format

end SchemaDiagram
