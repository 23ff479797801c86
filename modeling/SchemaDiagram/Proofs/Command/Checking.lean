import SchemaDiagram.Command.Run
import SchemaDiagram.Proofs.Command.Formatting

/-!
# The verdict of a check

A check rejects a text that cannot be read, and under strict rules also one with warnings or
integrity issues (`IsRejected`). Its totals count the rejected texts, and the tables, warnings and
issues of all that can be read (`Counts`). Counting one more file keeps this (`Counts.snoc`), so it
holds when all files were counted one after the other (`counts_ofFiles`). The console has no part in
it, and shows the same totals in every style (`Shows`).

Main statement: `Check.verdict_of_sources`.
-/

namespace SchemaDiagram.Check

variable {options : CompileOptions} {strict : Bool} {text : String} {compiled : Compiled}

/-! ## Rejected texts -/

/-- A text that cannot be read. -/
def IsFatal (options : CompileOptions) (text : String) : Prop :=
  ∃ e, compile options text = .error e

/-- A text that can be read, but not without warnings or integrity issues. -/
def IsDoubtful (options : CompileOptions) (text : String) : Prop :=
  ∃ compiled, compile options text = .ok compiled ∧
    (compiled.warnings ≠ [] ∨ compiled.diagram.integrityIssues ≠ [])

/-- A text that does not pass a check. -/
def IsRejected (options : CompileOptions) (strict : Bool) (text : String) : Prop :=
  IsFatal options text ∨ strict = true ∧ IsDoubtful options text

instance (options : CompileOptions) (text : String) : Decidable (IsFatal options text) :=
  match h : compile options text with
  | .error e => .isTrue ⟨e, h⟩
  | .ok _ => .isFalse fun ⟨_, he⟩ => by cases h.symm.trans he

instance (options : CompileOptions) (text : String) : Decidable (IsDoubtful options text) :=
  match h : compile options text with
  | .ok compiled =>
    decidable_of_iff (compiled.warnings ≠ [] ∨ compiled.diagram.integrityIssues ≠ [])
      ⟨fun hne => ⟨compiled, h, hne⟩, fun ⟨_, hok, hne⟩ => by
        cases h.symm.trans hok
        exact hne⟩
  | .error _ => .isFalse fun ⟨_, hok, _⟩ => by cases h.symm.trans hok

instance (options : CompileOptions) (strict : Bool) (text : String) :
    Decidable (IsRejected options strict text) :=
  inferInstanceAs (Decidable (_ ∨ _))

/-- A text that does not compile is fatal. -/
theorem isFatal_of_error {e : SourceError} (h : compile options text = .error e) :
    IsFatal options text := ⟨e, h⟩

/-- A text that compiles is not fatal. -/
theorem not_isFatal_of_ok (h : compile options text = .ok compiled) :
    ¬ IsFatal options text := by
  rintro ⟨e, he⟩
  cases h.symm.trans he

/-- A text that compiles is rejected exactly in a strict check with warnings or integrity issues. -/
theorem isRejected_iff_of_ok (h : compile options text = .ok compiled) :
    IsRejected options strict text ↔
      strict = true ∧ (compiled.warnings ≠ [] ∨ compiled.diagram.integrityIssues ≠ []) := by
  constructor
  · rintro (hfatal | ⟨hstrict, _, hok, hne⟩)
    · exact absurd hfatal (not_isFatal_of_ok h)
    · cases h.symm.trans hok
      exact ⟨hstrict, hne⟩
  · exact fun ⟨hstrict, hne⟩ => .inr ⟨hstrict, compiled, h, hne⟩

/-- Strict rules reject all that is rejected without them. -/
theorem IsRejected.of_lenient (h : IsRejected options false text) :
    IsRejected options true text := by
  rcases h with hfatal | ⟨hfalse, -⟩
  · exact .inl hfatal
  · cases hfalse

/-! ## Counting -/

/-- A file of a path and a text. -/
def loaded (options : CompileOptions) (source : String × String) : SourceFile :=
  ⟨source.1, source.2, compile options source.2⟩

/-- What the texts that can be read compile to. -/
def readable (options : CompileOptions) (sources : List (String × String)) : List Compiled :=
  sources.filterMap fun source => (compile options source.2).toOption

/-- The totals count the rejected ones of some sources, and what the readable ones hold. -/
structure Counts (options : CompileOptions) (strict : Bool) (sources : List (String × String))
    (totals : CheckTotals) : Prop where
  /-- The sources that do not pass. -/
  failed : totals.failed = sources.countP fun source => IsRejected options strict source.2
  /-- The tables of all diagrams. -/
  tables : totals.tables = ((readable options sources).map (·.diagram.tables.length)).sum
  /-- The warnings about all texts. -/
  warnings : totals.warnings = ((readable options sources).map (·.warnings.length)).sum
  /-- The issues of all diagrams. -/
  issues : totals.issues = ((readable options sources).map (·.diagram.integrityIssues.length)).sum

section Counting

variable {sources : List (String × String)} {totals : CheckTotals}

/-- A file with a fatal error adds one to those that failed, and nothing else. -/
theorem add_of_error {source : String × String} {e : SourceError}
    (h : compile options source.2 = .error e) :
    totals.add strict (loaded options source) = { totals with failed := totals.failed + 1 } := by
  rw [CheckTotals.add, loaded, h]

/-- A file that compiles adds what it holds, and one to those that failed if it is rejected. -/
theorem add_of_ok {source : String × String} (h : compile options source.2 = .ok compiled) :
    totals.add strict (loaded options source) =
      { totals with
        failed := totals.failed + if IsRejected options strict source.2 then 1 else 0
        tables := totals.tables + compiled.diagram.tables.length
        warnings := totals.warnings + compiled.warnings.length
        issues := totals.issues + compiled.diagram.integrityIssues.length } := by
  have hfails : (strict && (!compiled.warnings.isEmpty ||
      !compiled.diagram.integrityIssues.isEmpty)) = true ↔ IsRejected options strict source.2 := by
    rw [isRejected_iff_of_ok h]
    simp
  simp only [CheckTotals.add, loaded, h, SourceFile.warnings, SourceFile.issues, hfails]
  split <;> rfl

/-- A file with a fatal error is not among the readable ones. -/
theorem readable_of_error {source : String × String} {e : SourceError}
    (h : compile options source.2 = .error e) :
    readable options (sources ++ [source]) = readable options sources := by
  rw [readable, List.filterMap_append, List.filterMap_cons_none (by rw [h]; rfl),
    List.filterMap_nil, List.append_nil]
  rfl

/-- A file that compiles is the last of the readable ones. -/
theorem readable_of_ok {source : String × String} (h : compile options source.2 = .ok compiled) :
    readable options (sources ++ [source]) = readable options sources ++ [compiled] := by
  rw [readable, List.filterMap_append, List.filterMap_cons_some (by rw [h]; rfl),
    List.filterMap_nil]
  rfl

/-- One more source is one more rejected source, if it is rejected. -/
theorem countP_snoc (sources : List (String × String)) (source : String × String) :
    ((sources ++ [source]).countP fun source => IsRejected options strict source.2) =
      (sources.countP fun source => IsRejected options strict source.2) +
        if IsRejected options strict source.2 then 1 else 0 := by
  rw [List.countP_append, List.countP_singleton]
  simp

/-- Counting one more file. -/
theorem Counts.snoc (h : Counts options strict sources totals) (source : String × String) :
    Counts options strict (sources ++ [source]) (totals.add strict (loaded options source)) := by
  rcases hcompile : compile options source.2 with e | compiled
  · -- A text that cannot be read only raises the number of rejected ones.
    have hrejected : IsRejected options strict source.2 := .inl (isFatal_of_error hcompile)
    rw [add_of_error hcompile]
    constructor
    · rw [countP_snoc, if_pos hrejected, ← h.failed]
    all_goals rw [readable_of_error hcompile]
    · exact h.tables
    · exact h.warnings
    · exact h.issues
  · rw [add_of_ok hcompile]
    constructor
    · rw [countP_snoc, ← h.failed]
    all_goals rw [readable_of_ok hcompile, List.map_append, List.sum_append, List.map_singleton,
      List.sum_singleton]
    · rw [← h.tables]
    · rw [← h.warnings]
    · rw [← h.issues]

/-- Counting all files. -/
theorem counts_ofFiles (options : CompileOptions) (strict : Bool)
    (sources : List (String × String)) :
    Counts options strict sources (.ofFiles strict (sources.map (loaded options))) := by
  suffices ∀ n, Counts options strict sources
      ((sources.map (loaded options)).foldl (CheckTotals.add strict) ⟨n, 0, 0, 0, 0⟩) from this _
  intro n
  -- What was counted so far is a front of the files, and the last one is counted on top of it.
  induction sources using List.reverseRecOn with
  | nil => exact ⟨rfl, rfl, rfl, rfl⟩
  | append_singleton sources source ih =>
    rw [List.map_append, List.foldl_append]
    exact ih.snoc source

/-- Counting a file does not change how many there are. -/
theorem files_add (totals : CheckTotals) (f : SourceFile) :
    (totals.add strict f).files = totals.files := by
  unfold CheckTotals.add
  split <;> rfl

/-- The totals count every file. -/
theorem files_ofFiles (strict : Bool) (files : List SourceFile) :
    (CheckTotals.ofFiles strict files).files = files.length := by
  suffices ∀ totals : CheckTotals,
      (files.foldl (CheckTotals.add strict) totals).files = totals.files from this _
  intro totals
  induction files generalizing totals with
  | nil => rfl
  | cons f files ih => rw [List.foldl_cons, ih, files_add]

/-- There is one way to count. -/
theorem Counts.eq_mk (h : Counts options strict sources totals)
    (hfiles : totals.files = sources.length) :
    totals =
      { files := sources.length
        failed := sources.countP fun source => IsRejected options strict source.2
        tables := ((readable options sources).map (·.diagram.tables.length)).sum
        warnings := ((readable options sources).map (·.warnings.length)).sum
        issues := ((readable options sources).map (·.diagram.integrityIssues.length)).sum } := by
  rw [← hfiles, ← h.failed, ← h.tables, ← h.warnings, ← h.issues]

/-- No check fails without a rejected source. -/
theorem Counts.failed_pos_iff (h : Counts options strict sources totals) :
    0 < totals.failed ↔ ∃ source ∈ sources, IsRejected options strict source.2 := by
  rw [h.failed, List.countP_pos_iff]
  simp

/-- Strict rules do not take a failed file back. -/
theorem Counts.failed_le {strictTotals : CheckTotals} (h : Counts options false sources totals)
    (h' : Counts options true sources strictTotals) : totals.failed ≤ strictTotals.failed := by
  rw [h.failed, h'.failed]
  refine List.countP_mono_left fun source _ hrejected => ?_
  exact decide_eq_true (of_decide_eq_true hrejected).of_lenient

end Counting

/-! ## Results -/

/-- The result of a file is that of a fatal error. -/
def isFatalResult (result : Json) : Bool := (result.field? "fatal").isSome

/-- How much a result tells of something: a count, or as many as are listed. -/
def amount (name : String) (result : Json) : Nat :=
  match result.field? name with
  | some (.count n) => n
  | some (.array items) => items.length
  | _ => 0

/-- How much the results without a fatal error tell of something. -/
def amountOf (name : String) (results : List Json) : Nat :=
  ((results.filter (!isFatalResult ·)).map (amount name)).sum

/-- A result is about a source. -/
structure IsAbout (options : CompileOptions) (source : String × String) (result : Json) :
    Prop where
  /-- It names the file. -/
  file : result.field? "file" = some (.string source.1)
  /-- It tells whether the text could be read. -/
  fatal : isFatalResult result = true ↔ IsFatal options source.2

/-- The totals are what the results without a fatal error tell. -/
structure AddsUp (totals : CheckTotals) (results : List Json) : Prop where
  /-- Of tables. -/
  tables : totals.tables = amountOf "tables" results
  /-- Of warnings. -/
  warnings : totals.warnings = amountOf "warnings" results
  /-- Of integrity issues. -/
  issues : totals.issues = amountOf "integrity_issues" results

section Results

variable {sources : List (String × String)} {totals : CheckTotals}

/-- The result of a file with a fatal error tells its message. -/
theorem resultJson_of_error {source : String × String} {e : SourceError}
    (h : compile options source.2 = .error e) :
    resultJson (loaded options source) =
      .object [("fatal", .string e.message), ("file", .string source.1)] := by
  rw [resultJson, loaded, h]

/-- The result of a file that compiles tells its counts, its issues and its warnings. -/
theorem resultJson_of_ok {source : String × String} (h : compile options source.2 = .ok compiled) :
    resultJson (loaded options source) =
      .object [("areas", .count compiled.diagram.areas.length), ("file", .string source.1),
        ("integrity_issues",
          .array (compiled.diagram.integrityIssues.map IntegrityIssue.toJson)),
        ("references", .count compiled.diagram.references.length),
        ("tables", .count compiled.diagram.tables.length),
        ("warnings", .array (compiled.warnings.map warningJson))] := by
  simp only [resultJson, loaded, h, SourceFile.issues, SourceFile.warnings]

/-- The result of a file is about its source. -/
theorem isAbout_resultJson (options : CompileOptions) (source : String × String) :
    IsAbout options source (resultJson (loaded options source)) := by
  rcases h : compile options source.2 with e | compiled
  · rw [resultJson_of_error h]
    exact ⟨rfl, iff_of_true rfl (isFatal_of_error h)⟩
  · rw [resultJson_of_ok h]
    exact ⟨rfl, iff_of_false Bool.false_ne_true (not_isFatal_of_ok h)⟩

/-- One more result adds what it tells, unless it is fatal. -/
theorem amountOf_snoc (name : String) (results : List Json) (result : Json) :
    amountOf name (results ++ [result]) =
      amountOf name results + if isFatalResult result then 0 else amount name result := by
  rw [amountOf, List.filter_append, List.map_append, List.sum_append]
  by_cases h : isFatalResult result = true
  · rw [List.filter_cons_of_neg (by simp [h]), if_pos h]
    rfl
  · rw [List.filter_cons_of_pos (by simp [h]), if_neg h, List.filter_nil, List.map_singleton,
      List.sum_singleton]
    rfl

/-- The results tell what the readable texts hold, if each one does. -/
theorem amountOf_results {name : String} {count : Compiled → Nat}
    (hcount : ∀ {source compiled}, compile options source.2 = .ok compiled →
      amount name (resultJson (loaded options source)) = count compiled)
    (sources : List (String × String)) :
    amountOf name ((sources.map (loaded options)).map resultJson) =
      ((readable options sources).map count).sum := by
  induction sources using List.reverseRecOn with
  | nil => rfl
  | append_singleton sources source ih =>
    have hfatal := (isAbout_resultJson options source).fatal
    rw [List.map_append, List.map_append, List.map_singleton, List.map_singleton, amountOf_snoc,
      ih]
    rcases h : compile options source.2 with e | compiled
    · rw [readable_of_error h, if_pos (hfatal.2 (isFatal_of_error h)), Nat.add_zero]
    · rw [readable_of_ok h, if_neg (mt hfatal.1 (not_isFatal_of_ok h)), hcount h, List.map_append,
        List.sum_append, List.map_singleton, List.sum_singleton]

/-- Totals that count the sources add up from their results. -/
theorem Counts.addsUp {strict : Bool} (h : Counts options strict sources totals) :
    AddsUp totals ((sources.map (loaded options)).map resultJson) := by
  refine ⟨h.tables.trans (amountOf_results ?_ _).symm,
    h.warnings.trans (amountOf_results ?_ _).symm, h.issues.trans (amountOf_results ?_ _).symm⟩
  all_goals
    intro source compiled hcompile
    rw [resultJson_of_ok hcompile]
  · rfl
  · exact List.length_map _
  · exact List.length_map _

end Results

/-! ## What is written -/

/-- The output shows the totals in the style of the console. People are told them unless the console
is quiet. JSON has a result for every source besides. -/
def Shows (console : Console) (options : CompileOptions) (sources : List (String × String))
    (t : CheckTotals) (output : Output) : Prop :=
  match console.style with
  | .human =>
    output.out = "" ∧ (console.quiet = false → ∃ before, output.err = before ++
      s!"{t.tables} tables in {t.files} files, {t.warnings} warnings, {t.issues} integrity issues"
        ++ "\n")
  | .json =>
    ∃ results, List.Forall₂ (IsAbout options) sources results ∧ AddsUp t results ∧
      output = .line (Json.object [("failed", .count t.failed), ("files", .count t.files),
        ("integrity_issues", .count t.issues), ("results", .array results),
        ("tables", .count t.tables), ("warnings", .count t.warnings)]).pretty
  | .plain => output.out = s!"{t.files}\t{t.failed}\t{t.warnings}\t{t.issues}" ++ "\n"

section Written

variable {console : Console} {outputs : List Output}

/-- Outputs one after the other print one after the other. -/
theorem out_append (a b : Output) : (a ++ b).out = a.out ++ b.out := rfl

/-- Outputs that print nothing print nothing together. -/
theorem out_concat (h : ∀ o ∈ outputs, o.out = "") : (Output.concat outputs).out = "" := by
  induction outputs with
  | nil => rfl
  | cons o outputs ih =>
    obtain ⟨ho, hothers⟩ := List.forall_mem_cons.1 h
    show o.out ++ (Output.concat outputs).out = ""
    rw [ho, ih hothers, String.append_empty]

/-- A warning is not printed to the standard output. -/
theorem out_warning (console : Console) (file message : String) :
    (console.warning file message).out = "" := by
  rw [Console.warning]
  split
  · rfl
  · split <;> rfl

/-- Progress is not printed to the standard output. -/
theorem out_progress (console : Console) (file state : String) :
    (console.progress file state).out = "" := by
  rw [Console.progress]
  split <;> rfl

/-- A report for people is not printed to the standard output. -/
theorem out_humanReport (console : Console) (f : SourceFile) (d : Diagram) :
    (humanReport console f d).out = "" := by
  have hwarnings : (if console.quiet then Output.empty
      else .concat (f.warnings.map (warningReport f))).out = "" := by
    split
    · rfl
    · exact out_concat (List.forall_mem_map.2 fun _ _ => rfl)
  rw [humanReport, out_append, out_append, out_progress, hwarnings,
    out_concat (List.forall_mem_map.2 fun _ _ => out_warning ..)]
  rfl

/-- A plain report is not printed to the standard output. -/
theorem out_plainReport (f : SourceFile) : (plainReport f).out = "" := by
  refine out_concat fun o ho => ?_
  rcases List.mem_append.1 ho with ho | ho
  all_goals
    obtain ⟨_, -, rfl⟩ := List.mem_map.1 ho
    rfl

/-- Reports on single files do not go to standard output. -/
theorem out_report (console : Console) (f : SourceFile) : (report console f).out = "" := by
  rw [report]
  split
  · rfl
  · exact out_humanReport ..
  · rfl
  · rfl
  · exact out_plainReport _

/-- With results in JSON there are no reports. -/
theorem reports_of_json (h : console.style = .json) (files : List SourceFile) :
    Output.concat (files.map (report console)) = .empty := by
  induction files with
  | nil => rfl
  | cons f files ih =>
    rw [List.map_cons]
    show report console f ++ Output.concat (files.map (report console)) = .empty
    rw [ih, report, h]
    rfl

/-- A summary is not printed to the standard output. -/
theorem out_summary (console : Console) (clean : Bool) (text : String) :
    (console.summary clean text).out = "" := by
  rw [Console.summary]
  split
  · rfl
  · split <;> rfl

/-- Whatever was written before, a summary for people ends in its text. -/
theorem exists_err_summary (o : Output) (clean : Bool) (text : String) :
    ∃ before, (o ++ Console.summary ⟨.human, false⟩ clean text).err = before ++ text ++ "\n" := by
  obtain ⟨mark, hmark⟩ : ∃ mark, (Console.summary ⟨.human, false⟩ clean text).err =
      mark ++ text ++ "\n" := by
    cases clean with
    | true => exact ⟨"ok ", rfl⟩
    | false => exact ⟨"warning: ", rfl⟩
  refine ⟨o.err ++ mark, (congrArg (o.err ++ ·) hmark).trans ?_⟩
  rw [String.append_assoc, String.append_assoc, String.append_assoc]

/-- The output of a check shows its totals in the style of the console. -/
theorem shows_outcome (console : Console) (options : CompileOptions) (strict : Bool)
    (sources : List (String × String)) :
    Shows console options sources (.ofFiles strict (sources.map (loaded options)))
      (outcome console strict (sources.map (loaded options))).output := by
  have hreports : (Output.concat ((sources.map (loaded options)).map (report console))).out = "" :=
    out_concat (List.forall_mem_map.2 fun f _ => out_report console f)
  obtain ⟨style, quiet⟩ := console
  cases style with
  | human =>
    refine ⟨?_, ?_⟩
    · rw [outcome, out_append, hreports]
      exact out_summary ..
    · rintro rfl
      exact exists_err_summary ..
  | json =>
    refine ⟨_, ?_, (counts_ofFiles options strict sources).addsUp, ?_⟩
    · rw [List.forall₂_map_right_iff, List.forall₂_map_right_iff]
      exact List.forall₂_same.2 fun source _ => isAbout_resultJson options source
    · rw [outcome, reports_of_json rfl, closing, toJson]
      show Output.mk ("" ++ _) ("" ++ _) = _
      rw [String.empty_append, String.empty_append]
  | plain =>
    show (_ ++ Output.line _).out = _
    rw [out_append, hreports, String.empty_append]
    rfl

end Written

/-! ## Runs -/

section Run

variable {config : Config} {paths : List String} {sources : List (String × String)}
  {tree : FileTree}

/-- Sources that can be read are loaded, and nothing fails. -/
theorem answers_upToFailure_load (hreads : ∀ source ∈ sources, tree.read source.1 = .ok source.2) :
    Looks.Answers tree (upToFailure (SourceFile.load options) (sources.map Prod.fst))
      (upToFailure (SourceFile.load options) (sources.map Prod.fst))
      (sources.map (loaded options), none) := by
  induction sources with
  | nil => exact ⟨rfl, rfl⟩
  | cons source sources ih =>
    obtain ⟨hread, hothers⟩ := List.forall_mem_cons.1 hreads
    exact Format.answers_upToFailure_cons (Format.answers_load hread) (ih hothers)

/-- A check only looks at the files, and comes to the outcome for what is in them. -/
theorem answers_run (console : Console) (strict : Bool)
    (hfiles : tree.diagramFiles config.extension (config.inputPaths paths) =
      .ok (sources.map Prod.fst))
    (hreads : ∀ source ∈ sources, tree.read source.1 = .ok source.2) :
    Looks.Answers tree (run console config options paths strict)
      (run console config options paths strict)
      (outcome console strict (sources.map (loaded options))) := by
  unfold run
  exact (Format.answers_diagramFiles hfiles).bind
    ((answers_upToFailure_load hreads).bind ⟨rfl, rfl⟩)

/-- A check fails exactly if some source is rejected, and tells how many. -/
theorem failure?_ofFiles (options : CompileOptions) (strict : Bool)
    (sources : List (String × String)) :
    (CheckTotals.ofFiles strict (sources.map (loaded options))).failure? =
      if ∃ source ∈ sources, IsRejected options strict source.2 then
        some (.check (CheckTotals.ofFiles strict (sources.map (loaded options))).failed
          sources.length)
      else none := by
  simp only [CheckTotals.failure?, (counts_ofFiles options strict sources).failed_pos_iff,
    files_ofFiles, List.length_map]

/-- A failed check exits with 3, and one that passes with 0. -/
theorem toNat_exitCode_close (console : Console) (output : Output) (failed total : Nat)
    (rejects : Prop) [Decidable rejects] :
    (Outcome.close console
        ⟨output, if rejects then some (.check failed total) else none⟩).1.toNat =
      if rejects then 3 else 0 := by
  by_cases h : rejects
  · rw [if_pos h, if_pos h]
    rfl
  · rw [if_neg h, if_neg h]
    rfl

/-- The verdict of a check of files that can be opened. The check fails, with exit code 3, exactly if
a text is rejected, and its failure has the numbers of rejected texts and of all. Totals and verdict
are the same in every style, quiet or not. JSON has one result for each file, in their order, and the
results add up to the totals. Under strict rules no check passes that fails without them, and no
fewer texts are rejected. The files stay as they are. -/
theorem verdict_of_sources (config : Config) (options : CompileOptions) (paths : List String)
    (sources : List (String × String)) (tree : FileTree)
    (hfiles : tree.diagramFiles config.extension (config.inputPaths paths) =
      .ok (sources.map Prod.fst))
    (hreads : ∀ source ∈ sources, tree.read source.1 = .ok source.2) :
    let rejects := fun strict => ∃ source ∈ sources, IsRejected options strict source.2
    ∃ totals : Bool → CheckTotals,
      (∀ strict, Counts options strict sources (totals strict) ∧
        (totals strict).files = sources.length) ∧
      (rejects false → rejects true) ∧ (totals false).failed ≤ (totals true).failed ∧
      ∀ (strict : Bool) (console : Console), ∃ output,
        let outcome : Outcome := ⟨output, if rejects strict then
          some (.check (totals strict).failed sources.length) else none⟩
        (run console config options paths strict : StateM FileTree Outcome) tree =
            (outcome, tree) ∧
          (run console config options paths strict : ReaderM FileTree Outcome) tree = outcome ∧
          (outcome.close console).1.toNat = (if rejects strict then 3 else 0) ∧
          Shows console options sources (totals strict) output := by
  intro rejects
  have hcounts := fun strict => counts_ofFiles options strict sources
  have hlength : ∀ strict, (CheckTotals.ofFiles strict (sources.map (loaded options))).files =
      sources.length := fun strict => by rw [files_ofFiles, List.length_map]
  refine ⟨fun strict => .ofFiles strict (sources.map (loaded options)),
    fun strict => ⟨hcounts strict, hlength strict⟩, ?_, (hcounts false).failed_le (hcounts true),
    ?_⟩
  · rintro ⟨source, hsource, hrejected⟩
    exact ⟨source, hsource, hrejected.of_lenient⟩
  · intro strict console
    have hanswers : Looks.Answers tree (run console config options paths strict)
        (run console config options paths strict) _ := answers_run console strict hfiles hreads
    have houtcome : outcome console strict (sources.map (loaded options)) =
        ⟨_, (CheckTotals.ofFiles strict (sources.map (loaded options))).failure?⟩ := rfl
    rw [failure?_ofFiles] at houtcome
    rw [houtcome] at hanswers
    exact ⟨_, hanswers.onState, hanswers.onReader, toNat_exitCode_close .., shows_outcome ..⟩

/-- A text without fault, a reference that breaks off, what is no source text, two tables of one
name, and a text over the limit. -/
def tray : List (String × String) :=
  [("a.dbml", "Table a\x7bx int\x7d"), ("b.dbml", "Ref a"), ("c.dbml", "#"),
    ("d.dbml", "Table d\x7bx int\x7dTable d\x7bx int\x7d"),
    ("e.dbml", "Table e\x7bx int [note: 'as long as can be']\x7d")]

/-- A tree with these texts. -/
def trayTree : FileTree :=
  ⟨tray.map fun source => (Place.here.child source.1, .text source.2)⟩

/-- A limit of forty bytes. -/
def trayOptions : CompileOptions :=
  { Config.compileOptions {} "tray" default with maxInputBytes := some 40 }

/-- Two texts are rejected in any case, and two more under strict rules. -/
theorem verdict_of_tray :
    trayTree.diagramFiles "dbml" (tray.map Prod.fst) = .ok (tray.map Prod.fst) ∧
    (∀ source ∈ tray, trayTree.read source.1 = .ok source.2) ∧
    ∃ totals : Bool → CheckTotals,
      totals false = ⟨5, 2, 3, 1, 1⟩ ∧ totals true = ⟨5, 4, 3, 1, 1⟩ ∧
      ∀ (strict : Bool) (console : Console), ∃ output,
        (run console {} trayOptions (tray.map Prod.fst) strict : StateM FileTree Outcome)
            trayTree = (⟨output, some (.check (totals strict).failed 5)⟩, trayTree) ∧
          Shows console trayOptions tray (totals strict) output := by
  have hfiles : trayTree.diagramFiles "dbml" (tray.map Prod.fst) = .ok (tray.map Prod.fst) := by
    refine Eq.trans (b := .ok (Path.sortOnce (tray.map Prod.fst))) rfl ?_
    simp +decide [tray, Path.sortOnce, List.mergeSort_of_pairwise, Path.sortOnce.dropRepeats]
  have hreads : ∀ source ∈ tray, trayTree.read source.1 = .ok source.2 := by decide +kernel
  refine ⟨hfiles, hreads, ?_⟩
  obtain ⟨totals, hcounts, -, -, hruns⟩ :=
    verdict_of_sources {} trayOptions (tray.map Prod.fst) tray trayTree hfiles hreads
  have htables : ((readable trayOptions tray).map (·.diagram.tables.length)).sum = 3 := by
    decide +kernel
  have hwarnings : ((readable trayOptions tray).map (·.warnings.length)).sum = 1 := by
    decide +kernel
  have hissues : ((readable trayOptions tray).map (·.diagram.integrityIssues.length)).sum = 1 := by
    decide +kernel
  have hfailed : ∀ strict, (tray.countP fun source => IsRejected trayOptions strict source.2) =
      if strict then 4 else 2 := by decide +kernel
  have htotals : ∀ strict, totals strict = ⟨5, if strict then 4 else 2, 3, 1, 1⟩ := by
    intro strict
    obtain ⟨h, hlength⟩ := hcounts strict
    rw [h.eq_mk hlength, hfailed, htables, hwarnings, hissues]
    rfl
  refine ⟨totals, htotals false, htotals true, fun strict console => ?_⟩
  obtain ⟨output, hrun, -, -, hshows⟩ := hruns strict console
  have hrejects : ∃ source ∈ tray, IsRejected trayOptions strict source.2 :=
    (hcounts strict).1.failed_pos_iff.1 (by rw [htotals]; cases strict <;> decide)
  rw [if_pos hrejects] at hrun
  exact ⟨output, hrun, hshows⟩

end Run

end SchemaDiagram.Check
