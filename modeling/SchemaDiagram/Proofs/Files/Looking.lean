import SchemaDiagram.Files.Search
import SchemaDiagram.Proofs.Files.Kinds

/-!
# Programs that only look at files

A tree that nobody may write to answers questions without a state. A program that only looks at
files has the same answer on such a tree as on one that is kept in a state, and leaves the state as
it is (`Looks`). The search for diagram files is such a program, and since it asks for kinds alone,
its answer is the same on all trees of the same kinds (`looks_diagramFiles`).
-/

namespace SchemaDiagram

/-- A tree that nobody may write to. -/
instance : MonadFiles (ReaderM FileTree) where
  kind? path := return (← read).kind? path
  below folder := return (← read).below folder
  read path := return (← read).read path
  write _ _ := return .error .forbidden

/-- A program that has answered goes on with its answer, from the tree that it leaves. -/
theorem stateM_bind {σ α β : Type} {x : StateM σ α} {s s' : σ} {a : α} (f : α → StateM σ β)
    (h : x s = (a, s')) : (x >>= f) s = f a s' := by
  show f (x s).1 (x s).2 = f a s'
  rw [h]

/-- A program that only reads goes on with its answer, from the same tree. -/
theorem readerM_bind {ρ α β : Type} {y : ReaderM ρ α} {t : ρ} {a : α} (g : α → ReaderM ρ β)
    (h : y t = a) : (y >>= g) t = g a t := by
  show g (y t) t = g a t
  rw [h]

/-- The program `x` answers on `s` what `y` answers on `t`, and leaves `s` as it is. -/
def Looks {α : Type} (s t : FileTree) (x : StateM FileTree α) (y : ReaderM FileTree α) : Prop :=
  x s = (y t, s)

namespace Looks

variable {α β : Type} {s t : FileTree}

/-- Returning an answer only looks. -/
theorem pure (a : α) : Looks s t (Pure.pure a) (Pure.pure a) := rfl

/-- Programs that only look do so in sequence. -/
theorem bind {x : StateM FileTree α} {y : ReaderM FileTree α} {f : α → StateM FileTree β}
    {g : α → ReaderM FileTree β} (hx : Looks s t x y) (hf : ∀ a, Looks s t (f a) (g a)) :
    Looks s t (x >>= f) (y >>= g) :=
  (stateM_bind f hx).trans (hf (y t))

/-- Changing the answer only looks. -/
theorem map {x : StateM FileTree α} {y : ReaderM FileTree α} (f : α → β) (hx : Looks s t x y) :
    Looks s t (f <$> x) (f <$> y) := bind hx fun a => pure (f a)

/-- Asking for an entry's kind only looks, and trees of the same kinds answer alike. -/
theorem kind? (h : s.SameKinds t) (path : String) :
    Looks s t (MonadFiles.kind? path) (MonadFiles.kind? path) :=
  congrArg (·, s) (h.kind? path)

/-- Asking what is below a folder only looks, and trees of the same kinds answer alike. -/
theorem below (h : s.SameKinds t) (folder : String) :
    Looks s t (MonadFiles.below folder) (MonadFiles.below folder) :=
  congrArg (·, s) (h.below folder)

/-- Reading a file only looks. -/
theorem read (t : FileTree) (path : String) :
    Looks t t (MonadFiles.read path) (MonadFiles.read path) := rfl

/-- What was found for the elements so far does not matter for those to come. -/
theorem flatMapM {f : α → StateM FileTree (List β)} {g : α → ReaderM FileTree (List β)}
    (h : ∀ a, Looks s t (f a) (g a)) (as : List α) : Looks s t (as.flatMapM f) (as.flatMapM g) := by
  suffices ∀ found, Looks s t (List.flatMapM.loop f as found) (List.flatMapM.loop g as found) from
    this []
  induction as with
  | nil => exact fun found => pure _
  | cons a as ih => exact fun found => bind (h a) fun bs => ih (bs :: found)

/-- Filtering by programs that only look only looks. -/
theorem filterM {f : α → StateM FileTree Bool} {g : α → ReaderM FileTree Bool}
    (h : ∀ a, Looks s t (f a) (g a)) (as : List α) : Looks s t (as.filterM f) (as.filterM g) := by
  suffices ∀ found, Looks s t (List.filterAuxM f as found) (List.filterAuxM g as found) from
    bind (this []) fun found => pure _
  induction as with
  | nil => exact fun found => pure _
  | cons a as ih => exact fun found => bind (h a) fun b => ih (bif b then a :: found else found)

/-! ### Known answers -/

/-- Both programs answer `a` on `t`, and `t` is left as it is. -/
structure Answers (t : FileTree) (x : StateM FileTree α) (y : ReaderM FileTree α) (a : α) :
    Prop where
  onState : x t = (a, t)
  onReader : y t = a

/-- A program that only looks answers as its reading does. -/
theorem answers {x : StateM FileTree α} {y : ReaderM FileTree α} {a : α} (hx : Looks t t x y)
    (ha : y t = a) : Answers t x y a :=
  ⟨hx.trans (congrArg (·, t) ha), ha⟩

/-- A program goes on with the answer of its first part, so nothing is asked of other answers. -/
theorem Answers.bind {x : StateM FileTree α} {y : ReaderM FileTree α} {a : α}
    {f : α → StateM FileTree β} {g : α → ReaderM FileTree β} {b : β} (hx : Answers t x y a)
    (hf : Answers t (f a) (g a) b) : Answers t (x >>= f) (y >>= g) b :=
  ⟨(stateM_bind f hx.onState).trans hf.onState, (readerM_bind g hx.onReader).trans hf.onReader⟩

/-! ### Programs that can fail -/

variable {ε : Type}

/-- A program that only looks does so as one that may fail. -/
theorem lift {x : StateM FileTree α} {y : ReaderM FileTree α} (hx : Looks s t x y) :
    Looks s t (ExceptT.lift (ε := ε) x).run (ExceptT.lift y).run := map Except.ok hx

/-- Programs that only look and may fail do so in sequence. -/
theorem exceptBind {x : ExceptT ε (StateM FileTree) α} {y : ExceptT ε (ReaderM FileTree) α}
    {f : α → ExceptT ε (StateM FileTree) β} {g : α → ExceptT ε (ReaderM FileTree) β}
    (hx : Looks s t x.run y.run) (hf : ∀ a, Looks s t (f a).run (g a).run) :
    Looks s t (x >>= f).run (y >>= g).run := by
  refine bind (f := ExceptT.bindCont f) (g := ExceptT.bindCont g) hx fun outcome => ?_
  cases outcome with
  | ok a => exact hf a
  | error e => exact pure (Except.error e)

/-- Programs that only look and may fail do so over a list. -/
theorem exceptFlatMapM {f : α → ExceptT ε (StateM FileTree) (List β)}
    {g : α → ExceptT ε (ReaderM FileTree) (List β)} (h : ∀ a, Looks s t (f a).run (g a).run)
    (as : List α) : Looks s t (as.flatMapM f).run (as.flatMapM g).run := by
  suffices ∀ found, Looks s t (List.flatMapM.loop f as found).run
      (List.flatMapM.loop g as found).run from this []
  induction as with
  | nil => exact fun found => pure _
  | cons a as ih => exact fun found => exceptBind (h a) fun bs => ih (bs :: found)

end Looks

/-! ## Searching -/

section Search

variable {s t : FileTree}

/-- Asking whether a path is a folder only looks. -/
theorem PathPattern.looks_isFolder (h : s.SameKinds t) (path : String) :
    Looks s t (isFolder path) (isFolder path) :=
  (Looks.kind? h path).bind fun _ => .pure _

/-- The next piece is followed only if something is there. -/
theorem looks_ite {α : Type} {b : Bool} {x x' : StateM FileTree α} {y y' : ReaderM FileTree α}
    (hx : Looks s t x y) (hx' : Looks s t x' y') :
    Looks s t (if b then x else x') (if b then y else y') := by
  cases b
  · exact hx'
  · exact hx

/-- Expanding a pattern only looks. -/
theorem PathPattern.looks_expand (h : s.SameKinds t) (pieces : List NamePattern) (path : String) :
    Looks s t (expand pieces path) (expand pieces path) := by
  induction pieces, path using PathPattern.expand.induct (m := ReaderM FileTree) with
  | case1 path =>
    rw [expand, expand]
    exact .pure _
  | case2 path =>
    rw [expand, expand]
    exact (Looks.below h path).bind fun _ => .pure _
  | case3 pieces path ih =>
    rw [expand, expand]
    exact ih
  | case4 piece pieces path hpiece ih =>
    rw [expand.eq_4 path piece pieces hpiece, expand.eq_4 path piece pieces hpiece]
    exact (Looks.below h path).bind fun _ => .flatMapM (fun (names, _) => ih names) _
  | case5 piece pieces path h₁ h₂ h₃ letters hletters name next hname ih =>
    rw [expand.eq_5 path piece pieces h₁ h₂ h₃, expand.eq_5 path piece pieces h₁ h₂ h₃]
    simp only [hletters]
    rw [if_pos hname, if_pos hname]
    exact (looks_isFolder h path).bind fun _ => looks_ite ih (.pure _)
  | case6 piece pieces path h₁ h₂ h₃ letters hletters name next hname ih =>
    rw [expand.eq_5 path piece pieces h₁ h₂ h₃, expand.eq_5 path piece pieces h₁ h₂ h₃]
    simp only [hletters]
    rw [if_neg hname, if_neg hname]
    exact ((Looks.kind? h next).map _).bind fun _ => looks_ite ih (.pure _)
  | case7 piece pieces path h₁ h₂ h₃ hletters ih =>
    rw [expand.eq_5 path piece pieces h₁ h₂ h₃, expand.eq_5 path piece pieces h₁ h₂ h₃]
    simp only [hletters]
    exact (Looks.below h path).bind fun _ => (looks_isFolder h path).bind fun _ => .flatMapM ih _

/-- Matching a pattern only looks. -/
theorem PathPattern.looks_matchingPaths (h : s.SameKinds t) (pattern : PathPattern) :
    Looks s t pattern.matchingPaths pattern.matchingPaths :=
  (looks_expand h pattern.pieces pattern.start).bind fun found =>
    looks_ite (.filterM (looks_isFolder h) found) (.pure found)

/-- Searching for the files of diagrams at a path only looks. -/
theorem looks_diagramFilesAt (h : s.SameKinds t) (extension path : String) :
    Looks s t (diagramFilesAt extension path).run (diagramFilesAt extension path).run := by
  refine .exceptBind (.lift (.kind? h path)) fun kind => ?_
  rcases kind with _ | _ | _
  · exact .pure _
  · exact .pure _
  · dsimp only
    cases PathPattern.ofString (Path.join path ("**/*." ++ extension)) with
    | ok pattern => exact .lift (PathPattern.looks_matchingPaths h pattern)
    | error e => exact .pure _

/-- The search has the same answer on all trees of the same kinds, and changes nothing. -/
theorem looks_diagramFiles (h : s.SameKinds t) (extension : String) (paths : List String) :
    Looks s t (diagramFiles extension paths).run (diagramFiles extension paths).run := by
  refine .exceptBind (.exceptFlatMapM (looks_diagramFilesAt h extension) paths) fun found => ?_
  cases found.isEmpty <;> exact .pure _

end Search

end SchemaDiagram
