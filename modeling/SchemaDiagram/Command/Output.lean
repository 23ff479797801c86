import SchemaDiagram.Command.Failure

/-!
# Output of commands

Results go to standard output; problems, progress and summaries go to standard error. There are
three styles: lines for people, JSON, and lines with tabs for other programs. Quiet output has no
warnings, no progress and no summaries, but failures are always told.
-/

namespace SchemaDiagram

/-- What a command writes. -/
structure Output where
  /-- The text on standard output. -/
  out : String
  /-- The text on standard error. -/
  err : String
  deriving DecidableEq, Repr

namespace Output

/-- No output. -/
def empty : Output := ⟨"", ""⟩

/-- One output after another. -/
instance : Append Output := ⟨fun a b => ⟨a.out ++ b.out, a.err ++ b.err⟩⟩

/-- Some outputs in a row. -/
def concat (outputs : List Output) : Output := outputs.foldr (· ++ ·) empty

/-- A text on standard output. -/
def text (s : String) : Output := ⟨s, ""⟩

/-- A line on standard output. -/
def line (s : String) : Output := ⟨s ++ "\n", ""⟩

/-- A line on standard error. -/
def note (s : String) : Output := ⟨"", s ++ "\n"⟩

end Output

/-- The styles of output. -/
inductive Style where
  | human
  | json
  | plain
  deriving DecidableEq, Repr

/-- How commands write. -/
structure Console where
  /-- The style. -/
  style : Style
  /-- Whether only results and failures are written. -/
  quiet : Bool
  deriving DecidableEq, Repr

namespace Console

/-- A problem with a file that did not stop the command. -/
def warning (console : Console) (file message : String) : Output :=
  if console.quiet then .empty
  else
    match console.style with
    | .human => .note s!"warning: {file}: {message}"
    | .json => .note (Json.object [("file", .string file), ("warning", .string message)]).compact
    | .plain => .note s!"{file}\twarning\t{message}"

/-- What became of a file; only people are told. -/
def progress (console : Console) (file state : String) : Output :=
  if console.quiet || console.style ≠ .human then .empty else .note s!"  {file} .... {state}"

/-- The last line of a command; only people are told. -/
def summary (console : Console) (clean : Bool) (text : String) : Output :=
  if console.quiet || console.style ≠ .human then .empty
  else if clean then .note s!"ok {text}"
  else .note s!"warning: {text}"

/-- A failure. -/
def failure (console : Console) (f : Failure) : Output :=
  match console.style with
  | .human => .note s!"error: {f.message}"
  | .json => .note f.toJson.compact
  | .plain => .note s!"error\t{f.message}"

end Console

end SchemaDiagram
