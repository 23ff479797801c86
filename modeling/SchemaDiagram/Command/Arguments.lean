import SchemaDiagram.Command.Request

/-!
# Arguments

Arguments are read in two levels: general options and the name of a command, and then general
options, options of the command and words. Options have long names, some have short ones that can be
run together, and a value is joined to its option by `=` (to a short one also directly) or is the
next argument. Behind `--` there are only words.

A value or word that stands alone is kept until the next option, or the end of its level, and only
then it is looked at; so of two mistakes the later one may be told. The arguments of a command are
looked at before the general ones in front of it.
-/

namespace SchemaDiagram

/-- The names of commands. -/
inductive CommandName where
  | check
  | format
  | export
  | completions
  deriving DecidableEq, Repr

/-- The command of a name. -/
def CommandName.ofString? : String → Option CommandName
  | "check" => some check
  | "fmt" => some format
  | "export" => some .export
  | "completions" => some completions
  | _ => none

/-- Where arguments stand: in front of a command, or behind it. -/
inductive Level where
  | program
  | command (name : CommandName)
  deriving DecidableEq, Repr

/-- Options without a value. -/
inductive Flag where
  | help
  | version
  | verbose
  | quiet
  | noColor
  | strict
  | write
  | check
  deriving DecidableEq, Repr

/-- What takes a value. -/
inductive Slot where
  | config
  | format
  | output
  /-- A word. -/
  | word
  deriving DecidableEq, Repr

/-- An option. -/
inductive CommandOption where
  | flag (f : Flag)
  | slot (s : Slot)
  deriving DecidableEq, Repr

namespace CommandOption

/-- The option of a long name. -/
def ofLong? (level : Level) (name : String) : Option CommandOption :=
  match level, name with
  | _, "config" => some (.slot .config)
  | _, "format" => some (.slot .format)
  | _, "verbose" => some (.flag .verbose)
  | _, "quiet" => some (.flag .quiet)
  | _, "no-color" => some (.flag .noColor)
  | _, "help" => some (.flag .help)
  | _, "version" => some (.flag .version)
  | .command .check, "strict" => some (.flag .strict)
  | .command .format, "write" => some (.flag .write)
  | .command .format, "check" => some (.flag .check)
  | .command .export, "output" => some (.slot .output)
  | _, _ => none

/-- The option of a short name. -/
def ofShort? (level : Level) (name : Char) : Option CommandOption :=
  match level, name with
  | _, 'c' => some (.slot .config)
  | _, 'v' => some (.flag .verbose)
  | _, 'q' => some (.flag .quiet)
  | _, 'h' => some (.flag .help)
  | _, 'V' => some (.flag .version)
  | .command .check, 's' => some (.flag .strict)
  | .command .format, 'w' => some (.flag .write)
  | .command .export, 'o' => some (.slot .output)
  | _, _ => none

end CommandOption

/-- The style of a name. -/
def Style.ofString? : String → Option Style
  | "human" => some human
  | "json" => some json
  | "plain" => some plain
  | _ => none

/-- The shells that completion scripts can be asked for. -/
def shells : List String := ["bash", "zsh", "fish", "powershell", "elvish"]

/-- What the arguments of a level have given so far. -/
structure Given where
  /-- The flags without `verbose`. -/
  flags : List Flag := []
  /-- How often `verbose` was given. -/
  verbosity : Nat := 0
  config? : Option String := none
  style? : Option Style := none
  output? : Option String := none
  /-- The words. -/
  words : List String := []

namespace Given

/-- Takes a flag. All but `verbose` can be given only once. -/
def takeFlag (f : Flag) (g : Given) : Except Usage Given :=
  match f with
  | .help => .error .help
  | .version => .error .version
  | .verbose => .ok { g with verbosity := g.verbosity + 1 }
  | f => if f ∈ g.flags then .error .conflict else .ok { g with flags := f :: g.flags }

/-- A value that is not empty. -/
def nonempty (s : String) : Except Usage String := if s = "" then .error .invalidValue else .ok s

/-- A word of a level: a path, or the name of a shell. -/
def checkWord (level : Level) (s : String) : Except Usage String :=
  match level with
  | .command .completions => if s ∈ shells then .ok s else .error .invalidValue
  | _ => nonempty s

/-- Takes the values of a slot. An option needs a value and can be given only once. -/
def takeValues (level : Level) (slot : Slot) (values : List String) (g : Given) :
    Except Usage Given :=
  match slot, values with
  | .word, words => do return { g with words := g.words ++ (← words.mapM (checkWord level)) }
  | _, [] => .error .invalidValue
  | .config, value :: _ =>
    if g.config?.isSome then .error .conflict
    else do return { g with config? := some (← nonempty value) }
  | .format, value :: _ =>
    if g.style?.isSome then .error .conflict
    else
      match Style.ofString? value with
      | some style => .ok { g with style? := some style }
      | none => .error .invalidValue
  | .output, value :: _ =>
    if g.output?.isSome then .error .conflict
    else do return { g with output? := some (← nonempty value) }

end Given

/-- The arguments of a level as far as they have been read. -/
structure ArgumentState where
  /-- What has been looked at. -/
  given : Given := {}
  /-- The slot whose values are kept, and the values. -/
  pending? : Option (Slot × List String) := none
  /-- Whether the next argument is the value of the kept option. -/
  awaiting : Bool := false
  /-- Whether `--` has been read. -/
  wordsOnly : Bool := false
  /-- Whether a word has been read. -/
  hasWord : Bool := false

namespace ArgumentState

/-- Looks at the kept values. -/
def settle (level : Level) (s : ArgumentState) : Except Usage ArgumentState :=
  match s.pending? with
  | none => .ok s
  | some (slot, values) => do
    return { s with given := ← s.given.takeValues level slot values, pending? := none }

/-- Reads a flag. -/
def flag (level : Level) (f : Flag) (s : ArgumentState) : Except Usage ArgumentState := do
  let s ← s.settle level
  return { s with given := ← s.given.takeFlag f, awaiting := false }

/-- Reads an option with the value that is joined to it, if any. -/
def slot (level : Level) (slot : Slot) (value? : Option String) (s : ArgumentState) :
    Except Usage ArgumentState := do
  let s ← s.settle level
  match value? with
  | some value =>
    return { s with given := ← s.given.takeValues level slot [value], awaiting := false }
  | none => return { s with pending? := some (slot, []), awaiting := true }

/-- Reads a long option, from behind its dashes on. -/
def long (level : Level) (text : String) (s : ArgumentState) : Except Usage ArgumentState :=
  let letters := text.toList
  let name := String.ofList (letters.takeWhile (· ≠ '='))
  let value? := match letters.dropWhile (· ≠ '=') with
    | [] => none
    | _ :: value => some (String.ofList value)
  match CommandOption.ofLong? level name, value? with
  | none, _ => .error .unknownArgument
  | some (.flag _), some _ => .error .unexpectedValue
  | some (.flag f), none => s.flag level f
  | some (.slot slot), value? => s.slot level slot value?

/-- Reads short options that are run together. The first one that takes a value has the rest of the
text as its value. -/
def short (level : Level) : List Char → ArgumentState → Except Usage ArgumentState
  | [], s => .ok s
  | name :: text, s =>
    match CommandOption.ofShort? level name with
    | none => .error .unknownArgument
    | some (.flag f) => do short level text (← s.flag level f)
    | some (.slot slot) =>
      match text with
      | [] => s.slot level slot none
      | '=' :: value => s.slot level slot (some (String.ofList value))
      | value => s.slot level slot (some (String.ofList value))

/-- Reads a word. Paths are collected; other commands take one word, and the program takes none. -/
def word (level : Level) (text : String) (s : ArgumentState) : Except Usage ArgumentState :=
  match level with
  | .program =>
    if s.wordsOnly ∧ (text = "help" ∨ (CommandName.ofString? text).isSome) then
      .error .unknownArgument
    else .error .unknownCommand
  | .command .check | .command .format =>
    match s.pending? with
    | some (.word, words) => .ok { s with pending? := some (.word, words ++ [text]) }
    | _ => do
      let s ← s.settle level
      return { s with pending? := some (.word, [text]), awaiting := false }
  | .command .export | .command .completions =>
    if s.hasWord then .error .unknownArgument
    else do
      let s ← s.settle level
      return { s with pending? := some (.word, [text]), awaiting := false, hasWord := true }

/-- Reads an argument that is not the name of a command. -/
def argument (level : Level) (s : ArgumentState) (text : String) : Except Usage ArgumentState :=
  if s.wordsOnly then s.word level text
  else
    match text.toList with
    | ['-', '-'] => .ok { s with wordsOnly := true }
    | '-' :: '-' :: letters => s.long level (String.ofList letters)
    | '-' :: letter :: letters => s.short level (letter :: letters)
    | _ =>
      if s.awaiting then
        .ok { s with
          pending? := s.pending?.map fun (slot, values) => (slot, values ++ [text])
          awaiting := false }
      else s.word level text

end ArgumentState

/-! ## The end of a level -/

/-- What the general options of a level say. -/
def Given.checkConflicts (g : Given) : Except Usage Unit :=
  if (.quiet ∈ g.flags ∧ 0 < g.verbosity) ∨ (.write ∈ g.flags ∧ .check ∈ g.flags) then
    .error .conflict
  else .ok ()

/-- Whether anything is given, by arguments or around the program. -/
def Given.isNothing (g : Given) (environment : Environment) : Bool :=
  g.flags.isEmpty && g.verbosity == 0 && g.config?.isNone && g.style?.isNone &&
    environment.config?.isNone && environment.noColor?.isNone

/-- The end of a level: the kept values are looked at, and the path of the configuration file that
is set around the program if the level names none. -/
def ArgumentState.close (level : Level) (environment : Environment) (s : ArgumentState) :
    Except Usage Given := do
  let s ← s.settle level
  if s.given.config?.isNone ∧ environment.config? = some "" then .error .invalidValue
  return s.given

/-- Reads the arguments behind a command. -/
def readCommand (environment : Environment) (name : CommandName) (arguments : List String) :
    Except Usage (Given × Command) := do
  let level := Level.command name
  let s ← arguments.foldlM (ArgumentState.argument level) {}
  let given ← s.close level environment
  given.checkConflicts
  match name, given.words with
  | .check, paths => return (given, .check paths (.strict ∈ given.flags))
  | .format, paths =>
    let mode : FormatMode := if .check ∈ given.flags then .verify
      else if .write ∈ given.flags then .inPlace
      else .print
    return (given, .format paths mode)
  | .export, file :: _ => return (given, .export file given.output?)
  | .completions, shell :: _ => return (given, .completions shell)
  | _, [] => .error .missingArgument

/-- The answer to a call for help, which may name a command. -/
def helpOn : List String → Usage
  | [] => .help
  | name :: [] =>
    if name = "help" ∨ (CommandName.ofString? name).isSome then .help else .unknownCommand
  | _ => .unknownCommand

/-- Reads arguments up to the name of a command, and then those behind it. -/
def readProgram (environment : Environment) :
    List String → ArgumentState → Except Usage (ArgumentState × Option (Given × Command))
  | [], s => .ok (s, none)
  | text :: rest, s => do
    if s.wordsOnly ∨ s.awaiting then readProgram environment rest (← s.argument .program text)
    else if text = "help" then .error (helpOn rest)
    else
      match CommandName.ofString? text with
      | some name => return (s, some (← readCommand environment name rest))
      | none => readProgram environment rest (← s.argument .program text)

/-- The request of the arguments of a program. What stands behind the command wins over what stands
in front of it, and both win over what is set around the program. -/
def Request.ofArguments (environment : Environment) (arguments : List String) :
    Except Usage Request := do
  let (s, found?) ← readProgram environment arguments {}
  let outer ← s.close .program environment
  match found? with
  | none => .error (if outer.isNothing environment then .nothingGiven else .missingCommand)
  | some (inner, command) =>
    outer.checkConflicts
    let quiet := .quiet ∈ inner.flags ∨ .quiet ∈ outer.flags
    let verbosity := if inner.verbosity = 0 then outer.verbosity else inner.verbosity
    return {
      console := ⟨(inner.style?.orElse fun _ => outer.style?).getD .human, quiet⟩
      log := .ofVerbosity quiet verbosity
      config? := inner.config?.orElse fun _ => outer.config?.orElse fun _ => environment.config?
      command }

end SchemaDiagram
