import SchemaDiagram.Command.Format

/-!
# Requests

What the arguments of a program ask for: a command, and how it is carried out.
-/

namespace SchemaDiagram

/-- A command with its arguments. -/
inductive Command where
  /-- Checks diagram files, those of the configured folder if no paths are given. -/
  | check (paths : List String) (strict : Bool)
  /-- Formats diagram files, those of the configured folder if no paths are given. -/
  | format (paths : List String) (mode : FormatMode)
  /-- Exports a diagram to standard output or into a file. -/
  | export (file : String) (target? : Option String)
  /-- Asks for the completion script of a shell. -/
  | completions (shell : String)
  deriving DecidableEq, Repr

/-- How much is logged. -/
inductive LogLevel where
  | error
  | warn
  | info
  | debug
  | trace
  deriving DecidableEq, Repr

/-- The name of a log level. -/
def LogLevel.name : LogLevel → String
  | error => "error"
  | warn => "warn"
  | info => "info"
  | debug => "debug"
  | trace => "trace"

/-- The log level of a verbosity; quiet programs log errors only. -/
def LogLevel.ofVerbosity (quiet : Bool) (verbosity : Nat) : LogLevel :=
  if quiet then .error
  else
    match verbosity with
    | 0 => .warn
    | 1 => .info
    | 2 => .debug
    | _ => .trace

/-- A command and how it is carried out. -/
structure Request where
  /-- How is written. -/
  console : Console
  /-- How much is logged. -/
  log : LogLevel
  /-- The path of the configuration file, if one is named. -/
  config? : Option String
  /-- The command. -/
  command : Command
  deriving DecidableEq, Repr

/-- Why arguments are not a request. -/
inductive Usage where
  /-- Help is asked for. -/
  | help
  /-- The version is asked for. -/
  | version
  /-- There is no argument at all. -/
  | nothingGiven
  /-- There is no command. -/
  | missingCommand
  /-- A word that should be a command is none. -/
  | unknownCommand
  /-- An option that is not known, or a word too many. -/
  | unknownArgument
  /-- A value that an option or a word cannot have, or none where there has to be one. -/
  | invalidValue
  /-- A word that has to be there is not. -/
  | missingArgument
  /-- Options that exclude each other, or one that is given twice. -/
  | conflict
  /-- A value for an option that takes none. -/
  | unexpectedValue
  deriving DecidableEq, Repr

/-- Asking for help or the version is no mistake. -/
def Usage.exitCode : Usage → ExitCode
  | help | version => .success
  | _ => .usage

/-- What is set around a program. A variable can be set to the empty text. -/
structure Environment where
  /-- The folder of a person. -/
  home? : Option String := none
  /-- The folder of a person's configuration files. -/
  configHome? : Option String := none
  /-- The path of the configuration file. -/
  config? : Option String := none
  /-- Whether colors are unwanted; output has none in any case. -/
  noColor? : Option String := none
  deriving DecidableEq, Repr

end SchemaDiagram
