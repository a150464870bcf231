import Stencil.Engine.Basic

namespace Stencil.CommandLine

structure Arguments where
  template : Option String
  context : Option String
  config : Option String
  deriving DecidableEq, Repr

namespace Arguments

def none : Arguments :=
  { template := .none, context := .none, config := .none }

/-- Reads options with their values. The option for more messages has none and changes nothing
here. -/
def add? (arguments : Arguments) : List String → Option Arguments
  | [] => some arguments
  | "-v" :: rest | "--verbose" :: rest => arguments.add? rest
  | "-t" :: name :: rest | "--template" :: name :: rest =>
      { arguments with template := some name }.add? rest
  | "-x" :: name :: rest | "--context" :: name :: rest =>
      { arguments with context := some name }.add? rest
  | "-c" :: name :: rest | "--config" :: name :: rest =>
      { arguments with config := some name }.add? rest
  | _ => .none

end Arguments

def usage : String :=
  "usage: stencil --template FILE [--context FILE] [--config FILE] [--verbose]"

abbrev File := Except FileError String

structure Files where
  template : File
  label : String
  context : Option File
  config : Option File

def readConfig : Option File → Except EngineError Config
  | none => .ok .usual
  | some file => do
      let source ← file.mapError .file
      (Config.ofJson .malformedConfigFile source).mapError .setup

def readContext : Option File → Except EngineError Context
  | none => .ok .empty
  | some file => do
      let source ← file.mapError .file
      match Value.ofJson? source with
      | none => .error (.setup .malformedContextFile)
      | some value =>
          match Context.ofValue? value with
          | some context => .ok context
          | none => .error (.setup .contextNotObject)

def run (files : Files) : Except EngineError String := do
  let config ← readConfig files.config
  let context ← readContext files.context
  let source ← files.template.mapError .file
  let engine := Engine.ofConfig config .withBuiltins
  let run := engine.evaluate .unlimited files.label source context
  let _ ← run.result
  return run.output

structure Report where
  output : String
  complaint : Option String

def Report.exitCode (r : Report) : Nat :=
  if r.complaint.isSome then 1 else 0

def report (files : Files) : Report :=
  match run files with
  | .ok output => { output, complaint := none }
  | .error error => { output := "", complaint := some s!"Error: {error.message}" }

end Stencil.CommandLine
