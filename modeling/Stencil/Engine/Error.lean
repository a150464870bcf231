import Stencil.Render.Error
import Stencil.Template.Fault

namespace Stencil

inductive SetupError where
  | zeroCapacity
  | malformedConfig
  | malformedConfigFile
  | malformedContextFile
  | contextNotObject
  deriving DecidableEq, Repr

def SetupError.message : SetupError → String
  | .zeroCapacity => "resolution_cache_capacity must be greater than zero"
  | .malformedConfig => "Failed to parse config"
  | .malformedConfigFile => "Failed to parse config file"
  | .malformedContextFile => "Failed to parse context file"
  | .contextNotObject => "context file must hold a JSON object"

inductive FileError where
  | notFound
  | notText
  | other (message : String)
  deriving DecidableEq, Repr

def FileError.message : FileError → String
  | .notFound => "No such file or directory (os error 2)"
  | .notText => "stream did not contain valid UTF-8"
  | .other message => message

inductive EngineError where
  | parse (label : String) (error : Template.ParseError)
  | eval (label : String) (error : EvalError)
  | setup (error : SetupError)
  | file (error : FileError)
  deriving DecidableEq, Repr

namespace EngineError

def message : EngineError → String
  | .parse label error => s!"Parse error in {label}: {error.message}"
  | .eval label error => s!"Eval error in {label}: {error.message}"
  | .setup error => s!"Config error: {error.message}"
  | .file error => s!"I/O error: {error.message}"

def label? : EngineError → Option String
  | .parse label _ | .eval label _ => some label
  | .setup _ | .file _ => none

end EngineError

end Stencil
