import Stencil.Engine.Config
import Stencil.Member.Builtin
import Stencil.Render.Evaluate
import Stencil.Template.Parse

namespace Stencil

structure Engine where
  config : Config
  registry : Registry
  cache : ResolutionCache

namespace Engine

def ofConfig (config : Config) (registry : Registry) : Engine :=
  { config, registry, cache := .empty config.capacity config.capacity_pos }

def usual : Engine :=
  ofConfig .usual .withBuiltins

def setting (e : Engine) : Setting :=
  { registry := e.registry, strict := e.config.strict }

def parse (label source : String) : Except EngineError Template :=
  (Template.parse label source).mapError (.parse label)

structure Run where
  result : Except EngineError Unit
  output : String
  context : Context
  engine : Engine

def Run.succeeded (run : Run) : Bool :=
  run.result.isOk

def render (e : Engine) (sink : Sink) (template : Template) (context : Context) : Run :=
  let outcome :=
    Template.renderWith e.setting sink template.nodes { context, cache := e.cache }
  { result := outcome.result.mapError (.eval template.label)
    output := outcome.text
    context := outcome.context
    engine := { e with cache := outcome.cache } }

/-- Parses and renders. Nothing is written for a template that does not parse. -/
def evaluate (e : Engine) (sink : Sink) (label source : String) (context : Context) : Run :=
  match parse label source with
  | .ok template => e.render sink template context
  | .error error => { result := .error error, output := "", context, engine := e }

end Engine

end Stencil
