import Stencil.CommandLine

namespace Stencil.CommandLine

def readFile (name : String) : IO File := do
  try
    let bytes ← IO.FS.readBinFile name
    match String.fromUTF8? bytes with
    | some text => return .ok text
    | none => return .error .notText
  catch
    | .noFileOrDirectory .. => return .error .notFound
    | error => return .error (.other error.toString)

def readFiles (arguments : Arguments) (template : String) : IO Files := do
  return {
    template := ← readFile template
    label := template
    context := ← arguments.context.mapM readFile
    config := ← arguments.config.mapM readFile }

def runNamed (arguments : Arguments) (template : String) : IO UInt32 := do
  let report := report (← readFiles arguments template)
  IO.print report.output
  for complaint in report.complaint do
    IO.eprintln complaint
  return report.exitCode.toUInt32

end Stencil.CommandLine

def main (arguments : List String) : IO UInt32 := do
  match Stencil.CommandLine.Arguments.none.add? arguments with
  | some { template := some template, context, config } =>
      Stencil.CommandLine.runNamed { template := some template, context, config } template
  | _ =>
      IO.eprintln Stencil.CommandLine.usage
      return 2
