namespace Stencil.Template

inductive Directive where
  | set
  | if
  | elseIf
  | else
  | end
  deriving DecidableEq, Repr

namespace Directive

def word : Directive → String
  | .set => "set"
  | .if => "if"
  | .elseIf => "elseif"
  | .else => "else"
  | .end => "end"

def ofWord? : String → Option Directive
  | "set" => some .set
  | "if" => some .if
  | "elseif" => some .elseIf
  | "else" => some .else
  | "end" => some .end
  | _ => none

theorem ofWord?_word (d : Directive) : ofWord? d.word = some d := by
  cases d <;> rfl

def continuesBlock : Directive → Bool
  | .elseIf | .else | .end => true
  | .set | .if => false

end Directive

end Stencil.Template
