import Stencil.Member.Resolver
import Stencil.Operator

namespace Stencil

inductive EvalError where
  | invalidOperand (op : ArithmeticOperator) (left right : String)
  | invalidUnaryOperand (operand : String)
  | undefinedReference (literal : String)
  | method (error : MethodError)
  | output
  deriving DecidableEq, Repr

namespace EvalError

def message : EvalError → String
  | .invalidOperand op left right => s!"cannot apply '{op.symbol}' to {left} and {right}"
  | .invalidUnaryOperand operand => s!"cannot apply '-' to {operand}"
  | .undefinedReference literal => s!"{literal} is not defined"
  | .method error => error.message
  | .output => "failed to write output"

/-- Errors about the type of an operand do not stop a render. -/
def isOperandError : EvalError → Bool
  | .invalidOperand .. | .invalidUnaryOperand _ => true
  | _ => false

end EvalError

end Stencil
