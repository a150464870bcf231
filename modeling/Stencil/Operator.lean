namespace Stencil

inductive ArithmeticOperator where
  | add
  | subtract
  | multiply
  | divide
  | modulo
  deriving DecidableEq, Repr

inductive ComparisonOperator where
  | equal
  | notEqual
  | less
  | greater
  | lessEqual
  | greaterEqual
  deriving DecidableEq, Repr

inductive LogicalOperator where
  | and
  | or
  deriving DecidableEq, Repr

inductive WordOperator where
  | and
  | or
  | not
  | eq
  | ne
  | lt
  | gt
  | le
  | ge
  deriving DecidableEq, Repr

namespace ArithmeticOperator

def symbol : ArithmeticOperator → String
  | .add => "+"
  | .subtract => "-"
  | .multiply => "*"
  | .divide => "/"
  | .modulo => "%"

def ofText? : String → Option ArithmeticOperator
  | "+" => some .add
  | "-" => some .subtract
  | "*" => some .multiply
  | "/" => some .divide
  | "%" => some .modulo
  | _ => none

theorem ofText?_symbol (op : ArithmeticOperator) : ofText? op.symbol = some op := by
  cases op <;> rfl

end ArithmeticOperator

namespace WordOperator

def word : WordOperator → String
  | .and => "and"
  | .or => "or"
  | .not => "not"
  | .eq => "eq"
  | .ne => "ne"
  | .lt => "lt"
  | .gt => "gt"
  | .le => "le"
  | .ge => "ge"

def ofWord? : String → Option WordOperator
  | "and" => some .and
  | "or" => some .or
  | "not" => some .not
  | "eq" => some .eq
  | "ne" => some .ne
  | "lt" => some .lt
  | "gt" => some .gt
  | "le" => some .le
  | "ge" => some .ge
  | _ => none

theorem ofWord?_word (op : WordOperator) : ofWord? op.word = some op := by
  cases op <;> rfl

def comparison? : WordOperator → Option ComparisonOperator
  | .eq => some .equal
  | .ne => some .notEqual
  | .lt => some .less
  | .gt => some .greater
  | .le => some .lessEqual
  | .ge => some .greaterEqual
  | .and | .or | .not => none

end WordOperator

namespace ComparisonOperator

def symbol : ComparisonOperator → String
  | .equal => "=="
  | .notEqual => "!="
  | .less => "<"
  | .greater => ">"
  | .lessEqual => "<="
  | .greaterEqual => ">="

def ofSymbol? : String → Option ComparisonOperator
  | "==" => some .equal
  | "!=" => some .notEqual
  | "<" => some .less
  | ">" => some .greater
  | "<=" => some .lessEqual
  | ">=" => some .greaterEqual
  | _ => none

def ofText? (text : String) : Option ComparisonOperator :=
  ofSymbol? text <|> (WordOperator.ofWord? text).bind WordOperator.comparison?

theorem ofText?_symbol (op : ComparisonOperator) : ofText? op.symbol = some op := by
  cases op <;> rfl

end ComparisonOperator

namespace LogicalOperator

def symbol : LogicalOperator → String
  | .and => "&&"
  | .or => "||"

def ofText? : String → Option LogicalOperator
  | "&&" | "and" => some .and
  | "||" | "or" => some .or
  | _ => none

theorem ofText?_symbol (op : LogicalOperator) : ofText? op.symbol = some op := by
  cases op <;> rfl

end LogicalOperator

end Stencil
