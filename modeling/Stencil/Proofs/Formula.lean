import Stencil.Proofs.Numerals

namespace Stencil.Template

inductive BinaryOperator where
  | logical (op : LogicalOperator)
  | comparison (op : ComparisonOperator)
  | arithmetic (op : ArithmeticOperator)

namespace BinaryOperator

def build : BinaryOperator → Expr → Expr → Expr
  | .logical op => .logical op
  | .comparison op => .comparison op
  | .arithmetic op => .arithmetic op

/-- Operators of a higher level bind tighter. -/
def level : BinaryOperator → Nat
  | .logical .or => 0
  | .logical .and => 1
  | .comparison _ => 2
  | .arithmetic .add | .arithmetic .subtract => 3
  | .arithmetic .multiply | .arithmetic .divide | .arithmetic .modulo => 4

def symbol : BinaryOperator → String
  | .logical op => op.symbol
  | .comparison op => op.symbol
  | .arithmetic op => op.symbol

def word? : BinaryOperator → Option WordOperator
  | .logical .and => some .and
  | .logical .or => some .or
  | .comparison .equal => some .eq
  | .comparison .notEqual => some .ne
  | .comparison .less => some .lt
  | .comparison .greater => some .gt
  | .comparison .lessEqual => some .le
  | .comparison .greaterEqual => some .ge
  | .arithmetic _ => none

def spellings (op : BinaryOperator) : List String :=
  op.symbol :: (op.word?.map WordOperator.word).toList

theorem level_lt (op : BinaryOperator) : op.level < 5 := by
  rcases op with (_ | _) | _ | (_ | _ | _ | _ | _) <;> simp [level]

end BinaryOperator

def unaryLevel : Nat := 5

structure PlainReference where
  quiet : Bool
  braced : Bool
  root : Name
  properties : List Name

namespace PlainReference

def body (r : PlainReference) : List Char :=
  r.root.val ++ r.properties.flatMap fun name => '.' :: name.val

def shape (r : PlainReference) : List Char :=
  if r.braced then '\x7b' :: r.body ++ ['\x7d'] else r.body

def chars (r : PlainReference) : List Char :=
  '$' :: ((if r.quiet then ['!'] else []) ++ r.shape)

def reference (r : PlainReference) : Reference :=
  .mk r.quiet r.root.text (r.properties.map fun name => .property name.text)
    (String.ofList r.chars)

end PlainReference

inductive Formula where
  | integer (n : IntegerLiteral)
  | boolean (value : Bool)
  | null
  | text (content : List Char)
  | reference (r : PlainReference)
  | not (operand : Formula)
  | negate (operand : Formula)
  | binary (op : BinaryOperator) (left right : Formula)

namespace Formula

def expr : Formula → Expr
  | .integer n => .literal (.number n.number)
  | .boolean value => .literal (.boolean value)
  | .null => .literal .null
  | .text content => .literal (.text (String.ofList content))
  | .reference r => .reference r.reference
  | .not operand => .not operand.expr
  | .negate operand => .negate operand.expr
  | .binary op left right => op.build left.expr right.expr

/-- `Printed level f text`: as an operand of a level, the formula may print as `text`. -/
inductive Printed : Nat → Formula → List Char → Prop where
  | integer (level : Nat) (n : IntegerLiteral) : Printed level (.integer n) n.spelling
  | boolean (level : Nat) (value : Bool) :
      Printed level (.boolean value) (toString value).toList
  | null (level : Nat) : Printed level .null "null".toList
  | text (level : Nat) {content raw : List Char} (h : Escaped '\'' content raw) :
      Printed level (.text content) ('\'' :: raw ++ ['\''])
  | reference (level : Nat) (r : PlainReference) : Printed level (.reference r) r.chars
  | not (level : Nat) {operand : Formula} {word : String} {text : List Char}
      (hword : word ∈ ["!", WordOperator.not.word]) (h : Printed unaryLevel operand text) :
      Printed level (.not operand) (word.toList ++ ' ' :: text)
  | negate (level : Nat) {operand : Formula} {text : List Char}
      (h : Printed unaryLevel operand text) :
      Printed level (.negate operand) ('-' :: ' ' :: text)
  | binary {level : Nat} {op : BinaryOperator} {left right : Formula} {word : String}
      {leftText rightText : List Char} (hlevel : level ≤ op.level)
      (hword : word ∈ op.spellings) (hleft : Printed op.level left leftText)
      (hright : Printed (op.level + 1) right rightText) :
      Printed level (.binary op left right)
        (leftText ++ ' ' :: word.toList ++ ' ' :: rightText)
  | enclosed {level : Nat} {op : BinaryOperator} {left right : Formula} {text : List Char}
      (hlevel : op.level < level) (h : Printed 0 (.binary op left right) text) :
      Printed level (.binary op left right) ('(' :: text ++ [')'])

/-- A print of the formula that spells operators as symbols where there is a choice. -/
def print : Formula → Nat → List Char
  | .integer n, _ => n.spelling
  | .boolean value, _ => (toString value).toList
  | .null, _ => "null".toList
  | .text content, _ => '\'' :: escape content ++ ['\'']
  | .reference r, _ => r.chars
  | .not operand, _ => "!".toList ++ ' ' :: operand.print unaryLevel
  | .negate operand, _ => '-' :: ' ' :: operand.print unaryLevel
  | .binary op left right, level =>
      let bare := left.print op.level ++ ' ' :: op.symbol.toList ++
        ' ' :: right.print (op.level + 1)
      if op.level < level then '(' :: bare ++ [')'] else bare

theorem printed_print (f : Formula) (level : Nat) : Printed level f (f.print level) := by
  induction f generalizing level with
  | integer n => exact .integer level n
  | boolean value => exact .boolean level value
  | null => exact .null level
  | text content => exact .text level (escaped_escape rfl content)
  | reference r => exact .reference level r
  | not operand ih => exact .not level (List.mem_cons_self ..) (ih unaryLevel)
  | negate operand ih => exact .negate level (ih unaryLevel)
  | binary op left right ihleft ihright =>
      have hbare : ∀ lower, lower ≤ op.level → Printed lower (.binary op left right)
          (left.print op.level ++ ' ' :: op.symbol.toList ++ ' ' :: right.print (op.level + 1)) :=
        fun _ hle => .binary hle (List.mem_cons_self ..) (ihleft _) (ihright _)
      rw [print]
      split
      · exact .enclosed ‹_› (hbare 0 (Nat.zero_le _))
      · exact hbare level (Nat.le_of_not_lt ‹_›)

/-- How deep unary operators and parentheses lie in each other, in print as an operand of a
level. -/
def nesting : Formula → Nat → Nat
  | .not operand, _ | .negate operand, _ => operand.nesting unaryLevel + 1
  | .binary op left right, level =>
      (if op.level < level then 1 else 0) +
        max (left.nesting op.level) (right.nesting (op.level + 1))
  | _, _ => 0

def run (level : Nat) : Formula → Nat
  | .binary op left _ => if op.level = level then left.run level + 1 else 0
  | _ => 0

def longestRun : Formula → Nat
  | .not operand | .negate operand => operand.longestRun
  | .binary op left right =>
      max (left.run op.level + 1) (max left.longestRun right.longestRun)
  | _ => 0

end Formula

end Stencil.Template
