import Lossless.Path
import Lossless.Space

/-!
# Dialects and their operators

The two surface syntaxes, and how each spells the operators between two operands.
-/

namespace Lossless
namespace Java

/-!
## Dialects

One catalog of nodes serves two surface syntaxes: Java, with braces and semicolons, and Python, with
colons and indentation.
-/

/-- The surface syntax of a compilation unit. -/
inductive Dialect
  | java
  | python
  deriving DecidableEq

namespace Dialect

/-- The name of the language. -/
def language : Dialect -> Text
  | java => "java".toList
  | python => "python".toList

/-- The dialect that a file name suggests; anything but `.py` is Java. -/
def ofPath (path : Path) : Dialect :=
  if path.extension? = some "py".toList then python else java

/-- How the dialect writes comments. -/
def delimiters : Dialect -> CommentDelimiters
  | java => .slash
  | python => .hash

end Dialect

/-!
## Binary operators

The operators between two operands, how each dialect spells them, and how tightly they bind.
-/

/-- An operator between two operands. -/
inductive Operator
  | addition
  | subtraction
  | multiplication
  | division
  | remainder
  | equal
  | notEqual
  | lessThan
  | lessThanOrEqual
  | greaterThan
  | greaterThanOrEqual
  | conjunction
  | disjunction
  deriving DecidableEq

namespace Operator

/-- Every operator; one that starts with another's spelling comes before it. -/
def all : List Operator :=
  [lessThanOrEqual, greaterThanOrEqual, equal, notEqual, conjunction, disjunction, addition,
    subtraction, multiplication, division, remainder, lessThan, greaterThan]

/-- The spelling of an operator. -/
def symbol : Dialect -> Operator -> Text
  | _, addition => ['+']
  | _, subtraction => ['-']
  | _, multiplication => ['*']
  | _, division => ['/']
  | _, remainder => ['%']
  | _, equal => ['=', '=']
  | _, notEqual => ['!', '=']
  | _, lessThan => ['<']
  | _, lessThanOrEqual => ['<', '=']
  | _, greaterThan => ['>']
  | _, greaterThanOrEqual => ['>', '=']
  | .java, conjunction => ['&', '&']
  | .python, conjunction => ['a', 'n', 'd']
  | .java, disjunction => ['|', '|']
  | .python, disjunction => ['o', 'r']

/-- The operator with a Java spelling. -/
def ofSymbol? (text : Text) : Option Operator :=
  all.find? fun operator => operator.symbol .java = text

@[simp] theorem ofSymbol?_symbol (operator : Operator) :
    ofSymbol? (operator.symbol .java) = some operator := by
  cases operator <;> decide

/-- How tightly the operator binds; a larger number binds tighter. -/
def precedence : Operator -> Nat
  | disjunction => 1
  | conjunction => 2
  | equal | notEqual => 3
  | lessThan | lessThanOrEqual | greaterThan | greaterThanOrEqual => 4
  | addition | subtraction => 5
  | multiplication | division | remainder => 6

def isEquality (operator : Operator) : Bool :=
  operator.precedence = 3

def isRelational (operator : Operator) : Bool :=
  operator.precedence = 4

def isAdditive (operator : Operator) : Bool :=
  operator.precedence = 5

def isMultiplicative (operator : Operator) : Bool :=
  operator.precedence = 6

def isLogical (operator : Operator) : Bool :=
  operator = conjunction || operator = disjunction

end Operator

end Java
end Lossless
