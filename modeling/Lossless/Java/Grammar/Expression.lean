import Lossless.Java.Grammar.Lexeme
import Lossless.Java.Node

/-!
# Expressions

The grammar of expressions, loosest first: an assignment, the binary operators by precedence, field
accesses and calls chained with dots, and the primary expressions. A node that starts with another node
takes over the space before it.

Each step is written over the parser for the expressions inside brackets and after `=`. Such an expression
has at least one character less, so as many nestings as there are characters are enough.
-/

namespace Lossless
namespace Java

open Lossless.Parser

/-- A new node after a space. -/
def Tree.spaced
    (leading : Space)
    (form : Form Tree) : Tree :=
  .node ⟨.pending, .pending, leading, .empty⟩ form

/-- A new node that starts with a child, in the child's place. -/
def Tree.leadingFrom
    (first : Tree)
    (form : Tree -> Form Tree) : Tree :=
  .spaced first.leading (form (first.withLeading .empty))

namespace Parser

/-- The markers of an element with a comma after it, when it is the last one. -/
def trailingCommaMarkers (suffix : Space) : Markers Space :=
  Markers.empty.add (.build (.trailingComma suffix))

/-- Read the elements of a list and its closing delimiter. -/
def listElements
    (close : Text)
    (element : Space -> Parser Tree) : Nat -> Parser (List (RightPadded Tree))
  | 0 => fail .exhausted
  | bound + 1 => do
      let leading <- gap
      let first <- element leading
      let after <- gap
      if <- accept [','] then
        let saved <- get
        let suffix <- gap
        if <- accept close then
          return [⟨first, after, trailingCommaMarkers suffix⟩]
        else
          set saved
          return ⟨first, after, .empty⟩ :: (<- listElements close element bound)
      else if <- accept close then
        return [⟨first, after, .empty⟩]
      else
        fail (.expected ("',' or '".toList ++ close ++ ['\'']))

/-- Read a delimited list; one without elements holds an empty node. -/
def container
    (element : Space -> Parser Tree)
    (before : Space)
    (delimiters : Text × Text) : Parser (Container Tree) := do
  expect delimiters.1
  let saved <- get
  let inner <- gap
  if <- accept delimiters.2 then
    return ⟨before, [.build (.spaced inner .empty)], .empty⟩
  else
    set saved
    return ⟨before, <- listElements delimiters.2 element (saved.length + 1), .empty⟩

/-- Read a parenthesised expression. -/
def parentheses
    (expression : Space -> Parser Tree)
    (leading : Space) : Parser Tree := do
  expect ['(']
  let innerLeading <- gap
  let inner <- expression innerLeading
  let after <- gap
  expect [')']
  return .spaced leading (.parentheses ⟨inner, after, .empty⟩)

/-- The arguments of a call, if an opening parenthesis comes after the next gap. -/
def arguments?
    (expression : Space -> Parser Tree) : Parser (Option (Container Tree)) := do
  if <- isNextAfterGap ['('] then
    let before <- gap
    return some (<- container expression before (['('], [')']))
  else
    return none

/-- A number starts here: with a digit, or with a minus sign and a digit. -/
def isNumberStart : Text -> Bool
  | '-' :: second :: _ => second.isDigit
  | first :: _ => first.isDigit
  | [] => false

/-- Read a word that is a literal, a name, or the name of a call without receiver. -/
def word
    (expression : Space -> Parser Tree)
    (leading : Space) : Parser Tree := do
  let isLiteral :=
    (<- isKeywordNext "true".toList) || (<- isKeywordNext "false".toList) ||
      (<- isKeywordNext "null".toList)
  let name <- identifier
  if isLiteral then
    return .spaced leading (.literal name none)
  else
    match <- arguments? expression with
    | some arguments =>
        return .spaced leading (.call none (.identifier name) arguments none)
    | none => return .spaced leading (.identifier name none)

/-- Read a primary expression. -/
def primary
    (expression : Space -> Parser Tree)
    (leading : Space) : Parser Tree := do
  let text <- get
  match text with
  | [] => fail (.expected "expression".toList)
  | first :: rest =>
      if first = '(' then
        parentheses expression leading
      else if first = '[' then
        let elements <- container expression .empty (['['], [']'])
        return .spaced leading (.collection .list elements none)
      else if first = '"' || first = '\'' then
        match splitQuoted? first false rest with
        | some (body, after) =>
            set after
            return .spaced leading (.literal (first :: body) none)
        | none => fail .unterminatedLiteral
      else if isNumberStart text then
        set rest
        let body <- takeWhile isNumberPart
        return .spaced leading (.literal (first :: body) none)
      else if Text.isIdentifierStart first then
        word expression leading
      else
        fail (.expected "expression".toList)

/-- Read the field accesses and calls that are chained onto an expression. -/
def postfixes
    (expression : Space -> Parser Tree) : Nat -> Tree -> Parser Tree
  | 0, _ => fail .exhausted
  | bound + 1, tree => do
      let saved <- get
      let beforeDot <- gap
      if <- accept ['.'] then
        let nameLeading <- gap
        let name := Tree.spaced nameLeading (.identifier (<- identifier) none)
        match <- arguments? expression with
        | some arguments =>
            postfixes expression bound <| tree.leadingFrom fun receiver =>
              .call (some ⟨receiver, beforeDot, .empty⟩) name arguments none
        | none =>
            postfixes expression bound <| tree.leadingFrom fun target =>
              .fieldAccess target ⟨beforeDot, name, .empty⟩ none
      else
        set saved
        return tree

/-- Read a primary expression with what is chained onto it. -/
def chained
    (expression : Space -> Parser Tree)
    (leading : Space) : Parser Tree := do
  let first <- primary expression leading
  postfixes expression ((<- get).length + 1) first

/-- The operator that comes next, with the text after it. -/
def operatorNext? (text : Text) : Option (Operator × Text) :=
  Operator.all.findSome? fun operator =>
    (Text.dropStart? (operator.symbol .java) text).map fun rest => (operator, rest)

/-- Read the operators of at least a precedence and their right operands. -/
def operations
    (operand : Nat -> Space -> Parser Tree)
    (precedence : Nat) : Nat -> Tree -> Parser Tree
  | 0, _ => fail .exhausted
  | bound + 1, left => do
      let saved <- get
      let before <- gap
      match operatorNext? (<- get) with
      | some (operator, rest) =>
          if precedence ≤ operator.precedence then
            set rest
            let rightLeading <- gap
            let right <- operand (operator.precedence + 1) rightLeading
            operations operand precedence bound <| left.leadingFrom fun left =>
              .binary left ⟨before, operator, .empty⟩ right none
          else
            set saved
            return left
      | none =>
          set saved
          return left

/--
Read an operation whose operators bind at least as tightly as `precedence`. The first argument bounds the
number of levels above it; above the tightest operators there is one more, without any.
-/
def binary
    (expression : Space -> Parser Tree) : Nat -> Nat -> Space -> Parser Tree
  | 0, _, leading => chained expression leading
  | levels + 1, precedence, leading => do
      let first <- chained expression leading
      operations (binary expression levels) precedence ((<- get).length + 1) first

/-- The number of precedences, and one level for the right operands of the tightest. -/
def operatorLevels : Nat := 7

/-- Read an expression; the ones inside it are read by `expression`. -/
def expressionStep
    (expression : Space -> Parser Tree)
    (leading : Space) : Parser Tree := do
  let target <- binary expression operatorLevels 0 leading
  let saved <- get
  let before <- gap
  if !(<- isNext ['=', '=']) && (<- accept ['=']) then
    let valueLeading <- gap
    let value <- expression valueLeading
    return target.leadingFrom fun target => .assignment target ⟨before, value, .empty⟩ none
  else
    set saved
    return target

/-- Read an expression with at most so many nestings. -/
def expressionWithin : Nat -> Space -> Parser Tree
  | 0, _ => fail .exhausted
  | nestings + 1, leading => expressionStep (expressionWithin nestings) leading

/-- Read an expression after a space. -/
def expression (leading : Space) : Parser Tree := do
  expressionWithin ((<- get).length + 1) leading

end Parser
end Java
end Lossless
