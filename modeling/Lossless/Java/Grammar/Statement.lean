import Lossless.Java.Grammar.Expression

/-!
# Statements

Blocks, conditionals, empty statements, returns, declarations and expression statements. A declaration is
a run of two or more words with an opening parenthesis after it; the last word is the name, and several
words before it are kept as they are written.
-/

namespace Lossless
namespace Java

open Lossless.Parser

namespace Parser

/-- Read a parameter: one name, or several words as they are written. -/
def parameter (leading : Space) : Parser Tree := do
  match <- words with
  | (name, []) => return .spaced leading (.identifier name none)
  | (first, more) => return .spaced leading (.unknown (first ++ writtenWords more))

/-- Read the statements of a block and its closing brace. -/
def blockStatements
    (statement : Parser (RightPadded Tree)) :
    Nat -> Parser (List (RightPadded Tree) × Space)
  | 0 => fail .exhausted
  | bound + 1 => do
      let saved <- get
      let closing <- gap
      if <- accept ['\x7d'] then
        return ([], closing)
      else if (<- get) = [] then
        fail (.expected ['\'', '\x7d', '\''])
      else
        set saved
        let first <- statement
        let (rest, closing) <- blockStatements statement bound
        return (first :: rest, closing)

/-- Read a block. -/
def block
    (statement : Parser (RightPadded Tree))
    (leading : Space) : Parser Tree := do
  expect ['\x7b']
  let (statements, closing) <- blockStatements statement ((<- get).length + 1)
  return .spaced leading (.block statements closing)

/-- Read the `else` part of a conditional, if there is one. -/
def alternative
    (statement : Parser (RightPadded Tree)) : Parser (Option Tree) := do
  let saved <- get
  let leading <- gap
  if <- isKeywordNext "else".toList then
    expect "else".toList
    return some (.spaced leading (.otherwise (<- statement)))
  else
    set saved
    return none

/-- Read a conditional. -/
def conditional
    (statement : Parser (RightPadded Tree))
    (leading : Space) : Parser Tree := do
  expect "if".toList
  let conditionLeading <- gap
  let condition <- parentheses expression conditionLeading
  let consequence <- statement
  return .spaced leading (.conditional condition consequence (<- alternative statement))

/-- Read a return. -/
def returns (leading : Space) : Parser Tree := do
  expect "return".toList
  if <- isNextAfterGap [';'] then
    return .spaced leading (.returns none)
  else
    let valueLeading <- gap
    return .spaced leading (.returns (some (<- expression valueLeading)))

/-- The return type of a declaration from the words before its name. -/
def returnType (first : Text) : List (Text × Text) -> Tree
  | [] => .identifier first
  | more => .build (.unknown (first ++ writtenWords more))

/-- Read a declaration, if two or more words with an opening parenthesis after them come next. -/
def declaration?
    (statement : Parser (RightPadded Tree))
    (leading : Space) : Parser (Option Tree) := do
  let start <- get
  if <- isIdentifierNext then
    let (first, more) <- words
    match more.getLast? with
    | none => set start; return none
    | some (nameRun, name) =>
        if <- isNextAfterGap ['('] then
          let before <- gap
          let parameters <- container parameter before (['('], [')'])
          let body <- body?
          return some <| .spaced leading <| .declaration
            (some (returnType first more.dropLast))
            (.spaced (.format nameRun) (.identifier name none)) parameters body
        else
          set start
          return none
  else
    return none
where
  body? : Parser (Option Tree) := do
    if <- isNextAfterGap ['\x7b'] then
      let bodyLeading <- gap
      return some (<- block statement bodyLeading)
    else
      return none

/-- Read the gap and the semicolon after a statement. -/
def terminated (tree : Tree) : Parser (RightPadded Tree) := do
  let after <- gap
  expect [';']
  return ⟨tree, after, .empty⟩

/-- Read a declaration or an expression statement. -/
def declarationOrExpression
    (statement : Parser (RightPadded Tree))
    (leading : Space) : Parser (RightPadded Tree) := do
  match <- declaration? statement leading with
  | some tree => if tree.form.isSelfTerminated then return .build tree else terminated tree
  | none =>
      if <- isKeywordNext "else".toList then
        fail .elseWithoutIf
      else
        terminated (<- expression leading)

/-- Read a statement; the ones inside it are read by `statement`. -/
def statementStep
    (statement : Parser (RightPadded Tree)) : Parser (RightPadded Tree) := do
  let leading <- gap
  if <- isNext ['\x7b'] then
    return .build (<- block statement leading)
  else if <- isKeywordNext "if".toList then
    return .build (<- conditional statement leading)
  else if <- accept [';'] then
    return .build (.spaced leading .empty)
  else if <- isKeywordNext "return".toList then
    terminated (<- returns leading)
  else
    declarationOrExpression statement leading

/-- Read a statement with at most so many nestings. -/
def statementWithin : Nat -> Parser (RightPadded Tree)
  | 0 => fail .exhausted
  | nestings + 1 => statementStep (statementWithin nestings)

/-- Read a statement. -/
def statement : Parser (RightPadded Tree) := do
  statementWithin ((<- get).length + 1)

/-- Read statements up to the end of the text. -/
def unitStatements : Nat -> Parser (List (RightPadded Tree) × Space)
  | 0 => fail .exhausted
  | bound + 1 => do
      let saved <- get
      let eof <- gap
      if (<- get) = [] then
        return ([], eof)
      else
        set saved
        let first <- statement
        let (rest, eof) <- unitStatements bound
        return (first :: rest, eof)

/-- Read a whole source. -/
def unit (path : Path) : Parser Tree := do
  let (statements, eof) <- unitStatements ((<- get).length + 1)
  return .build (.compilationUnit .java ⟨path, none, none⟩ statements eof)

end Parser
end Java
end Lossless
