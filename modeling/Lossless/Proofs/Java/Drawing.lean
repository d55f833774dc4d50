import Lossless.Java.Grammar.Statement
import Lossless.Proofs.Drawn

/-!
# Parsing with identifiers

The grammar of syntax trees, with an identifier drawn for every node that is built. It reads what the grammar without
identifiers reads and gives the same trees; and no identifier is there twice.
-/

namespace Lossless
namespace Java

open Lossless.Parser

namespace Drawing

open Java.Parser

/-- A new node after a space, with an identifier that is drawn for it. -/
def node
    (leading : Space)
    (form : Form Tree) : Drawing Tree := do
  let id <- Drawing.draw
  return .node ⟨.pending, id, leading, .empty⟩ form

/-- A new node that starts with a child, in the child's place. -/
def nodeFrom
    (first : Tree)
    (form : Tree -> Form Tree) : Drawing Tree :=
  node first.leading (form (first.withLeading .empty))

/-! ## Expressions -/

/-- Read the elements of a list and its closing delimiter. -/
def listElements
    (close : Text)
    (element : Space -> Drawing Tree) : Nat -> Drawing (List (RightPadded Tree))
  | 0 => fail .exhausted
  | bound + 1 => do
      let leading <- gap
      let first <- element leading
      let after <- gap
      if <- accept [','] then
        let saved <- (get : Parser Text)
        let suffix <- gap
        if <- accept close then
          return [⟨first, after, trailingCommaMarkers suffix⟩]
        else
          let _ <- (set saved : Parser PUnit)
          return ⟨first, after, .empty⟩ :: (<- listElements close element bound)
      else if <- accept close then
        return [⟨first, after, .empty⟩]
      else
        fail (.expected ("',' or '".toList ++ close ++ ['\'']))

/-- Read a delimited list; one without elements holds an empty node. -/
def container
    (element : Space -> Drawing Tree)
    (before : Space)
    (delimiters : Text × Text) : Drawing (Container Tree) := do
  let _ <- (expect delimiters.1 : Parser Unit)
  let saved <- (get : Parser Text)
  let inner <- gap
  if <- accept delimiters.2 then
    let empty <- node inner .empty
    return ⟨before, [.build empty], .empty⟩
  else
    let _ <- (set saved : Parser PUnit)
    return ⟨before, <- listElements delimiters.2 element (saved.length + 1), .empty⟩

/-- Read a parenthesised expression. -/
def parentheses
    (expression : Space -> Drawing Tree)
    (leading : Space) : Drawing Tree := do
  let _ <- (expect ['('] : Parser Unit)
  let innerLeading <- gap
  let inner <- expression innerLeading
  let after <- gap
  let _ <- (expect [')'] : Parser Unit)
  node leading (.parentheses ⟨inner, after, .empty⟩)

/-- The arguments of a call, if an opening parenthesis comes after the next gap. -/
def arguments?
    (expression : Space -> Drawing Tree) : Drawing (Option (Container Tree)) := do
  if <- isNextAfterGap ['('] then
    let before <- gap
    return some (<- container expression before (['('], [')']))
  else
    return none

/-- Read a word that is a literal, a name, or the name of a call without receiver. -/
def word
    (expression : Space -> Drawing Tree)
    (leading : Space) : Drawing Tree := do
  let isLiteral :=
    (<- isKeywordNext "true".toList) || (<- isKeywordNext "false".toList) ||
      (<- isKeywordNext "null".toList)
  let name <- identifier
  if isLiteral then
    node leading (.literal name none)
  else
    match <- arguments? expression with
    | some arguments => do
        let name <- node .empty (.identifier name none)
        node leading (.call none name arguments none)
    | none => node leading (.identifier name none)

/-- Read a primary expression. -/
def primary
    (expression : Space -> Drawing Tree)
    (leading : Space) : Drawing Tree := do
  let text <- (get : Parser Text)
  match text with
  | [] => fail (.expected "expression".toList)
  | first :: rest =>
      if first = '(' then
        parentheses expression leading
      else if first = '[' then
        let elements <- container expression .empty (['['], [']'])
        node leading (.collection .list elements none)
      else if first = '"' || first = '\'' then
        match splitQuoted? first false rest with
        | some (body, after) => do
            let _ <- (set after : Parser PUnit)
            node leading (.literal (first :: body) none)
        | none => fail .unterminatedLiteral
      else if isNumberStart text then
        let _ <- (set rest : Parser PUnit)
        let body <- takeWhile isNumberPart
        node leading (.literal (first :: body) none)
      else if Text.isIdentifierStart first then
        word expression leading
      else
        fail (.expected "expression".toList)

/-- Read the field accesses and calls that are chained onto an expression. -/
def postfixes
    (expression : Space -> Drawing Tree) : Nat -> Tree -> Drawing Tree
  | 0, _ => fail .exhausted
  | bound + 1, tree => do
      let saved <- (get : Parser Text)
      let beforeDot <- gap
      if <- accept ['.'] then
        let nameLeading <- gap
        let text <- identifier
        let name <- node nameLeading (.identifier text none)
        match <- arguments? expression with
        | some arguments => do
            let call <- nodeFrom tree fun receiver =>
              .call (some ⟨receiver, beforeDot, .empty⟩) name arguments none
            postfixes expression bound call
        | none => do
            let access <- nodeFrom tree fun target => .fieldAccess target ⟨beforeDot, name, .empty⟩ none
            postfixes expression bound access
      else
        let _ <- (set saved : Parser PUnit)
        return tree

/-- Read a primary expression with what is chained onto it. -/
def chained
    (expression : Space -> Drawing Tree)
    (leading : Space) : Drawing Tree := do
  let first <- primary expression leading
  let text <- (get : Parser Text)
  postfixes expression (text.length + 1) first

/-- Read the operators of at least a precedence and their right operands. -/
def operations
    (operand : Nat -> Space -> Drawing Tree)
    (precedence : Nat) : Nat -> Tree -> Drawing Tree
  | 0, _ => fail .exhausted
  | bound + 1, left => do
      let saved <- (get : Parser Text)
      let before <- gap
      let text <- (get : Parser Text)
      match operatorNext? text with
      | some (operator, rest) =>
          if precedence ≤ operator.precedence then
            let _ <- (set rest : Parser PUnit)
            let rightLeading <- gap
            let right <- operand (operator.precedence + 1) rightLeading
            let whole <- nodeFrom left fun left => .binary left ⟨before, operator, .empty⟩ right none
            operations operand precedence bound whole
          else
            let _ <- (set saved : Parser PUnit)
            return left
      | none =>
          let _ <- (set saved : Parser PUnit)
          return left

/-- Read an operation whose operators bind at least as tightly as `precedence`. -/
def binary
    (expression : Space -> Drawing Tree) : Nat -> Nat -> Space -> Drawing Tree
  | 0, _, leading => chained expression leading
  | levels + 1, precedence, leading => do
      let first <- chained expression leading
      let text <- (get : Parser Text)
      operations (binary expression levels) precedence (text.length + 1) first

/-- Read an expression; the ones inside it are read by `expression`. -/
def expressionStep
    (expression : Space -> Drawing Tree)
    (leading : Space) : Drawing Tree := do
  let target <- binary expression operatorLevels 0 leading
  let saved <- (get : Parser Text)
  let before <- gap
  if !(<- isNext ['=', '=']) && (<- accept ['=']) then
    let valueLeading <- gap
    let value <- expression valueLeading
    nodeFrom target fun target => .assignment target ⟨before, value, .empty⟩ none
  else
    let _ <- (set saved : Parser PUnit)
    return target

/-- Read an expression with at most so many nestings. -/
def expressionWithin : Nat -> Space -> Drawing Tree
  | 0, _ => fail .exhausted
  | nestings + 1, leading => expressionStep (expressionWithin nestings) leading

/-- Read an expression after a space. -/
def expression (leading : Space) : Drawing Tree := do
  let text <- (get : Parser Text)
  expressionWithin (text.length + 1) leading

/-! ## Statements -/

/-- Read a parameter: one name, or several words as they are written. -/
def parameter (leading : Space) : Drawing Tree := do
  match <- words with
  | (name, []) => node leading (.identifier name none)
  | (first, more) => node leading (.unknown (first ++ writtenWords more))

/-- Read the statements of a block and its closing brace. -/
def blockStatements
    (statement : Drawing (RightPadded Tree)) :
    Nat -> Drawing (List (RightPadded Tree) × Space)
  | 0 => fail .exhausted
  | bound + 1 => do
      let saved <- (get : Parser Text)
      let closing <- gap
      if <- accept ['\x7d'] then
        return ([], closing)
      else if (<- (get : Parser Text)) = [] then
        fail (.expected ['\'', '\x7d', '\''])
      else
        let _ <- (set saved : Parser PUnit)
        let first <- statement
        let (rest, closing) <- blockStatements statement bound
        return (first :: rest, closing)

/-- Read a block. -/
def block
    (statement : Drawing (RightPadded Tree))
    (leading : Space) : Drawing Tree := do
  let _ <- (expect ['\x7b'] : Parser Unit)
  let text <- (get : Parser Text)
  let (statements, closing) <- blockStatements statement (text.length + 1)
  node leading (.block statements closing)

/-- Read the `else` part of a conditional, if there is one. -/
def alternative
    (statement : Drawing (RightPadded Tree)) : Drawing (Option Tree) := do
  let saved <- (get : Parser Text)
  let leading <- gap
  if <- isKeywordNext "else".toList then
    let _ <- (expect "else".toList : Parser Unit)
    let body <- statement
    let tree <- node leading (.otherwise body)
    return some tree
  else
    let _ <- (set saved : Parser PUnit)
    return none

/-- Read a conditional. -/
def conditional
    (statement : Drawing (RightPadded Tree))
    (leading : Space) : Drawing Tree := do
  let _ <- (expect "if".toList : Parser Unit)
  let conditionLeading <- gap
  let condition <- parentheses expression conditionLeading
  let consequence <- statement
  let alternative <- alternative statement
  node leading (.conditional condition consequence alternative)

/-- Read a return. -/
def returns (leading : Space) : Drawing Tree := do
  let _ <- (expect "return".toList : Parser Unit)
  if <- isNextAfterGap [';'] then
    node leading (.returns none)
  else
    let valueLeading <- gap
    let value <- expression valueLeading
    node leading (.returns (some value))

/-- The return type of a declaration from the words before its name. -/
def returnType (first : Text) : List (Text × Text) -> Drawing Tree
  | [] => node .empty (.identifier first none)
  | more => node .empty (.unknown (first ++ writtenWords more))

/-- Read the body of a declaration, if there is one. -/
def body? (statement : Drawing (RightPadded Tree)) : Drawing (Option Tree) := do
  if <- isNextAfterGap ['\x7b'] then
    let bodyLeading <- gap
    return some (<- block statement bodyLeading)
  else
    return none

/-- Read a declaration, if two or more words with an opening parenthesis after them come next. -/
def declaration?
    (statement : Drawing (RightPadded Tree))
    (leading : Space) : Drawing (Option Tree) := do
  let start <- (get : Parser Text)
  if <- isIdentifierNext then
    let (first, more) <- words
    match more.getLast? with
    | none => do
        let _ <- (set start : Parser PUnit)
        return none
    | some (nameRun, name) =>
        if <- isNextAfterGap ['('] then
          let before <- gap
          let parameters <- container parameter before (['('], [')'])
          let body <- body? statement
          let returnType <- returnType first more.dropLast
          let name <- node (.format nameRun) (.identifier name none)
          let tree <- node leading (.declaration (some returnType) name parameters body)
          return some tree
        else
          let _ <- (set start : Parser PUnit)
          return none
  else
    return none

/-- Read the gap and the semicolon after a statement. -/
def terminated (tree : Tree) : Drawing (RightPadded Tree) := do
  let after <- gap
  let _ <- (expect [';'] : Parser Unit)
  return ⟨tree, after, .empty⟩

/-- Read a declaration or an expression statement. -/
def declarationOrExpression
    (statement : Drawing (RightPadded Tree))
    (leading : Space) : Drawing (RightPadded Tree) := do
  match <- declaration? statement leading with
  | some tree => if tree.form.isSelfTerminated then return .build tree else terminated tree
  | none =>
      if <- isKeywordNext "else".toList then
        fail .elseWithoutIf
      else
        let tree <- expression leading
        terminated tree

/-- Read a statement; the ones inside it are read by `statement`. -/
def statementStep
    (statement : Drawing (RightPadded Tree)) : Drawing (RightPadded Tree) := do
  let leading <- gap
  if <- isNext ['\x7b'] then
    return .build (<- block statement leading)
  else if <- isKeywordNext "if".toList then
    return .build (<- conditional statement leading)
  else if <- accept [';'] then
    return .build (<- node leading .empty)
  else if <- isKeywordNext "return".toList then
    let tree <- returns leading
    terminated tree
  else
    declarationOrExpression statement leading

/-- Read a statement with at most so many nestings. -/
def statementWithin : Nat -> Drawing (RightPadded Tree)
  | 0 => fail .exhausted
  | nestings + 1 => statementStep (statementWithin nestings)

/-- Read a statement. -/
def statement : Drawing (RightPadded Tree) := do
  let text <- (get : Parser Text)
  statementWithin (text.length + 1)

/-- Read statements up to the end of the text. -/
def unitStatements : Nat -> Drawing (List (RightPadded Tree) × Space)
  | 0 => fail .exhausted
  | bound + 1 => do
      let saved <- (get : Parser Text)
      let eof <- gap
      if (<- (get : Parser Text)) = [] then
        return ([], eof)
      else
        let _ <- (set saved : Parser PUnit)
        let first <- statement
        let (rest, eof) <- unitStatements bound
        return (first :: rest, eof)

/-- Read a whole source. -/
def unit (path : Path) : Drawing Tree := do
  let text <- (get : Parser Text)
  let (statements, eof) <- unitStatements (text.length + 1)
  node .empty (.compilationUnit .java ⟨path, none, none⟩ statements eof)

/-- Parse a source as `Java.parse` does, with identifiers drawn from a number on; the next number comes with the tree. -/
def parse
    (source : Text)
    (path : Path)
    (next : Nat) : Except Error (Tree × Nat) :=
  match Dialect.ofPath path with
  | .python =>
      .error <| .ofCause <| .notImplemented <|
        "parsing the python dialect (".toList ++ path.text ++ [')']
  | .java =>
      match unit path next source with
      | .ok (drawn, _) => .ok drawn
      | .error fault => .error (fault.toError source)

end Drawing

end Java
end Lossless
