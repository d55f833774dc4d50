import Lossless.Format.Pass

/-!
# Spaces before statements

The passes that change the spaces before statements: one hoists the space before a declaration, one separates
statements.
-/

namespace Lossless
namespace Format

open Java

/-!
## Hoisting the space before a declaration

The space before the return type of a declaration is moved to the declaration, so that there is one place
to look at for its indentation.
-/

/-- Put a margin after every line break of a text. -/
def shiftLines (margin : Text) : Text -> Text :=
  Text.replaceChar '\n' ('\n' :: margin)

/-- Shift the lines of a block comment and of the whitespace after a comment by a margin. -/
def shiftComment
    (margin : Text)
    (comment : Comment) : Comment :=
  { comment with
    text := if comment.isBlock then shiftLines margin comment.text else comment.text
    suffix := shiftLines margin comment.suffix }

/-- Put one space after another, with its comments shifted by a margin. -/
def concatenate
    (margin : Text)
    (target moved : Space) : Space :=
  let shifted := moved.comments.map (shiftComment margin)
  match target.comments with
  | [] => .build (target.whitespace ++ moved.whitespace) shifted
  | comments =>
      .build target.whitespace
        (Space.withLastSuffix (target.lastWhitespace ++ moved.whitespace) comments ++ shifted)

/-- What stands after the last line break of the leading whitespace; nothing without one. -/
def commonMargin (space : Space) : Text :=
  match Text.splitLast? '\n' space.whitespace with
  | some (_, tail) => tail
  | none => []

/-- Move the space before the return type of a declaration to the declaration. -/
def hoistReturnType (tree : Tree) : Tree :=
  match tree.form with
  | .declaration (some returnType) name parameters body =>
      if returnType.leading.isEmpty then tree
      else
        let leading := concatenate (commonMargin tree.leading) tree.leading returnType.leading
        tree.revise leading tree.markers
          (.declaration (some (returnType.withLeading .empty)) name parameters body)
  | _ => tree

/-- Move the space before the return type of every declaration to the declaration. -/
def normalizeFormat : Pass :=
  .ofNodes fun _ => hoistReturnType

/-!
## Separating statements

Two statements need a semicolon or a line break between them. A statement that follows another one without
either, in whitespace without comments, is put on a line of its own.
-/

/-- Put a line break before a statement, unless it has one or comments stand before it. -/
def breakBefore (padded : RightPadded Tree) : RightPadded Tree :=
  let leading := padded.element.leading
  if leading.comments = [] && !leading.whitespace.contains '\n' then
    { padded with
      element :=
        padded.element.withLeading (leading.withWhitespace ('\n' :: leading.whitespace)) }
  else
    padded

/-- Separate statements, given whether something separates the first one from what is before it. -/
def separateStatements
    (dialect : Dialect) : Bool -> List (RightPadded Tree) -> List (RightPadded Tree)
  | _, [] => []
  | separated, padded :: rest =>
      (if separated then padded else breakBefore padded) ::
        separateStatements dialect (dialect.needsSemicolon padded) rest

/-- Separate the statements of a block or unit. -/
def separateNode
    (cursor : TreeCursor)
    (tree : Tree) : Tree :=
  match tree.form with
  | .block statements closing =>
      let dialect := enclosingDialect cursor
      tree.withForm (.block (separateStatements dialect (dialect = .java) statements) closing)
  | .compilationUnit dialect source statements eof =>
      tree.withForm
        (.compilationUnit dialect source (separateStatements dialect true statements) eof)
  | _ => tree

/-- Separate the statements of all blocks and units. -/
def minimumViableSpacing : Pass :=
  .ofNodes separateNode

end Format
end Lossless
