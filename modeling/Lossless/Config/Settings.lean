import Lossless.Format.Auto
import Lossless.Java.Language

/-!
# Settings

What a configuration file can set. Every setting is optional; one that is not set leaves the style as it
is. Settings are laid over styles by `applyTo`, and the settings of one file over those of another by
`mergeWith`.
-/

namespace Lossless
namespace Config

/-- Settings of blanks inside lines. -/
structure SpacingSettings where
  beforeCall : Option Bool := none
  beforeDeclaration : Option Bool := none
  aroundAssignment : Option Bool := none
  aroundEquality : Option Bool := none
  aroundRelational : Option Bool := none
  aroundAdditive : Option Bool := none
  aroundMultiplicative : Option Bool := none
  withinCall : Option Bool := none
  withinDeclaration : Option Bool := none
  withinBrackets : Option Bool := none
  beforeComma : Option Bool := none
  afterComma : Option Bool := none
  deriving DecidableEq

/-- Settings of the formatter. -/
structure FormatterSettings where
  indentSize : Option Nat := none
  tabSize : Option Nat := none
  continuationIndent : Option Nat := none
  useTabCharacter : Option Bool := none
  alignParameters : Option Bool := none
  alignArguments : Option Bool := none
  continueCollections : Option Bool := none
  keepIndentsOnEmptyLines : Option Bool := none
  useCrlf : Option Bool := none
  keepMaximumBlankLines : Option Nat := none
  spacing : Option SpacingSettings := none
  deriving DecidableEq

/-- Which files are formatted. -/
structure FileSettings where
  included : Option (List Text) := none
  excluded : Option (List Text) := none
  deriving DecidableEq

/-- What a configuration file says. -/
structure Configuration where
  schema : Option Text := none
  formatter : Option FormatterSettings := none
  files : Option FileSettings := none
  deriving DecidableEq

namespace SpacingSettings

/-- Lay the settings over a style. A setting for a list holds for one without elements as well. -/
def applyTo
    (settings : SpacingSettings)
    (style : SpacingStyle) : SpacingStyle where
  beforeParentheses :=
    { style.beforeParentheses with
      call := settings.beforeCall.getD style.beforeParentheses.call
      declaration := settings.beforeDeclaration.getD style.beforeParentheses.declaration }
  aroundOperators :=
    { assignment := settings.aroundAssignment.getD style.aroundOperators.assignment
      equality := settings.aroundEquality.getD style.aroundOperators.equality
      relational := settings.aroundRelational.getD style.aroundOperators.relational
      additive := settings.aroundAdditive.getD style.aroundOperators.additive
      multiplicative := settings.aroundMultiplicative.getD style.aroundOperators.multiplicative }
  within :=
    { brackets := settings.withinBrackets.getD style.within.brackets
      declaration := settings.withinDeclaration.getD style.within.declaration
      emptyDeclaration := settings.withinDeclaration.getD style.within.emptyDeclaration
      call := settings.withinCall.getD style.within.call
      emptyCall := settings.withinCall.getD style.within.emptyCall }
  punctuation :=
    { style.punctuation with
      beforeComma := settings.beforeComma.getD style.punctuation.beforeComma
      afterComma := settings.afterComma.getD style.punctuation.afterComma }

/-- Every setting spelled out from a style. -/
def ofStyle (style : SpacingStyle) : SpacingSettings where
  beforeCall := some style.beforeParentheses.call
  beforeDeclaration := some style.beforeParentheses.declaration
  aroundAssignment := some style.aroundOperators.assignment
  aroundEquality := some style.aroundOperators.equality
  aroundRelational := some style.aroundOperators.relational
  aroundAdditive := some style.aroundOperators.additive
  aroundMultiplicative := some style.aroundOperators.multiplicative
  withinCall := some style.within.call
  withinDeclaration := some style.within.declaration
  withinBrackets := some style.within.brackets
  beforeComma := some style.punctuation.beforeComma
  afterComma := some style.punctuation.afterComma

end SpacingSettings

namespace FormatterSettings

/-- Lay the settings over styles. -/
def applyTo
    (settings : FormatterSettings)
    (styles : Styles) : Styles where
  indents :=
    { useTabCharacter := settings.useTabCharacter.getD styles.indents.useTabCharacter
      tabSize := settings.tabSize.getD styles.indents.tabSize
      indentSize := settings.indentSize.getD styles.indents.indentSize
      continuationIndent := settings.continuationIndent.getD styles.indents.continuationIndent
      keepIndentsOnEmptyLines :=
        settings.keepIndentsOnEmptyLines.getD styles.indents.keepIndentsOnEmptyLines
      alignParameters := settings.alignParameters.getD styles.indents.alignParameters
      alignArguments := settings.alignArguments.getD styles.indents.alignArguments
      continueCollections := settings.continueCollections.getD styles.indents.continueCollections }
  spacing :=
    match settings.spacing with
    | some spacing => spacing.applyTo styles.spacing
    | none => styles.spacing
  blankLines :=
    { inCode := settings.keepMaximumBlankLines.getD styles.blankLines.inCode
      beforeEndOfBlock :=
        settings.keepMaximumBlankLines.getD styles.blankLines.beforeEndOfBlock }
  lineBreaks := ⟨settings.useCrlf.getD styles.lineBreaks.useCrlf⟩

/-- Every setting spelled out from styles. -/
def ofStyles (styles : Styles) : FormatterSettings where
  indentSize := some styles.indents.indentSize
  tabSize := some styles.indents.tabSize
  continuationIndent := some styles.indents.continuationIndent
  useTabCharacter := some styles.indents.useTabCharacter
  alignParameters := some styles.indents.alignParameters
  alignArguments := some styles.indents.alignArguments
  continueCollections := some styles.indents.continueCollections
  keepIndentsOnEmptyLines := some styles.indents.keepIndentsOnEmptyLines
  useCrlf := some styles.lineBreaks.useCrlf
  keepMaximumBlankLines := some styles.blankLines.inCode
  spacing := some (.ofStyle styles.spacing)

/-- The settings, and where one is not set that of another file; the blanks go as a whole. -/
def mergeWith (settings other : FormatterSettings) : FormatterSettings where
  indentSize := settings.indentSize <|> other.indentSize
  tabSize := settings.tabSize <|> other.tabSize
  continuationIndent := settings.continuationIndent <|> other.continuationIndent
  useTabCharacter := settings.useTabCharacter <|> other.useTabCharacter
  alignParameters := settings.alignParameters <|> other.alignParameters
  alignArguments := settings.alignArguments <|> other.alignArguments
  continueCollections := settings.continueCollections <|> other.continueCollections
  keepIndentsOnEmptyLines := settings.keepIndentsOnEmptyLines <|> other.keepIndentsOnEmptyLines
  useCrlf := settings.useCrlf <|> other.useCrlf
  keepMaximumBlankLines := settings.keepMaximumBlankLines <|> other.keepMaximumBlankLines
  spacing := settings.spacing <|> other.spacing

end FormatterSettings

namespace Configuration

/-- The settings of the formatter, all unset when there are none. -/
def formatterSettings (configuration : Configuration) : FormatterSettings :=
  configuration.formatter.getD {}

/-- The settings of the files, all unset when there are none. -/
def fileSettings (configuration : Configuration) : FileSettings :=
  configuration.files.getD {}

/-- A first configuration file: the default styles spelled out, and the files of a project. -/
def starter : Configuration where
  formatter := some (.ofStyles {})
  files := some
    { included := some ["**/*.java".toList]
      excluded := some ["target/**".toList, "build/**".toList] }

end Configuration
end Config

/-! ## Formatting a source

A source text is parsed, its tree is numbered and formatted, and the result is printed without markers.
-/

namespace Format

open Java Config

/-- Format a tree with some settings over its styles. -/
def formatWith
    (settings : Option FormatterSettings)
    (stopAfter : Option Stamp)
    (parent : TreeCursor)
    (tree : Tree) : Except Error Tree :=
  autoFormat (fun styles => (settings.map (·.applyTo styles)).getD styles) stopAfter parent tree

/-- Format a source unit. Line breaks are made alike only if the settings ask for one of them. -/
def formatSourceUnit
    (settings : Option FormatterSettings)
    (tree : Tree) : Except Error Tree := do
  let formatted <- formatWith settings none .root tree
  match settings.bind fun settings => settings.useCrlf with
  | none => return formatted
  | some useCrlf =>
      let visited <- (lineBreaks ⟨useCrlf⟩).run none .root formatted
      return visited.getD formatted

/-- Format a source text that is found under a path. -/
def formatSource
    (settings : FormatterSettings)
    (source : Text)
    (path : Path) : Except Error Text := do
  let tree <- Java.parse source path
  let formatted <- formatSourceUnit (some settings) (tree.settle.run 0).1
  return formatted.printTrimmed

end Format
end Lossless
