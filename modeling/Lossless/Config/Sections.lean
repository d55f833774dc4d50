import Lossless.Config.Field
import Lossless.Config.Settings

/-!
# Sections of a configuration file

The names under which settings stand in a configuration file, in the order in which they are written.
-/

namespace Lossless
namespace Config

/-- The settings of blanks inside lines. -/
def SpacingSettings.fields : List (Field SpacingSettings) := [
  .truth "beforeMethodCallParentheses" "" (·.beforeCall)
    fun setting settings => { settings with beforeCall := setting },
  .truth "beforeMethodDeclarationParentheses" "" (·.beforeDeclaration)
    fun setting settings => { settings with beforeDeclaration := setting },
  .truth "aroundAssignment" "" (·.aroundAssignment)
    fun setting settings => { settings with aroundAssignment := setting },
  .truth "aroundEquality" "" (·.aroundEquality)
    fun setting settings => { settings with aroundEquality := setting },
  .truth "aroundRelational" "" (·.aroundRelational)
    fun setting settings => { settings with aroundRelational := setting },
  .truth "aroundAdditive" "" (·.aroundAdditive)
    fun setting settings => { settings with aroundAdditive := setting },
  .truth "aroundMultiplicative" "" (·.aroundMultiplicative)
    fun setting settings => { settings with aroundMultiplicative := setting },
  .truth "withinMethodCallParentheses" "" (·.withinCall)
    fun setting settings => { settings with withinCall := setting },
  .truth "withinMethodDeclarationParentheses" "" (·.withinDeclaration)
    fun setting settings => { settings with withinDeclaration := setting },
  .truth "withinBrackets" "" (·.withinBrackets)
    fun setting settings => { settings with withinBrackets := setting },
  .truth "beforeComma" "" (·.beforeComma)
    fun setting settings => { settings with beforeComma := setting },
  .truth "afterComma" "" (·.afterComma)
    fun setting settings => { settings with afterComma := setting }]

/-- The settings of the formatter. -/
def FormatterSettings.fields : List (Field FormatterSettings) := [
  .natural "indentSize" "Number of columns per indentation level" (·.indentSize)
    fun setting settings => { settings with indentSize := setting },
  .natural "tabSize" "Number of columns a tab character spans" (·.tabSize)
    fun setting settings => { settings with tabSize := setting },
  .natural "continuationIndent" "Columns added for wrapped expressions and arguments"
    (·.continuationIndent)
    fun setting settings => { settings with continuationIndent := setting },
  .truth "useTabCharacter" "Indent with tabs instead of spaces" (·.useTabCharacter)
    fun setting settings => { settings with useTabCharacter := setting },
  .truth "alignMultilineParameters" "Align wrapped declaration parameters with the first one"
    (·.alignParameters)
    fun setting settings => { settings with alignParameters := setting },
  .truth "alignMultilineArguments" "Align wrapped call arguments with the first one"
    (·.alignArguments)
    fun setting settings => { settings with alignArguments := setting },
  .truth "useContinuationIndentForCollections"
    "Use the continuation indent for wrapped collection elements" (·.continueCollections)
    fun setting settings => { settings with continueCollections := setting },
  .truth "keepIndentsOnEmptyLines" "Keep indentation on lines that are otherwise empty"
    (·.keepIndentsOnEmptyLines)
    fun setting settings => { settings with keepIndentsOnEmptyLines := setting },
  .truth "useCrlfNewLines" "Write \\r\\n line breaks instead of \\n" (·.useCrlf)
    fun setting settings => { settings with useCrlf := setting },
  .natural "keepMaximumBlankLines" "Maximum number of consecutive blank lines in code"
    (·.keepMaximumBlankLines)
    fun setting settings => { settings with keepMaximumBlankLines := setting },
  .nested "spaces" "SpacesConfiguration" "Spacing toggles" SpacingSettings.fields {} (·.spacing)
    fun setting settings => { settings with spacing := setting }]

/-- The settings of the files. -/
def FileSettings.fields : List (Field FileSettings) := [
  .texts "include" "Glob patterns for files to include" (·.included)
    fun setting settings => { settings with included := setting },
  .texts "exclude" "Glob patterns for files to exclude" (·.excluded)
    fun setting settings => { settings with excluded := setting }]

/-- The sections of a configuration. -/
def Configuration.fields : List (Field Configuration) := [
  .text "$schema" "" (·.schema)
    fun setting configuration => { configuration with schema := setting },
  .nested "formatter" "FormatterConfiguration" "Formatter overrides" FormatterSettings.fields {}
    (·.formatter)
    fun setting configuration => { configuration with formatter := setting },
  .nested "files" "FilesConfiguration" "Which files the CLI formats" FileSettings.fields {}
    (·.files)
    fun setting configuration => { configuration with files := setting }]

/-- Read settings of the formatter. -/
def FormatterSettings.ofValue?
    (positional : Positional)
    (value : Value) : Option FormatterSettings :=
  Field.readSection positional fields {} value

/-- Write the settings of the formatter that are set. -/
def FormatterSettings.toValue (settings : FormatterSettings) : Value :=
  Field.writeSection fields settings

/-- Write the settings of the files that are set. -/
def FileSettings.toValue (settings : FileSettings) : Value :=
  Field.writeSection fields settings

namespace Configuration

/-- Read a configuration. -/
def ofValue?
    (positional : Positional)
    (value : Value) : Option Configuration :=
  Field.readSection positional fields {} value

/-- Write a configuration. -/
def toValue (configuration : Configuration) : Value :=
  Field.writeSection fields configuration

/-- The schema of configuration files. -/
def schemaValue : Value :=
  .table <|
    [("$schema".toList, Field.word "https://json-schema.org/draft/2020-12/schema"),
      ("title".toList, Field.word "ReweaveConfiguration")] ++
    Field.sectionSchema "Top-level configuration file" fields ++
    [("$defs".toList, .table (fields.flatMap fun field => field.definitions))]

end Configuration
end Config
end Lossless
