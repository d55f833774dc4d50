import Lossless.Command.Arguments
import Lossless.Path
import Lossless.Text.Numeral

/-!
# What the program is asked to do

The words of a command line name a task. Some options hold for every task and may stand at every level; of
two that are given at different levels the one nearer to the task counts. An option that does not add to a
list may be given once a level.
-/

namespace Lossless
namespace Command

/-! ## Tasks -/

/-- The options of every task. -/
structure CommonOptions where
  /-- The configuration file to use. -/
  configuration : Option Path := none
  /-- How much is to be logged. -/
  verbosity : Nat := 0
  logsJson : Bool := false
  isColorless : Bool := false
  threads : Option Nat := none
  deriving DecidableEq

/-- The files of a task. -/
structure Selection where
  paths : List Path := []
  included : List Text := []
  excluded : List Text := []
  deriving DecidableEq

/-- What is done about a file that is not formatted. -/
inductive FormatMode
  | write
  /-- Only its path is reported. -/
  | check
  /-- Only what would change is reported. -/
  | diff
  deriving DecidableEq

/-- How files are formatted. -/
structure FormatOptions where
  selection : Selection := {}
  checks : Bool := false
  diffs : Bool := false
  indentSize : Option Nat := none
  usesTabs : Bool := false
  deriving DecidableEq

/-- What to do about the files that are not formatted; one report excludes the other. -/
def FormatOptions.mode? (options : FormatOptions) : Option FormatMode :=
  match options.checks, options.diffs with
  | true, true => none
  | true, false => some .check
  | false, true => some .diff
  | false, false => some .write

/-- How a new configuration file is written. -/
inductive StarterFormat
  | toml
  | json
  deriving DecidableEq

/-- How a new configuration file is made. -/
structure StarterOptions where
  format : Option StarterFormat := none
  isForced : Bool := false
  deriving DecidableEq

/-- Something to do. -/
inductive Task
  | check (selection : Selection)
  | format (options : FormatOptions) (mode : FormatMode)
  | createConfiguration (format : StarterFormat) (isForced : Bool)
  | showConfiguration (isResolved : Bool)
  | validateConfiguration (path : Option Path)
  | showSchema
  | help
  | version
  deriving DecidableEq

/-- A task and the configuration file that is named for it. -/
structure Invocation where
  task : Task
  configuration : Option Path := none
  deriving DecidableEq

/-! ## Values of options -/

/-- A path; there is no empty one. -/
def path? (word : Text) : Option Path :=
  if word.isEmpty then none else some ⟨word⟩

/-- Numbers fit into a machine word. -/
def number? (word : Text) : Option Nat :=
  (Text.naturalIn? 10 (Text.dropPlus word)).filter fun number => number < Nat.pow 2 64

def starterFormat? (word : Text) : Option StarterFormat :=
  if word = "toml".toList then some .toml
  else if word = "json".toList then some .json
  else none

/-- A switch that may be turned on once. -/
def once
    (get : σ -> Bool)
    (turnOn : σ -> σ) : Effect σ :=
  .switch fun known => if get known then none else some (turnOn known)

/-- A value that may be given once. -/
def onceWith
    (read : Text -> Option α)
    (get : σ -> Option α)
    (set : α -> σ -> σ) : Effect σ :=
  .value fun word known =>
    match get known with
    | some _ => none
    | none => (read word).map fun value => set value known

/-! ## Levels -/

/-- What is known at a level: the options of every task and its own. -/
structure Known (α : Type) where
  common : CommonOptions := {}
  own : α

/-- Change the options of every task. -/
def onCommon (change : CommonOptions -> CommonOptions) (known : Known α) : Known α :=
  { known with common := change known.common }

/-- Change the options of the level. -/
def onOwn (change : α -> α) (known : Known α) : Known α :=
  { known with own := change known.own }

/-- The options that stand at every level. -/
def commonOptions : List (OptionRule (Known α)) := [
  ⟨"config".toList, some 'c',
    onceWith path? (·.common.configuration)
      fun path => onCommon fun common => { common with configuration := some path }⟩,
  ⟨"verbose".toList, some 'v',
    .switch fun known =>
      some (onCommon (fun common => { common with verbosity := common.verbosity + 1 }) known)⟩,
  ⟨"json".toList, none,
    once (·.common.logsJson) (onCommon fun common => { common with logsJson := true })⟩,
  ⟨"no-color".toList, none,
    once (·.common.isColorless) (onCommon fun common => { common with isColorless := true })⟩,
  ⟨"threads".toList, some 'j',
    onceWith number? (·.common.threads)
      fun number => onCommon fun common => { common with threads := some number }⟩,
  ⟨"help".toList, some 'h', .stop .help⟩]

/-- The options that choose files. -/
def selectionOptions (change : (Selection -> Selection) -> α -> α) : List (OptionRule (Known α)) :=
  let add (name : String) (extend : Text -> Selection -> Selection) : OptionRule (Known α) :=
    ⟨name.toList, none, .value fun pattern known => some (onOwn (change (extend pattern)) known)⟩
  [add "include" fun pattern selection =>
      { selection with included := selection.included ++ [pattern] },
    add "exclude" fun pattern selection =>
      { selection with excluded := selection.excluded ++ [pattern] }]

/-- A path to work on. -/
def addPath
    (change : (Selection -> Selection) -> α -> α)
    (word : Text)
    (known : Known α) : Option (Known α) :=
  (path? word).map fun path =>
    onOwn (change fun selection => { selection with paths := selection.paths ++ [path] }) known

/-- The level of a task without words of its own. -/
def plainLevel : Level (Known α) where
  options := commonOptions

/-- The level at the start. -/
def topLevel : Level (Known Unit) where
  options := commonOptions ++ [⟨"version".toList, some 'V', .stop .version⟩]
  subcommands := ["check".toList, "fmt".toList, "format".toList, "config".toList, "help".toList]

/-- The level of checking. -/
def checkLevel : Level (Known Selection) where
  options := commonOptions ++ selectionOptions id
  positional := addPath id

/-- Change the files to format. -/
def onSelection (change : Selection -> Selection) (options : FormatOptions) : FormatOptions :=
  { options with selection := change options.selection }

/-- The level of formatting. -/
def formatLevel : Level (Known FormatOptions) where
  options := commonOptions ++ selectionOptions onSelection ++ [
    ⟨"check".toList, none, once (·.own.checks) (onOwn fun options => { options with checks := true })⟩,
    ⟨"diff".toList, none, once (·.own.diffs) (onOwn fun options => { options with diffs := true })⟩,
    ⟨"indent-size".toList, none,
      onceWith number? (·.own.indentSize)
        fun size => onOwn fun options => { options with indentSize := some size }⟩,
    ⟨"use-tabs".toList, none,
      once (·.own.usesTabs) (onOwn fun options => { options with usesTabs := true })⟩]
  positional := addPath onSelection

/-- The level of the tasks about configuration. -/
def configurationLevel : Level (Known Unit) where
  options := commonOptions
  subcommands := ["init".toList, "show".toList, "validate".toList, "schema".toList, "help".toList]

/-- The level of a new configuration file. -/
def createLevel : Level (Known StarterOptions) where
  options := commonOptions ++ [
    ⟨"format".toList, none,
      onceWith starterFormat? (·.own.format)
        fun format => onOwn fun options => { options with format := some format }⟩,
    ⟨"force".toList, none,
      once (·.own.isForced) (onOwn fun options => { options with isForced := true })⟩]

/-- The level of showing the configuration. -/
def showLevel : Level (Known Bool) where
  options := commonOptions ++ [⟨"resolved".toList, none, once (·.own) (onOwn fun _ => true)⟩]

/-- The level of validating the configuration. -/
def validateLevel : Level (Known (Option Path)) where
  options := commonOptions
  positional := fun word known =>
    match known.own with
    | some _ => none
    | none => (path? word).map fun path => onOwn (fun _ => some path) known

/-! ## Invocations -/

/-- An invocation, or why there is none. -/
abbrev Asked := Except Interruption Invocation

/-- The task of a level without subcommands; a configuration file that is named above holds unless the level
names one. -/
def ofLevel
    (level : Level (Known α))
    (start : α)
    (above : CommonOptions)
    (words : List Text)
    (task : α -> Option Task) : Asked := do
  let (known, _) <- level.read words { own := start }
  let task <- orMisuse (task known.own)
  return ⟨task, known.common.configuration <|> above.configuration⟩

/-- Help about the subcommand that some words name. -/
def helpAbout
    (isKnown : List Text -> Bool)
    (words : List Text) : Asked :=
  if isKnown words then .error .help else .error .misuse

/-- The words name a subcommand of the configuration level, or the level itself. -/
def isConfigurationTopic : List Text -> Bool
  | [] => true
  | [word] => configurationLevel.subcommands.contains word
  | _ => false

/-- The words name a subcommand. -/
def isTopic : List Text -> Bool
  | [] => true
  | word :: rest =>
      if word = "config".toList then isConfigurationTopic rest
      else topLevel.subcommands.contains word && rest.isEmpty

/-- The task about configuration that some words name. -/
def ofConfigurationWords
    (above : CommonOptions)
    (words : List Text) : Asked := do
  let (known, below) <- configurationLevel.read words { own := () }
  let above := { above with configuration := known.common.configuration <|> above.configuration }
  match below with
  | none => .error .misuse
  | some (name, rest) =>
      if name = "init".toList then
        ofLevel createLevel {} above rest fun options =>
          some (.createConfiguration (options.format.getD .toml) options.isForced)
      else if name = "show".toList then
        ofLevel showLevel false above rest fun isResolved => some (.showConfiguration isResolved)
      else if name = "validate".toList then
        ofLevel validateLevel none above rest fun path => some (.validateConfiguration path)
      else if name = "schema".toList then
        ofLevel plainLevel () above rest fun _ => some .showSchema
      else
        helpAbout isConfigurationTopic rest

/-- The task that the words of a command line name. -/
def askedBy (words : List Text) : Asked := do
  let (known, below) <- topLevel.read words { own := () }
  match below with
  | none => return ⟨.help, known.common.configuration⟩
  | some (name, rest) =>
      if name = "check".toList then
        ofLevel checkLevel {} known.common rest fun selection => some (.check selection)
      else if name = "config".toList then
        ofConfigurationWords known.common rest
      else if name = "help".toList then
        helpAbout isTopic rest
      else
        ofLevel formatLevel {} known.common rest fun options => options.mode?.map (.format options)

/-- The invocation of a command line; nothing when the words are against the rules. -/
def Invocation.ofWords? (words : List Text) : Option Invocation :=
  match askedBy words with
  | .ok invocation => some invocation
  | .error .help => some ⟨.help, none⟩
  | .error .version => some ⟨.version, none⟩
  | .error .misuse => none

end Command
end Lossless
