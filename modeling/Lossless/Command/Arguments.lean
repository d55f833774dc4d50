import Lossless.Text.Basic

/-!
# Words of a command line

The words after the name of a program are read at levels: a level has options, may take other words as
positional ones, and may hand over to a level below at the name of a subcommand. Options start with `--` and
a long name or with `-` and letters; after a lone `--` no word is an option.
-/

namespace Lossless
namespace Command

/-- Why reading the words ends before there is something to do. -/
inductive Interruption
  /-- The words are against the rules. -/
  | misuse
  /-- The words ask for help. -/
  | help
  /-- The words ask for the version. -/
  | version
  deriving DecidableEq

/-- What an option does to what is known so far; nothing when it is refused. -/
inductive Effect (σ : Type)
  /-- An option without a value. -/
  | switch (apply : σ -> Option σ)
  /-- An option with a value, attached to it or in the next word. -/
  | value (apply : Text -> σ -> Option σ)
  /-- An option that ends the reading. -/
  | stop (interruption : Interruption)

/-- An option of a level. -/
structure OptionRule (σ : Type) where
  long : Text
  short? : Option Char := none
  effect : Effect σ

/-- What a level takes. -/
structure Level (σ : Type) where
  options : List (OptionRule σ)
  /-- Take a word that is no option; nothing when it is refused. -/
  positional : Text -> σ -> Option σ := fun _ _ => none
  /-- The names that hand over to a level below. -/
  subcommands : List Text := []

/-- A word as it looks. -/
inductive WordForm
  /-- The mark after which no word is an option. -/
  | endOfOptions
  /-- A long name, and the value after an equals sign. -/
  | long (name : Text) (attached : Option Text)
  /-- Letters after a single dash. -/
  | cluster (letters : List Char)
  | plain

/-- The form of a word; a lone dash is no option. -/
def WordForm.ofWord : Text -> WordForm
  | ['-', '-'] => .endOfOptions
  | '-' :: '-' :: rest =>
      let name := rest.takeWhile fun char => char ≠ '='
      .long name (rest.drop name.length).tail?
  | '-' :: letter :: letters => .cluster (letter :: letters)
  | _ => .plain

/-- The word cannot be the value of the option before it. -/
def isOptionLike (word : Text) : Bool :=
  match WordForm.ofWord word with
  | .plain => false
  | _ => true

/-- What a level has read: what is known, and at the name of a subcommand that name and the words after
it. -/
abbrev Reading (σ : Type) := Except Interruption (σ × Option (Text × List Text))

/-- Go on with what is known, unless it was refused. -/
def orMisuse : Option σ -> Except Interruption σ
  | some known => .ok known
  | none => .error .misuse

namespace Level

/-- The option with a long name. -/
def byLong?
    (level : Level σ)
    (name : Text) : Option (Effect σ) :=
  (level.options.find? fun option => option.long = name).map OptionRule.effect

/-- The option with a letter. -/
def byShort?
    (level : Level σ)
    (letter : Char) : Option (Effect σ) :=
  (level.options.find? fun option => option.short? = some letter).map OptionRule.effect

/-- The effect of letters in a row. The last one may still need its value from the next word; what follows
an option with a value is the value, an equals sign at its start apart. -/
def readCluster
    (level : Level σ) :
    List Char -> σ -> Except Interruption (σ × Option (Text -> σ -> Option σ))
  | [], known => .ok (known, none)
  | letter :: rest, known =>
      match level.byShort? letter with
      | none => .error .misuse
      | some (.stop interruption) => .error interruption
      | some (.switch apply) => (orMisuse (apply known)).bind (readCluster level rest)
      | some (.value apply) =>
          match rest with
          | [] => .ok (known, some apply)
          | '=' :: text => (orMisuse (apply text known)).map fun known => (known, none)
          | text => (orMisuse (apply text known)).map fun known => (known, none)

/-- Read the words of a level; a value may be expected. -/
def readFrom
    (level : Level σ) :
    Option (Text -> σ -> Option σ) -> List Text -> σ -> Reading σ
  | none, [], known => .ok (known, none)
  | some _, [], _ => .error .misuse
  | some apply, word :: rest, known =>
      if isOptionLike word then .error .misuse
      else (orMisuse (apply word known)).bind (readFrom level none rest)
  | none, word :: rest, known =>
      match WordForm.ofWord word with
      | .endOfOptions =>
          (orMisuse (rest.foldlM (fun known word => level.positional word known) known)).map
            fun known => (known, none)
      | .cluster letters =>
          (level.readCluster letters known).bind fun (known, expected) => readFrom level expected rest known
      | .long name attached =>
          match level.byLong? name, attached with
          | some (.stop interruption), none => .error interruption
          | some (.switch apply), none => (orMisuse (apply known)).bind (readFrom level none rest)
          | some (.value apply), none => readFrom level (some apply) rest known
          | some (.value apply), some text =>
              (orMisuse (apply text known)).bind (readFrom level none rest)
          | _, _ => .error .misuse
      | .plain =>
          if word ∈ level.subcommands then .ok (known, some (word, rest))
          else (orMisuse (level.positional word known)).bind (readFrom level none rest)

/-- Read the words of a level. -/
def read
    (level : Level σ)
    (words : List Text)
    (known : σ) : Reading σ :=
  level.readFrom none words known

end Level
end Command
end Lossless
