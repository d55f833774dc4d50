import Lossless.Config.Value

/-!
# Fields

A section of a configuration is a record of optional settings. A field says how one of them is called, how
it is read from a value and written as one, and how the schema describes it. A table is read by its fields,
unknown names apart; a list may be read as the values of all fields in order.
-/

namespace Lossless
namespace Config

/-- Whether a list can stand for a section, its values for the settings in order. -/
inductive Positional
  | never
  /-- A list with one value for each setting. -/
  | exactly
  /-- A list with a value for each setting; what follows them is passed over. -/
  | atLeast

/-- A list can stand for a section with a number of settings. -/
def Positional.fits (settings values : Nat) : Positional -> Bool
  | never => false
  | exactly => values = settings
  | atLeast => settings ≤ values

/-- A setting of a section. -/
structure Field (σ : Type) where
  name : Text
  /-- Take over a value; nothing when it is of another type. -/
  read : Positional -> Value -> σ -> Option σ
  /-- The value that is set. -/
  write : σ -> Option Value
  /-- The schema of the value. -/
  schema : List (Text × Value)
  /-- The definitions that the schema refers to. -/
  definitions : List (Text × Value) := []

namespace Field

/-- Read a table entry by entry; a field may come only once, and other names are passed over. -/
def readEntries
    (positional : Positional)
    (fields : List (Field σ)) : List Text -> List (Text × Value) -> σ -> Option σ
  | _, [], settings => some settings
  | seen, (name, value) :: rest, settings =>
      match fields.find? fun field => field.name = name with
      | none =>
          if value.isReadable then readEntries positional fields seen rest settings else none
      | some field =>
          if name ∈ seen then none
          else
            (field.read positional value settings).bind
              (readEntries positional fields (name :: seen) rest)

/-- Read the values of all fields in order. -/
def readInOrder
    (positional : Positional) : List (Field σ) -> List Value -> σ -> Option σ
  | [], _, settings => some settings
  | field :: fields, value :: values, settings =>
      (field.read positional value settings).bind (readInOrder positional fields values)
  | _ :: _, [], _ => none

/-- Read a section. -/
def readSection
    (positional : Positional)
    (fields : List (Field σ))
    (unset : σ) : Value -> Option σ
  | .table entries => readEntries positional fields [] entries unset
  | .list values =>
      if positional.fits fields.length values.length then readInOrder positional fields values unset
      else none
  | .scalar scalar => if scalar.isEmpty then some unset else none
  | _ => none

/-- Write the settings of a section that are set. -/
def writeSection
    (fields : List (Field σ))
    (settings : σ) : Value :=
  .table (fields.filterMap fun field => (field.write settings).map fun value => (field.name, value))

/-! ## Schemas -/

/-- A fixed text as a value. -/
def word (text : String) : Value := .string text.toList

/-- The entry that gives the types of a value. -/
def typeEntry (types : List String) : Text × Value :=
  ("type".toList, .list ((types ++ ["null"]).map word))

/-- The entry that describes a value, if there is a description. -/
def descriptionEntry (description : String) : List (Text × Value) :=
  if description = "" then [] else [("description".toList, word description)]

/-- The schema of a section. -/
def sectionSchema
    (description : String)
    (fields : List (Field σ)) : List (Text × Value) :=
  descriptionEntry description ++
    [("type".toList, word "object"),
      ("properties".toList, .table (fields.map fun field => (field.name, .table field.schema)))]

/-! ## Kinds of fields -/

/-- A field whose setting is read and written by functions of its own. -/
def ofFunctions
    (name : String)
    (schema : List (Text × Value))
    (read : Positional -> Value -> Option α)
    (write : α -> Value)
    (get : σ -> Option α)
    (set : Option α -> σ -> σ) : Field σ where
  name := name.toList
  read := fun positional value settings => do
    if <- value.isNull? then return set none settings
    else return set (some (<- read positional value)) settings
  write := fun settings => (get settings).map write
  schema := schema

/-- A number of columns or lines. -/
def natural
    (name description : String)
    (get : σ -> Option Nat)
    (set : Option Nat -> σ -> σ) : Field σ :=
  ofFunctions name
    (descriptionEntry description ++
      [typeEntry ["integer"], ("format".toList, word "uint"), ("minimum".toList, .integer 0)])
    (fun _ => Value.natural?) (fun number => .integer number) get set

/-- A setting that is on or off. -/
def truth
    (name description : String)
    (get : σ -> Option Bool)
    (set : Option Bool -> σ -> σ) : Field σ :=
  ofFunctions name (descriptionEntry description ++ [typeEntry ["boolean"]])
    (fun _ => Value.truth?) .truth get set

/-- A text. -/
def text
    (name description : String)
    (get : σ -> Option Text)
    (set : Option Text -> σ -> σ) : Field σ :=
  ofFunctions name (descriptionEntry description ++ [typeEntry ["string"]])
    (fun _ => Value.text?) .string get set

/-- A list of texts. -/
def texts
    (name description : String)
    (get : σ -> Option (List Text))
    (set : Option (List Text) -> σ -> σ) : Field σ :=
  ofFunctions name
    (descriptionEntry description ++
      [typeEntry ["array"], ("items".toList, .table [("type".toList, word "string")])])
    (fun _ => Value.texts?) (fun texts => .list (texts.map .string)) get set

/-- A section inside a section, defined in the schema under a title. -/
def nested
    (name title description : String)
    (fields : List (Field τ))
    (unset : τ)
    (get : σ -> Option τ)
    (set : Option τ -> σ -> σ) : Field σ :=
  { ofFunctions name
      [("anyOf".toList,
        .list [.table [("$ref".toList, word ("#/$defs/" ++ title))],
          .table [("type".toList, word "null")]])]
      (fun positional => readSection positional fields unset) (writeSection fields) get set with
    definitions :=
      (title.toList, .table (sectionSchema description fields)) ::
        fields.flatMap fun field => field.definitions }

end Field
end Config
end Lossless
