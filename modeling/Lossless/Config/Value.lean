import Lossless.Text.Numeral

/-!
# Scalars and values

What a configuration file describes, whatever its format.
-/

namespace Lossless
namespace Config

/-!
## Scalars

A scalar has no type of its own: it can stand for a text, a number, a truth value or nothing. How it is
written and its tag decide what it may stand for, and the setting that takes it decides what it does.
-/

/-- How a scalar is written. -/
inductive ScalarStyle
  /-- Without quotes. -/
  | plain
  /-- As a block that keeps its lines. -/
  | literal
  /-- Between quotes, or as a block with folded lines. -/
  | quoted
  deriving DecidableEq

/-- A text with the way it is written and the tag before it. -/
structure Scalar where
  style : ScalarStyle
  tag : Option Text
  text : Text

namespace Scalar

/-- The scalar of a place where nothing is written. -/
def absent : Scalar := ⟨.plain, none, []⟩

/-! ### Tags -/

/-- The tag of integers. -/
def integerTag : Text := "tag:yaml.org,2002:int".toList

/-- The tag of truth values. -/
def truthTag : Text := "tag:yaml.org,2002:bool".toList

/-- The tag of nothing. -/
def nullTag : Text := "tag:yaml.org,2002:null".toList

/-- Stands for more than a text when values with a tag are asked for: without quotes always, and as a block
that keeps its lines with this very tag. -/
def isOpenTo (tag : Text) (scalar : Scalar) : Bool :=
  match scalar.style with
  | .plain => true
  | .literal => scalar.tag = some tag
  | .quoted => false

/-! ### Readings -/

/-- The natural number that a text stands for; a zero before more digits makes a text. -/
def naturalOf? (text : Text) : Option Nat :=
  match Text.dropPlus text with
  | '0' :: 'x' :: digits => Text.naturalIn? 16 digits
  | '0' :: 'o' :: digits => Text.naturalIn? 8 digits
  | '0' :: 'b' :: digits => Text.naturalIn? 2 digits
  | '0' :: _ :: _ => none
  | digits => Text.naturalIn? 10 digits

/-- The truth value that a text stands for. -/
def truthOf? (text : Text) : Option Bool :=
  if ["true".toList, "True".toList, "TRUE".toList].contains text then some true
  else if ["false".toList, "False".toList, "FALSE".toList].contains text then some false
  else none

/-- The text is a word for nothing. -/
def isNullWord (text : Text) : Bool :=
  [['~'], "null".toList, "Null".toList, "NULL".toList].contains text

/-- The natural number that a scalar stands for. -/
def natural? (scalar : Scalar) : Option Nat :=
  if scalar.isOpenTo integerTag then naturalOf? scalar.text else none

/-- The truth value that a scalar stands for. -/
def truth? (scalar : Scalar) : Option Bool :=
  if scalar.isOpenTo truthTag then truthOf? scalar.text else none

/-- Nothing is written, perhaps after a tag; this stands for any empty collection. -/
def isEmpty (scalar : Scalar) : Bool :=
  scalar.style = .plain && scalar.text.isEmpty

/-- Whether a scalar stands for nothing; undecided when its tag says so and its text does not. -/
def isNull? (scalar : Scalar) : Option Bool :=
  match scalar.style, scalar.tag with
  | .plain, none => some (scalar.text.isEmpty || isNullWord scalar.text)
  | .plain, some tag =>
      if tag ≠ nullTag then some false
      else if isNullWord scalar.text then some true
      else none
  | _, _ => some false

end Scalar

/-!
## Values of configuration files

The formats of configuration files all describe values of one kind. What a setting takes is decided when
the value is read: a scalar can stand for a number, a truth value, a text or nothing.
-/

/-- What a configuration file describes. -/
inductive Value
  | null
  | truth (value : Bool)
  | integer (value : Int)
  | string (text : Text)
  | scalar (written : Scalar)
  /-- A value that no setting takes, such as a number with a fraction. -/
  | other
  /-- Digits that make no number, for example too many of them; they may not even stand where no setting
  takes them. -/
  | unreadable
  | list (values : List Value)
  /-- Named values in the order in which they were written. -/
  | table (entries : List (Text × Value))

/-- Numbers of columns and of lines fit into a machine word. -/
def wordLimit : Nat := Nat.pow 2 64

namespace Value

/-- A number of columns or lines. -/
def natural? (value : Value) : Option Nat :=
  let number : Option Nat :=
    match value with
    | integer value => if 0 ≤ value then some value.toNat else none
    | scalar written => written.natural?
    | _ => none
  number.filter fun number => number < wordLimit

def truth? : Value -> Option Bool
  | truth value => some value
  | scalar written => written.truth?
  | _ => none

def text? : Value -> Option Text
  | string text => some text
  | scalar written => some written.text
  | _ => none

/-- A list of texts. -/
def texts? : Value -> Option (List Text)
  | list values => values.mapM text?
  | scalar written => if written.isEmpty then some [] else none
  | _ => none

/-- Whether a value stands for nothing; a scalar may leave it undecided. -/
def isNull? : Value -> Option Bool
  | null => some true
  | scalar written => written.isNull?
  | _ => some false

mutual

/-- All numbers in the value can be read. -/
def isReadable : Value -> Bool
  | unreadable => false
  | list values => areReadable values
  | table entries => haveReadable entries
  | _ => true

/-- All numbers in the values can be read. -/
def areReadable : List Value -> Bool
  | [] => true
  | value :: rest => isReadable value && areReadable rest

/-- All numbers in the entries can be read. -/
def haveReadable : List (Text × Value) -> Bool
  | [] => true
  | (_, value) :: rest => isReadable value && haveReadable rest

end

end Value

end Config
end Lossless
