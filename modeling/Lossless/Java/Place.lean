import Lossless.Text.Basic

/-!
# Places

Every space of a tree has a place: the prefix of a node of some kind, the space beside a padded element,
or the space at the end of a block or file. The formatting passes decide by place. Paddings and containers
have places of their own, from which those of their spaces and elements follow.
-/

namespace Lossless
namespace Java

/-- Where a space stands. -/
inductive SpacePlace
  | compilationUnitPrefix
  | compilationUnitEof
  | compilationUnitStatementSuffix
  | blockPrefix
  | blockEnd
  | blockStatementSuffix
  | ifPrefix
  | ifThenSuffix
  | elsePrefix
  | elseSuffix
  | returnPrefix
  | assignmentPrefix
  | assignmentOperatorPrefix
  | binaryPrefix
  | binaryOperator
  | identifierPrefix
  | literalPrefix
  | fieldAccessPrefix
  | fieldAccessName
  | methodInvocationPrefix
  | methodSelectSuffix
  | methodInvocationArguments
  | methodInvocationArgumentSuffix
  | methodDeclarationPrefix
  | methodDeclarationParameters
  | methodDeclarationParameterSuffix
  | parenthesesPrefix
  | parenthesesSuffix
  | collectionLiteralPrefix
  | collectionLiteralElements
  | collectionLiteralElementSuffix
  | emptyPrefix
  | unknownPrefix
  | trailingCommaSuffix
  deriving DecidableEq

namespace SpacePlace

/-- The name of a place. -/
def name : SpacePlace -> Text
  | compilationUnitPrefix => "CompilationUnitPrefix".toList
  | compilationUnitEof => "CompilationUnitEof".toList
  | compilationUnitStatementSuffix => "CompilationUnitStatementSuffix".toList
  | blockPrefix => "BlockPrefix".toList
  | blockEnd => "BlockEnd".toList
  | blockStatementSuffix => "BlockStatementSuffix".toList
  | ifPrefix => "IfPrefix".toList
  | ifThenSuffix => "IfThenSuffix".toList
  | elsePrefix => "ElsePrefix".toList
  | elseSuffix => "ElseSuffix".toList
  | returnPrefix => "ReturnPrefix".toList
  | assignmentPrefix => "AssignmentPrefix".toList
  | assignmentOperatorPrefix => "AssignmentOperatorPrefix".toList
  | binaryPrefix => "BinaryPrefix".toList
  | binaryOperator => "BinaryOperator".toList
  | identifierPrefix => "IdentifierPrefix".toList
  | literalPrefix => "LiteralPrefix".toList
  | fieldAccessPrefix => "FieldAccessPrefix".toList
  | fieldAccessName => "FieldAccessName".toList
  | methodInvocationPrefix => "MethodInvocationPrefix".toList
  | methodSelectSuffix => "MethodSelectSuffix".toList
  | methodInvocationArguments => "MethodInvocationArguments".toList
  | methodInvocationArgumentSuffix => "MethodInvocationArgumentSuffix".toList
  | methodDeclarationPrefix => "MethodDeclarationPrefix".toList
  | methodDeclarationParameters => "MethodDeclarationParameters".toList
  | methodDeclarationParameterSuffix => "MethodDeclarationParameterSuffix".toList
  | parenthesesPrefix => "ParenthesesPrefix".toList
  | parenthesesSuffix => "ParenthesesSuffix".toList
  | collectionLiteralPrefix => "CollectionLiteralPrefix".toList
  | collectionLiteralElements => "CollectionLiteralElements".toList
  | collectionLiteralElementSuffix => "CollectionLiteralElementSuffix".toList
  | emptyPrefix => "EmptyPrefix".toList
  | unknownPrefix => "UnknownPrefix".toList
  | trailingCommaSuffix => "TrailingCommaSuffix".toList

/-- The prefix of a node, as opposed to padding, a delimiter or the end of the file. -/
def isTreePrefix : SpacePlace -> Bool
  | compilationUnitPrefix | blockPrefix | ifPrefix | elsePrefix | returnPrefix | assignmentPrefix
  | binaryPrefix | identifierPrefix | literalPrefix | fieldAccessPrefix | methodInvocationPrefix
  | methodDeclarationPrefix | parenthesesPrefix | collectionLiteralPrefix | emptyPrefix
  | unknownPrefix => true
  | _ => false

end SpacePlace

/-- Where a right-padded element stands. -/
inductive ElementPlace
  | compilationUnitStatement
  | blockStatement
  | ifThen
  | elseBody
  | methodSelect
  | methodInvocationArgument
  | methodDeclarationParameter
  | parentheses
  | collectionElement
  deriving DecidableEq

namespace ElementPlace

/-- The name of a place. -/
def name : ElementPlace -> Text
  | compilationUnitStatement => "CompilationUnitStatement".toList
  | blockStatement => "BlockStatement".toList
  | ifThen => "IfThen".toList
  | elseBody => "ElseBody".toList
  | methodSelect => "MethodSelect".toList
  | methodInvocationArgument => "MethodInvocationArgument".toList
  | methodDeclarationParameter => "MethodDeclarationParameter".toList
  | parentheses => "Parentheses".toList
  | collectionElement => "CollectionElement".toList

/-- Every place. -/
def all : List ElementPlace :=
  [compilationUnitStatement, blockStatement, ifThen, elseBody,
    methodSelect, methodInvocationArgument, methodDeclarationParameter,
    parentheses, collectionElement]

/-- The place with a name. -/
def ofName? (name : Text) : Option ElementPlace :=
  all.find? fun place => place.name = name

/-- The place of the space after the element. -/
def after : ElementPlace -> SpacePlace
  | compilationUnitStatement => .compilationUnitStatementSuffix
  | blockStatement => .blockStatementSuffix
  | ifThen => .ifThenSuffix
  | elseBody => .elseSuffix
  | methodSelect => .methodSelectSuffix
  | methodInvocationArgument => .methodInvocationArgumentSuffix
  | methodDeclarationParameter => .methodDeclarationParameterSuffix
  | parentheses => .parenthesesSuffix
  | collectionElement => .collectionLiteralElementSuffix

/-- An element of a delimited list. -/
def isContainerElement : ElementPlace -> Bool
  | methodInvocationArgument | methodDeclarationParameter | collectionElement => true
  | _ => false

end ElementPlace

/-- Where a left-padded element stands. -/
inductive OperandPlace
  | assignmentValue
  | binaryOperator
  | fieldAccessName
  deriving DecidableEq

namespace OperandPlace

/-- The name of a place. -/
def name : OperandPlace -> Text
  | assignmentValue => "AssignmentValue".toList
  | binaryOperator => "BinaryOperator".toList
  | fieldAccessName => "FieldAccessName".toList

/-- Every place. -/
def all : List OperandPlace :=
  [assignmentValue, binaryOperator, fieldAccessName]

/-- The place with a name. -/
def ofName? (name : Text) : Option OperandPlace :=
  all.find? fun place => place.name = name

/-- The place of the space before the element. -/
def before : OperandPlace -> SpacePlace
  | assignmentValue => .assignmentOperatorPrefix
  | binaryOperator => .binaryOperator
  | fieldAccessName => .fieldAccessName

end OperandPlace

/-- Where a delimited list stands. -/
inductive ContainerPlace
  | methodInvocationArguments
  | methodDeclarationParameters
  | collectionElements
  deriving DecidableEq

namespace ContainerPlace

/-- The name of a place. -/
def name : ContainerPlace -> Text
  | methodInvocationArguments => "MethodInvocationArguments".toList
  | methodDeclarationParameters => "MethodDeclarationParameters".toList
  | collectionElements => "CollectionElements".toList

/-- Every place. -/
def all : List ContainerPlace :=
  [methodInvocationArguments, methodDeclarationParameters, collectionElements]

/-- The place with a name. -/
def ofName? (name : Text) : Option ContainerPlace :=
  all.find? fun place => place.name = name

/-- The place of the space before the opening delimiter. -/
def before : ContainerPlace -> SpacePlace
  | methodInvocationArguments => .methodInvocationArguments
  | methodDeclarationParameters => .methodDeclarationParameters
  | collectionElements => .collectionLiteralElements

/-- The place of the elements. -/
def element : ContainerPlace -> ElementPlace
  | methodInvocationArguments => .methodInvocationArgument
  | methodDeclarationParameters => .methodDeclarationParameter
  | collectionElements => .collectionElement

end ContainerPlace
end Java
end Lossless
