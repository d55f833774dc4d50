import Lossless.Text.Basic

/-!
# Styles

A style is a record of layout choices that the formatting passes read. The defaults of every record are
those of the IntelliJ code style. Styles travel in named sets; of several sets that hold the same kind of
record the last one wins, and a record that no set holds has its default.
-/

namespace Lossless

/-- How lines are indented. -/
structure IndentStyle where
  useTabCharacter : Bool := false
  /-- Columns that a tab character spans. -/
  tabSize : Nat := 4
  /-- Columns of one level of nesting. -/
  indentSize : Nat := 4
  /-- Columns added for a wrapped expression. -/
  continuationIndent : Nat := 8
  keepIndentsOnEmptyLines : Bool := false
  /-- Wrapped parameters of a declaration start below the first one. -/
  alignParameters : Bool := true
  /-- Wrapped arguments of a call start below the first one. -/
  alignArguments : Bool := true
  /-- Wrapped elements of a collection take the continuation indent and not one level. -/
  continueCollections : Bool := false
  deriving DecidableEq

/-- Blanks before an opening parenthesis. -/
structure BeforeParentheses where
  call : Bool := false
  declaration : Bool := false
  conditional : Bool := true
  deriving DecidableEq

/-- Blanks on both sides of an operator. -/
structure AroundOperators where
  assignment : Bool := true
  equality : Bool := true
  relational : Bool := true
  additive : Bool := true
  multiplicative : Bool := true
  deriving DecidableEq

/-- Blanks inside a pair of delimiters. -/
structure WithinDelimiters where
  brackets : Bool := false
  declaration : Bool := false
  emptyDeclaration : Bool := false
  call : Bool := false
  emptyCall : Bool := false
  deriving DecidableEq

/-- Blanks beside punctuation. -/
structure BesidePunctuation where
  beforeComma : Bool := false
  afterComma : Bool := true
  beforeColon : Bool := false
  beforeLeftBrace : Bool := true
  deriving DecidableEq

/-- Which gaps inside a line hold a blank. -/
structure SpacingStyle where
  beforeParentheses : BeforeParentheses := {}
  aroundOperators : AroundOperators := {}
  within : WithinDelimiters := {}
  punctuation : BesidePunctuation := {}
  deriving DecidableEq

/-- How many blank lines in a row are kept. -/
structure BlankLineStyle where
  inCode : Nat := 2
  beforeEndOfBlock : Nat := 2
  deriving DecidableEq

/-- Which line break ends a line. -/
structure LineBreakStyle where
  useCrlf : Bool := false
  deriving DecidableEq

/-- The line break that the style asks for. -/
def LineBreakStyle.newLine (style : LineBreakStyle) : Text :=
  if style.useCrlf then ['\r', '\n'] else ['\n']

/-- One style record. -/
inductive Style
  | indents (style : IndentStyle)
  | spacing (style : SpacingStyle)
  | blankLines (style : BlankLineStyle)
  | lineBreaks (style : LineBreakStyle)
  deriving DecidableEq

namespace Style

def indents? : Style -> Option IndentStyle
  | indents style => some style
  | _ => none

def spacing? : Style -> Option SpacingStyle
  | spacing style => some style
  | _ => none

def blankLines? : Style -> Option BlankLineStyle
  | blankLines style => some style
  | _ => none

def lineBreaks? : Style -> Option LineBreakStyle
  | lineBreaks style => some style
  | _ => none

end Style

/-- A set of styles under a name. -/
structure NamedStyles where
  name : Text
  displayName : Text
  description : Option Text := none
  tags : List Text := []
  styles : List Style
  deriving DecidableEq

/-- One record of each kind: everything that a formatting run reads. -/
structure Styles where
  indents : IndentStyle := {}
  spacing : SpacingStyle := {}
  blankLines : BlankLineStyle := {}
  lineBreaks : LineBreakStyle := {}
  deriving DecidableEq

namespace NamedStyles

/-- The record that the last set holding one of its kind has first. -/
def latest?
    (select : Style -> Option α)
    (sets : List NamedStyles) : Option α :=
  (sets.filterMap fun set => set.styles.findSome? select).getLast?

end NamedStyles

namespace Styles

/-- The styles in force under some named sets. -/
def ofNamed (sets : List NamedStyles) : Styles where
  indents := (NamedStyles.latest? Style.indents? sets).getD {}
  spacing := (NamedStyles.latest? Style.spacing? sets).getD {}
  blankLines := (NamedStyles.latest? Style.blankLines? sets).getD {}
  lineBreaks := (NamedStyles.latest? Style.lineBreaks? sets).getD {}

@[simp] theorem ofNamed_nil : ofNamed [] = {} := rfl

/-- The four records in order. -/
def toList (styles : Styles) : List Style :=
  [.indents styles.indents, .spacing styles.spacing, .blankLines styles.blankLines,
    .lineBreaks styles.lineBreaks]

/-- The styles as a named set. -/
def toNamed
    (name : Text)
    (styles : Styles) : NamedStyles where
  name := name
  displayName := "Configured".toList
  styles := styles.toList

/-- A complete named set is what is in force after it. -/
@[simp] theorem ofNamed_concat_toNamed
    (sets : List NamedStyles)
    (name : Text)
    (styles : Styles) :
    ofNamed (sets ++ [styles.toNamed name]) = styles := by
  simp [ofNamed, NamedStyles.latest?, toNamed, toList, List.findSome?, Style.indents?,
    Style.spacing?, Style.blankLines?, Style.lineBreaks?]

end Styles

/-- The default styles as a named set. -/
def NamedStyles.intelliJ : NamedStyles where
  name := "reweave.IntelliJ".toList
  displayName := "IntelliJ IDEA".toList
  description := some "IntelliJ IDEA default code style".toList
  tags := ["intellij".toList]
  styles := Styles.toList {}

end Lossless
