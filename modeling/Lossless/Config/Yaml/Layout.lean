import Lossless.Config.Yaml.BlockText
import Lossless.Config.Yaml.FlowText
import Lossless.Config.Yaml.Tag

/-!
# The tokens of a text

Block collections begin and end by their columns, and a key is known as one only when a colon follows it. So
what is known while the tokens are taken is the columns of the open collections and the places where a key
may have started.
-/

namespace Lossless
namespace Config
namespace Yaml

/-- A place where a key may have started. -/
structure KeyStart where
  glyph : Glyph
  /-- The number of tokens before it. -/
  position : Nat
  /-- Nothing but a key can stand there. -/
  isRequired : Bool

/-- A key stays on one line and has a bounded length. -/
def KeyStart.reaches (start : KeyStart) (glyph : Glyph) : Bool :=
  start.glyph.line = glyph.line && glyph.index ≤ start.glyph.index + 1024

/-- What has been read of a text. -/
structure Layout where
  /-- The tokens, the newest first. -/
  tokens : List Token := []
  /-- The number of the tokens. -/
  count : Nat := 0
  /-- The number is kept in step. -/
  count_eq_length : count = tokens.length := by rfl
  /-- The columns of the open block collections, the innermost first. -/
  columns : List Nat := []
  /-- A key may start next. -/
  allowsKey : Bool := true
  /-- The place where a key may have started in the innermost collection. -/
  key : Option KeyStart := none
  /-- The same for the collections around each open flow collection, the innermost first. -/
  outerKeys : List (Option KeyStart) := []

namespace Layout

/-- A flow collection is open. -/
def inFlow (layout : Layout) : Bool := !layout.outerKeys.isEmpty

/-- Add tokens, the newest first. -/
def addAll
    (layout : Layout)
    (tokens : List Token) : Layout :=
  { layout with
    tokens := tokens ++ layout.tokens
    count := tokens.length + layout.count
    count_eq_length := by rw [List.length_append, layout.count_eq_length] }

/-- Add a token, and say whether a key may follow it. -/
def add
    (layout : Layout)
    (token : Token)
    (allowsKey : Bool) : Layout :=
  { layout.addAll [token] with allowsKey }

/-! ## Block collections -/

/-- Close the block collections with deeper columns; flow collections know no columns. -/
def closeBlocks (layout : Layout) (isDeeper : Nat -> Bool) : Layout :=
  if layout.inFlow then layout
  else
    let closed := layout.columns.takeWhile isDeeper
    { layout.addAll (closed.map fun _ => .blockEnd) with
      columns := layout.columns.drop closed.length }

/-- A block collection that starts at a column is a new one. -/
def isDeeper (layout : Layout) (column : Nat) : Bool :=
  !layout.inFlow && layout.columns.head?.all fun outer => outer < column

/-- Open a block collection at a column, unless it is open. -/
def openBlock
    (layout : Layout)
    (token : Token)
    (column : Nat) : Layout :=
  if layout.isDeeper column then
    { layout.addAll [token] with columns := column :: layout.columns }
  else layout

/-! ## Keys -/

/-- Forget a place where a key may have started; it is an error where only a key can stand. -/
def forget : Option KeyStart -> Option Unit
  | some start => guard !start.isRequired
  | none => some ()

/-- Forget the place where a key may have started. -/
def dropKey (layout : Layout) : Option Layout := do
  forget layout.key
  return { layout with key := none }

/-- Forget the places from which a key cannot reach as far as a glyph. -/
def dropDistantKeys
    (layout : Layout)
    (glyph : Glyph) : Option Layout := do
  let keep (start : Option KeyStart) : Option (Option KeyStart) := do
    if start.all fun start => start.reaches glyph then return start
    else
      forget start
      return none
  return { layout with key := <- keep layout.key, outerKeys := <- layout.outerKeys.mapM keep }

/-- Note that a key may start at a glyph. -/
def noteKey
    (layout : Layout)
    (glyph : Glyph) : Option Layout := do
  if layout.allowsKey then
    let layout <- layout.dropKey
    let isRequired := !layout.inFlow && layout.columns.head? = some glyph.column
    return { layout with key := some ⟨glyph, layout.count, isRequired⟩ }
  else return layout

/-- Put a key at the place where it has started, and a mapping before it if its column is new. -/
def addKey (layout : Layout) (start : KeyStart) : Layout :=
  let newer := layout.tokens.take (layout.count - start.position)
  let older := { layout with
    tokens := layout.tokens.drop newer.length
    count := layout.count - newer.length
    count_eq_length := by rw [List.length_drop, layout.count_eq_length]
    key := none }
  (older.openBlock .blockMappingStart start.glyph.column).addAll (newer ++ [.key])

/-! ## Steps -/

/-- Take a token that says whether a key may follow it, after one that can be a key. -/
def addNode
    (layout : Layout)
    (glyph : Glyph)
    (token : Taking Token) : Taking Layout := do
  let layout <- layout.noteKey glyph
  return layout.add (<- token) false

/-- Open a flow collection. -/
def openFlow
    (layout : Layout)
    (glyph : Glyph)
    (token : Token) : Option Layout := do
  let layout <- layout.noteKey glyph
  return { layout.add token true with key := none, outerKeys := layout.key :: layout.outerKeys }

/-- Close a flow collection. -/
def closeFlow
    (layout : Layout)
    (token : Token) : Option Layout := do
  let layout <- layout.dropKey
  match layout.outerKeys with
  | key :: outerKeys => return { layout.add token false with key, outerKeys }
  | [] => return layout.add token false

/-- Add a mark of a block collection, which starts there if its column is new. -/
def addBlockMark
    (layout : Layout)
    (glyph : Glyph)
    (opening token : Token)
    (allowsKey : Bool) : Option Layout := do
  guard (layout.inFlow || layout.allowsKey)
  let layout <- (layout.openBlock opening glyph.column).dropKey
  return layout.add token allowsKey

/-- Add the colon before a value. -/
def addValue
    (layout : Layout)
    (glyph : Glyph) : Option Layout := do
  match layout.key with
  | some start => return (layout.addKey start).add .value false
  | none =>
      guard (layout.inFlow || layout.allowsKey)
      return (layout.openBlock .blockMappingStart glyph.column).add .value !layout.inFlow

/-- Add a directive or a mark of a document. -/
def addDocumentMark
    (layout : Layout)
    (token : Token) : Option Layout := do
  let layout <- (layout.closeBlocks fun _ => true).dropKey
  return layout.add token false

/-- Take a block scalar after its mark. -/
def addBlockText
    (layout : Layout)
    (isFolded : Bool) : Taking Layout := do
  let layout <- layout.dropKey
  let text <- blockText isFolded layout.columns
  return layout.add (.scalar (if isFolded then .quoted else .literal) text) true

/-- Take a scalar without quotes. -/
def addPlain
    (layout : Layout)
    (glyph : Glyph) : Taking Layout := do
  let layout <- layout.noteKey glyph
  let (text, isBroken) <- plain ⟨layout.inFlow, layout.columns.head?.elim 0 (· + 1)⟩
  return layout.add (.scalar .plain text) isBroken

/-- Take what a single mark stands for, if the first of the glyphs is one. -/
def addMark?
    (layout : Layout)
    (glyph : Glyph)
    (second : Char) : Option (Taking Layout) :=
  let isApart := layout.inFlow || isGap second
  match glyph.char with
  | '[' => some (layout.openFlow glyph .flowSequenceStart)
  | '\x7b' => some (layout.openFlow glyph .flowMappingStart)
  | ']' => some (layout.closeFlow .flowSequenceEnd)
  | '\x7d' => some (layout.closeFlow .flowMappingEnd)
  | ',' => some do return (<- layout.dropKey).add .flowEntry true
  | '-' =>
      if isGap second then some (layout.addBlockMark glyph .blockSequenceStart .blockEntry true) else none
  | '?' =>
      if isApart then some (layout.addBlockMark glyph .blockMappingStart .key !layout.inFlow) else none
  | ':' => if isApart then some (layout.addValue glyph) else none
  | '*' => some (layout.addNode glyph do return .reference (<- anchorName))
  | '&' => some (layout.addNode glyph do return .anchor (<- anchorName))
  | '|' => if layout.inFlow then none else some (layout.addBlockText false)
  | '>' => if layout.inFlow then none else some (layout.addBlockText true)
  | '\'' => some (layout.addNode glyph do return .scalar .quoted (<- quoted '\''))
  | '"' => some (layout.addNode glyph do return .scalar .quoted (<- quoted '"'))
  | _ => none

/-- Take what starts with a glyph. -/
def addNext (layout : Layout) (glyph : Glyph) : Taking Layout := do
  let glyphs <- get
  if glyph.column = 0 && glyph.char = '%' then
    set (glyphs.drop 1)
    layout.addDocumentMark (<- directive)
  else
    match marker? glyphs with
    | some token =>
        set (glyphs.drop 3)
        layout.addDocumentMark token
    | none =>
        let second := firstOf (glyphs.drop 1)
        if glyph.char = '!' then
          layout.addNode glyph (separateTag layout.inFlow)
        else
          match layout.addMark? glyph second with
          | some taken =>
              set (glyphs.drop 1)
              taken
          | none =>
              guard (startsPlain layout.inFlow glyph.char second)
              layout.addPlain glyph

/-- Pass over blanks, comments and line breaks; whether a key may start after them. -/
def skipGap (inFlow isComment allowsKey : Bool) : List Glyph -> Bool × List Glyph
  | [] => (allowsKey, [])
  | glyph :: rest =>
      if isBreak glyph.char then skipGap inFlow false (allowsKey || !inFlow) rest
      else if glyph.char = endMark then (allowsKey, glyph :: rest)
      else if isComment || glyph.char = '#' then skipGap inFlow true allowsKey rest
      else if glyph.char = ' ' || (glyph.char = '\t' && (inFlow || !allowsKey)) then
        skipGap inFlow false allowsKey rest
      else (allowsKey, glyph :: rest)

/-- Take the tokens up to the end; the bound is on their number. -/
def tokensFrom : Nat -> Layout -> Taking (List Token)
  | 0, _ => failure
  | bound + 1, layout => do
      let (allowsKey, glyphs) := skipGap layout.inFlow false layout.allowsKey (<- get)
      set glyphs
      let glyph <- glyphs.head?
      let layout <- { layout with allowsKey }.dropDistantKeys glyph
      let layout := layout.closeBlocks fun column => glyph.column < column
      if glyph.char = endMark then
        let layout <- (layout.closeBlocks fun _ => true).dropKey
        return layout.tokens.reverse
      else
        tokensFrom bound (<- layout.addNext glyph)

end Layout

/-- The tokens of a text. -/
def tokens? (text : Text) : Option (List Token) := do
  let glyphs <- glyphs? text
  let (tokens, _) <- Layout.tokensFrom (glyphs.length + 1) {} glyphs
  return tokens

end Yaml
end Config
end Lossless
