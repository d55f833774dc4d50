import Lossless.Config.Yaml.Layout
import Lossless.Config.Yaml.Node
import Lossless.Config.Yaml.Glyph

/-!
# Configuration in YAML

From the tokens of a text to the node of its document, and from there to a value.
-/

namespace Lossless
namespace Config

/-!
## The node of a document

Tokens make one document, perhaps with directives before it. A part that is missing, such as the value of a
key, is a scalar where nothing is written.
-/

namespace Yaml

/-- What is still to be read, and the names of the anchors that are known with the numbers they have now. -/
structure Unread where
  tokens : List Token
  anchors : List (Text × Nat) := []

/-- Takes a value from the tokens that are still to be read. -/
abbrev Composing (α : Type) := StateT Unread Option α

namespace Composing

/-- The next token, which stays. -/
def peek? : Composing (Option Token) := do
  return (<- get).tokens.head?

/-- The next token is one of a list. -/
def isNext (tokens : List Token) : Composing Bool := do
  return (<- peek?).any tokens.contains

/-- Pass over the next token. -/
def skip : Composing Unit :=
  modify fun unread => { unread with tokens := unread.tokens.drop 1 }

/-- Take a token if it comes next. -/
def accept (token : Token) : Composing Bool := do
  let found <- isNext [token]
  if found then skip
  return found

/-- Take a token that has to come next. -/
def expect (token : Token) : Composing Unit := do
  guard (<- accept token)

/-- A part, or nothing where one of these tokens comes next. -/
def partBefore
    (ends : List Token)
    (part : Composing Node) : Composing Node := do
  if <- isNext ends then return .absent else part

end Composing

open Composing

/-! ### Anchors and tags -/

/-- The number of a new anchor. It is the number of names so far, also for a name that is known. -/
def nameAnchor (name : Text) : Composing Nat := do
  let unread <- get
  let number := unread.anchors.length
  let others := unread.anchors.filter fun known => known.1 ≠ name
  set { unread with anchors := (name, number) :: others }
  return number

/-- Take an anchor if one comes next. -/
def anchor? : Composing (Option Text) := do
  match <- peek? with
  | some (.anchor name) => skip; return some name
  | _ => return none

/-- The handles of tags that are defined, with what they stand for. -/
abbrev Handles := List (Text × Text)

/-- The handles that are always defined. -/
def usualHandles : Handles :=
  [(['!'], ['!']), (['!', '!'], "tag:yaml.org,2002:".toList)]

/-- The tag that a handle and a suffix stand for; a zero ends each part. -/
def fullTag?
    (handles : Handles)
    (handle suffix : Text) : Option Text :=
  let cut (text : Text) : Text := text.takeWhile fun char => char ≠ '\x00'
  if handle.isEmpty then some (cut suffix)
  else (handles.lookup handle).map fun start => cut start ++ cut suffix

/-- Take a tag if one comes next. -/
def tag? (handles : Handles) : Composing (Option Text) := do
  match <- peek? with
  | some (.tag handle suffix) => skip; return some (<- fullTag? handles handle suffix)
  | _ => return none

/-- Take an anchor and a tag, as far as they come next, in either order. -/
def properties (handles : Handles) : Composing (Option Text × Option Text) := do
  match <- anchor? with
  | some name => return (some name, <- tag? handles)
  | none =>
      let tag <- tag? handles
      if tag.isSome then return (<- anchor?, tag) else return (none, none)

/-! ### Nodes -/

/-- Where a node stands. -/
inductive Surroundings
  | flow
  | block
  /-- In a block mapping, where a sequence may have the column of the mapping. -/
  | mapping
  deriving DecidableEq

mutual

/-- Take a node; the bound is on how many steps remain. -/
def node (handles : Handles) (bound : Nat) (surroundings : Surroundings) : Composing Node :=
  match bound with
  | 0 => failure
  | bound + 1 => do
      match <- peek? with
      | some (.reference name) =>
          skip
          return .reference (<- (<- get).anchors.lookup name)
      | _ =>
          let (name, tag) <- properties handles
          match name with
          | some name =>
              let anchor <- nameAnchor name
              return .anchored anchor (<- content handles bound surroundings tag true)
          | none => content handles bound surroundings tag tag.isSome

/-- Take what stands after an anchor and a tag; it may be missing if there is one of them. -/
def content
    (handles : Handles)
    (bound : Nat)
    (surroundings : Surroundings)
    (tag : Option Text)
    (mayMiss : Bool) : Composing Node :=
  match bound with
  | 0 => failure
  | bound + 1 => do
      let missing : Composing Node := do
        guard mayMiss
        return .scalar ⟨.plain, tag, []⟩
      match <- peek? with
      | some (.scalar style text) =>
          skip
          return .scalar ⟨style, tag.filter fun tag => tag ≠ ['!'], text⟩
      | some .flowSequenceStart =>
          skip
          return .sequence (<- flowElements handles bound true)
      | some .flowMappingStart =>
          skip
          return .mapping (<- flowEntries handles bound true)
      | some .blockEntry =>
          if surroundings = .mapping then return .sequence (<- plainElements handles bound) else missing
      | some .blockSequenceStart =>
          if surroundings = .flow then missing
          else
            skip
            return .sequence (<- blockElements handles bound)
      | some .blockMappingStart =>
          if surroundings = .flow then missing
          else
            skip
            return .mapping (<- blockEntries handles bound)
      | _ => missing

/-- Take the elements of a block sequence and its end. -/
def blockElements (handles : Handles) (bound : Nat) : Composing (List Node) :=
  match bound with
  | 0 => failure
  | bound + 1 => do
      if <- accept .blockEnd then
        return []
      else
        expect .blockEntry
        let first <- partBefore [.blockEntry, .blockEnd] (node handles bound .block)
        return first :: (<- blockElements handles bound)

/-- Take the elements of a sequence at the column of the mapping around it. -/
def plainElements (handles : Handles) (bound : Nat) : Composing (List Node) :=
  match bound with
  | 0 => failure
  | bound + 1 => do
      if <- accept .blockEntry then
        let first <- partBefore [.blockEntry, .key, .value, .blockEnd] (node handles bound .block)
        return first :: (<- plainElements handles bound)
      else
        return []

/-- Take the entries of a block mapping and its end. -/
def blockEntries (handles : Handles) (bound : Nat) : Composing (List (Node × Node)) :=
  match bound with
  | 0 => failure
  | bound + 1 => do
      if <- accept .blockEnd then
        return []
      else
        let part := partBefore [.key, .value, .blockEnd] (node handles bound .mapping)
        expect .key
        let key <- part
        let value <- if <- accept .value then part else pure .absent
        return (key, value) :: (<- blockEntries handles bound)

/-- Take the elements of a flow sequence and its end. A key makes an element that is a mapping with one
entry; what comes in place of the key is passed over. -/
def flowElements (handles : Handles) (bound : Nat) (isFirst : Bool) : Composing (List Node) :=
  match bound with
  | 0 => failure
  | bound + 1 => do
      if <- accept .flowSequenceEnd then
        return []
      else
        unless isFirst do expect .flowEntry
        if <- accept .key then
          let isMissing <- isNext [.value, .flowEntry, .flowSequenceEnd]
          if isMissing then skip
          let key <- if isMissing then pure .absent else node handles bound .flow
          let part := partBefore [.flowEntry, .flowSequenceEnd] (node handles bound .flow)
          let value <- if <- accept .value then part else pure .absent
          return .mapping [(key, value)] :: (<- flowElements handles bound false)
        else if <- accept .flowSequenceEnd then
          return []
        else
          let first <- node handles bound .flow
          return first :: (<- flowElements handles bound false)

/-- Take the entries of a flow mapping and its end; an entry may be a key alone. -/
def flowEntries (handles : Handles) (bound : Nat) (isFirst : Bool) : Composing (List (Node × Node)) :=
  match bound with
  | 0 => failure
  | bound + 1 => do
      if <- accept .flowMappingEnd then
        return []
      else
        unless isFirst do expect .flowEntry
        if <- accept .key then
          let key <- partBefore [.value, .flowEntry, .flowMappingEnd] (node handles bound .flow)
          let part := partBefore [.flowEntry, .flowMappingEnd] (node handles bound .flow)
          let value <- if <- accept .value then part else pure .absent
          return (key, value) :: (<- flowEntries handles bound false)
        else if <- accept .flowMappingEnd then
          return []
        else
          let key <- node handles bound .flow
          return (key, .absent) :: (<- flowEntries handles bound false)

end

/-! ### Documents -/

/-- What the directives of a document say. -/
structure Directives where
  hasVersion : Bool := false
  handles : Handles := []

/-- Add what a token says, if it is a directive. Versions 1.1 and 1.2 are known, and nothing is said twice. -/
def Directives.add? (directives : Directives) : Token -> Option (Option Directives)
  | .versionDirective major minor =>
      let isKnown := major = 1 && (minor = 1 || minor = 2)
      some (if isKnown && !directives.hasVersion then some { directives with hasVersion := true } else none)
  | .tagDirective handle start =>
      let isNew := (directives.handles.lookup handle).isNone
      some (if isNew then some { directives with handles := directives.handles ++ [(handle, start)] } else none)
  | _ => none

/-- What the directives before a document say, and the tokens after them. -/
def readDirectives : Directives -> List Token -> Option (Directives × List Token)
  | directives, [] => some (directives, [])
  | directives, token :: rest =>
      match directives.add? token with
      | some (some directives) => readDirectives directives rest
      | some none => none
      | none => some (directives, token :: rest)

/-- The token can only stand between documents. -/
def Token.isOutside : Token -> Bool
  | .versionDirective .. | .tagDirective .. | .documentStart | .documentEnd => true
  | _ => false

/-- Take the node of a document after its start. -/
def startedNode (handles : Handles) (bound : Nat) : Composing Node := do
  if (<- peek?).all Token.isOutside then return .absent else node handles bound .block

/-- The node of the only document of some tokens; no tokens describe nothing. -/
def Node.ofTokens? (tokens : List Token) : Option (Option Node) := do
  if tokens.isEmpty then return none
  else
    let (directives, body) <- readDirectives {} tokens
    let handles := directives.handles ++ usualHandles
    let bound := 4 * tokens.length + 4
    let isImplicit := body.length = tokens.length && body.head? ≠ some .documentStart
    let reader : Composing Node := do
      if isImplicit then node handles bound .block
      else
        expect .documentStart
        startedNode handles bound
    let (node, unread) <- reader { tokens := body }
    guard (unread.tokens.all fun token => token = .documentEnd)
    return some node

end Yaml

/-!
## Reading configuration in YAML

A text is one document of any form that versions 1.1 and 1.2 of the format share: block and flow collections,
scalars in every style, anchors, tags and directives. A text without a document sets nothing.
-/

/-- Read a value. -/
def Value.ofYaml? (text : Text) : Option Value := do
  let tokens <- Yaml.tokens? text
  match <- Yaml.Node.ofTokens? tokens with
  | some node => return node.toValue
  | none => return .table []

end Config
end Lossless
