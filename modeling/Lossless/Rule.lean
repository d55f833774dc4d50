import Lossless.Visit

/-!
# Rules

A rule says what to do when a hook is reached at a node, space or marker of a given kind and name. A
visitor carries a list of rules and tries them in order at every hook; each rule counts how often it was
tried and matched, and one that is bound to an occurrence fires at that count alone. What a visitor meets
can be recorded as events.
-/

namespace Lossless

/-- The points of a visit at which rules are tried. -/
inductive Hook
  /-- Whether a node is wanted. -/
  | acceptable
  /-- Whether a source file is wanted. -/
  | source
  | before
  | after
  /-- At the dispatch on a node. -/
  | visit
  | space
  | marker
  deriving DecidableEq

/-- The hook with a name. -/
def Hook.ofName? (name : String) : Option Hook :=
  [("acceptable", acceptable), ("source", source), ("pre", before), ("post", after), ("visit", visit),
    ("space", space), ("marker", marker)].lookup name

/-- What a rule does to a node of type `τ`; `ρ` is the type of rules. -/
inductive Action (ρ τ : Type)
  | delete
  | fail (cause : Cause)
  | rename
  | annotate
  | mark
  | unmark
  | lead
  | replace (node : τ)
  /-- Leave out the children of the node and the hook after it. -/
  | skipChildren
  /-- Let a new visitor with these rules run over the result. -/
  | queueRules (rules : List ρ)
  | keep

/-- A rule on nodes of type `τ`. -/
structure Rule (τ : Type) where
  hook : Hook
  /-- The kind to match, any if absent. -/
  kind : Option Text
  /-- The name to match, any if absent. -/
  name : Option Text
  /-- The match to fire at, counted from zero; every one if absent. -/
  occurrence : Option Nat
  /-- The text that the action works with. -/
  argument : Option Text
  /-- Whether a node that is left by the action at its dispatch is walked through afterwards. -/
  descends : Bool
  action : Action (Rule τ) τ

/-- What a visitor met. -/
inductive Event
  | before (kind text : Text)
  | after (kind text : Text)
  | path (text path : Text) (depth : Nat) (parentKind : Option Text)
  | space (place : Text) (space : Space)
  | marker (fact : Fact Space)
  | source (language path : Text) (charset : Option Text) (hasAttributes : Bool) (eof : Space)

/-- The kinds of events. -/
inductive EventKind
  | before
  | after
  | path
  | space
  | marker
  | source
  deriving DecidableEq

/-- The kind of events with a name. -/
def EventKind.ofName? (name : String) : Option EventKind :=
  [("pre", before), ("post", after), ("path", path), ("space", space), ("marker", marker),
    ("source", source)].lookup name

/-- The kind of an event. -/
def Event.kind : Event -> EventKind
  | before .. => .before
  | after .. => .after
  | path .. => .path
  | space .. => .space
  | marker .. => .marker
  | source .. => .source

/-- The events of the kinds that are asked for. -/
structure EventLog where
  wanted : List EventKind
  events : List Event := []

/-- What the root of a source file says about the file. -/
structure SourceSummary where
  language : Text
  path : Text
  charset : Option Text
  hasAttributes : Bool
  eof : Space

/-- A node that rules can be applied to. -/
class RuleNode (τ : Type) extends VisitNode τ where
  text : τ -> Text
  withLeading : τ -> Space -> τ
  markers : τ -> Markers Space
  withMarkers : τ -> Markers Space -> τ
  rename : τ -> Text -> τ
  withTypeTag : τ -> Text -> τ
  height : τ -> Nat
  sourceSummary? : τ -> Option SourceSummary

/-- Rules with their counts. -/
abbrev RuleSet (τ : Type) := List (Rule τ × Nat)

namespace Rule

/-- Rules that have not been tried yet. -/
def fresh (rules : List (Rule τ)) : RuleSet τ :=
  rules.map fun rule => (rule, 0)

/-- The rule is about this hook, kind and name. -/
def matchesAt
    (hook : Hook)
    (kind name : Text)
    (rule : Rule τ) : Bool :=
  rule.hook = hook && rule.kind.all (fun wanted => wanted = kind) &&
    rule.name.all (fun wanted => wanted = name)

/-- Try rules in order up to the first that fires, and count the matches. -/
def tryInOrder
    (hook : Hook)
    (kind name : Text) : RuleSet τ -> Option (Rule τ) × RuleSet τ
  | [] => (none, [])
  | (rule, count) :: rest =>
      if rule.matchesAt hook kind name then
        if rule.occurrence.all (fun wanted => wanted = count) then
          (some rule, (rule, count + 1) :: rest)
        else
          let (fired, rest) := tryInOrder hook kind name rest
          (fired, (rule, count + 1) :: rest)
      else
        let (fired, rest) := tryInOrder hook kind name rest
        (fired, (rule, count) :: rest)

/-! ## Bounds -/

mutual

/-- How many times a visitor with this rule can queue a visitor in turn. -/
def generations : Rule τ -> Nat
  | ⟨_, _, _, _, _, _, action⟩ => actionGenerations action

def actionGenerations : Action (Rule τ) τ -> Nat
  | .queueRules rules => listGenerations rules + 1
  | _ => 0

def listGenerations : List (Rule τ) -> Nat
  | [] => 0
  | rule :: rest => max (generations rule) (listGenerations rest)

end

/-- The height of the node that a rule puts in place of another. -/
def replacementHeight
    [RuleNode τ]
    (rule : Rule τ) : Nat :=
  match rule.action with
  | .replace node => RuleNode.height node
  | _ => 0

/--
How deep a visit by rules can go. A replacement is visited in turn, and a rule that fires twice on one way
down without another rule's count having changed in between fires without end.
-/
def depthBound
    [RuleNode τ]
    (rules : RuleSet τ)
    (tree : τ) : Nat :=
  let counts := rules.foldr (fun (rule, _) total => (rule.occurrence.map (· + 1)).getD 0 + total) 0
  let heights := rules.foldr (fun (rule, _) total => rule.replacementHeight + total) 0
  RuleNode.height tree + (heights + 1) * (counts + 1)

end Rule

/-- A step of a visit by rules. -/
abbrev RuleVisit (τ ω : Type) := VisitM τ ω (RuleSet τ) EventLog

namespace RuleVisit

/-- Record an event, if its kind is asked for. -/
def record (event : Event) : RuleVisit τ ω Unit :=
  modify fun state =>
    if event.kind ∈ state.world.wanted then
      { state with world := { state.world with events := state.world.events ++ [event] } }
    else state

/-- The rule that fires at a hook. -/
def fire?
    (hook : Hook)
    (kind name : Text) : RuleVisit τ ω (Option (Rule τ)) := do
  let state <- get
  let (fired, rules) := Rule.tryInOrder hook kind name state.own
  set { state with own := rules }
  return fired

variable [RuleNode τ]

/-- Carry out the action of a rule on a node. -/
def perform
    (rule : Rule τ)
    (tree : τ) : RuleVisit τ ω (Option τ) :=
  let argument := rule.argument.getD []
  match rule.action with
  | .delete => return none
  | .fail cause => throw (.ofCause cause)
  | .rename => return some (RuleNode.rename tree argument)
  | .annotate => return some (RuleNode.withTypeTag tree argument)
  | .mark =>
      let marked := (RuleNode.markers tree).add (.build (.searchResult rule.argument))
      return some (RuleNode.withMarkers tree marked)
  | .unmark =>
      let unmarked := (RuleNode.markers tree).remove Fact.searchResult?
      return some (RuleNode.withMarkers tree unmarked)
  | .lead => return some (RuleNode.withLeading tree (.format argument))
  | .replace node => return some node
  | .skipChildren => do
      VisitM.putMessage skipChildrenKey (.truth true)
      return some tree
  | .queueRules rules => do
      VisitM.queueAfter { own := Rule.fresh rules }
      return some tree
  | .keep => return some tree

/-- Try the rules of a hook at a node. -/
def tryAtNode
    (hook : Hook)
    (tree : τ) : RuleVisit τ ω (Option τ) := do
  match <- fire? hook (Named.kindName tree) (RuleNode.text tree) with
  | some rule => perform rule tree
  | none => return some tree

/-- The node is wanted unless a rule says otherwise. -/
def accepts (tree : τ) : RuleVisit τ ω Bool := do
  return (<- fire? .acceptable (Named.kindName tree) (RuleNode.text tree)).isNone

/-- The source file is wanted unless a rule says otherwise. -/
def acceptsSource (tree : τ) : RuleVisit τ ω Bool := do
  match RuleNode.sourceSummary? tree with
  | none => return true
  | some summary =>
      record (.source summary.language summary.path summary.charset summary.hasAttributes
        summary.eof)
      return (<- fire? .source summary.language []).isNone

def before (tree : τ) : RuleVisit τ ω (Option τ) := do
  record (.before (Named.kindName tree) (RuleNode.text tree))
  tryAtNode .before tree

def after (tree : τ) : RuleVisit τ ω (Option τ) := do
  record (.after (Named.kindName tree) (RuleNode.text tree))
  tryAtNode .after tree

variable [Named ω]

/-- The event of a dispatch at the current frames. -/
def pathEvent
    (tree : τ)
    (cursor : Cursor (FrameValue τ ω)) : Event :=
  .path (RuleNode.text tree) cursor.path.describe cursor.depth
    (cursor.parentTree?.map fun parent => parent.top.value.kindName)

/-- A dispatch: a rule stands in for the walk through the node, unless it descends. -/
def dispatch
    (descend : τ -> RuleVisit τ ω (Option τ))
    (tree : τ) : RuleVisit τ ω (Option τ) := do
  record (pathEvent tree (<- get).cursor)
  match <- fire? .visit (Named.kindName tree) (RuleNode.text tree) with
  | none => descend tree
  | some rule =>
      match <- perform rule tree with
      | none => return none
      | some node => if rule.descends then descend node else return some node

/-- A rule on a space fails or puts another space in its place. -/
def space
    (place : Text)
    (space : Space) : RuleVisit τ ω Space := do
  record (.space place space)
  match <- fire? .space place space.whitespace with
  | none => return space
  | some rule =>
      match rule.action with
      | .fail cause => throw (.ofCause cause)
      | _ => return .format (rule.argument.getD [])

/-- A rule on a marker fails or describes a search result anew. -/
def marker (marker : Marker Space) : RuleVisit τ ω (Marker Space) := do
  record (.marker marker.fact)
  match <- fire? .marker marker.fact.kindName [] with
  | none => return marker
  | some rule =>
      match rule.action, marker.fact with
      | .fail cause, _ => throw (.ofCause cause)
      | _, .searchResult _ => return marker.withFact (.searchResult rule.argument)
      | _, _ => return marker

end RuleVisit

/-- The outcome of one of several runs of a visitor. -/
structure RunReport (τ ω : Type) where
  outcome : Except Error (Option τ)
  events : List Event
  /-- The frames on which the run left the visitor. -/
  cursor : Cursor (FrameValue τ ω)
  stop : StopAfter

/-- Run a visitor several times from the same start; its state goes on from run to run. -/
def runRepeatedly
    (visit : RuleVisit τ ω (Option τ)) :
    Nat -> VisitState τ ω (RuleSet τ) EventLog -> List (RunReport τ ω)
  | 0, _ => []
  | runs + 1, state =>
      let (outcome, left) := visit.runFrom
        { state with world := { state.world with events := [] } }
      ⟨outcome, left.world.events, left.cursor, left.stop⟩ :: runRepeatedly visit runs left

end Lossless
