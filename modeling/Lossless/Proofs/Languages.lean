import Lossless.Proofs.Java.Drawn
import Lossless.Proofs.Java.Edited
import Lossless.Proofs.Java.Progress
import Lossless.Proofs.Java.Renaming
import Lossless.Proofs.Java.Reported
import Lossless.Proofs.Json.Drawn
import Lossless.Proofs.Json.Edited
import Lossless.Proofs.Json.Progress
import Lossless.Proofs.Json.Renaming
import Lossless.Proofs.Json.Reported

/-!
# What holds of syntax trees and of data trees

The two languages share visitors, printing and the edits of lists. What is shown for each of them by itself is put
together here: a renaming visit is local, a visit goes over a tree as the printer does, the identifiers of a parsed
tree stay distinct, and parsing goes through a source from position to position.
-/

namespace Lossless

/-!
## Renaming is local

A visit that does nothing but rename changes names and nothing else, in syntax trees and in data trees alike;
what holds no changed name is the very same cell as before. A visit that does nothing returns its tree.
-/

/-- What a renaming visit does to a syntax tree, and what it leaves alone. -/
structure Java.RenamingIsLocal
    (σ γ : Type)
    (change : Text -> Text) : Prop where
  /-- The visit gives the tree with the other names and leaves the visitor as it was. -/
  renames : forall tree cursor (own : σ) (world : γ),
    (Visitor.renamer change).run tree (.start cursor .never own world) =
      (.ok (some (tree.mapNames change)), .start cursor .never own world)
  idles : forall tree cursor (own : σ) (world : γ),
    ({} : Visitor σ γ).run tree (.start cursor .never own world) =
      (.ok (some tree), .start cursor .never own world)
  /-- Node by node, identifier, space and markers stay, and so does all of the form but its names. -/
  keeps : forall tree : Tree,
    (tree.mapNames change).id = tree.id ∧ (tree.mapNames change).leading = tree.leading ∧
      (tree.mapNames change).markers = tree.markers ∧
      (tree.mapNames change).form = (tree.form.map (Tree.mapNames change)).mapName change
  nodes : forall tree : Tree, (tree.mapNames change).nodes = tree.nodes.map (Tree.mapNames change)
  /-- A node is the very same cell just when no name in it changes. -/
  same : forall tree : Tree,
    tree.mapNames change = tree ↔ forall name, name ∈ tree.names -> change name = name

/-- What a renaming visit does to a data tree, and what it leaves alone. -/
structure Json.RenamingIsLocal
    (σ γ : Type)
    (change : Text -> Text) : Prop where
  /-- The visit gives the tree with the other names and leaves the visitor as it was. -/
  renames : forall tree cursor (own : σ) (world : γ),
    (Visitor.renamer change).run tree (.start cursor .never own world) =
      (.ok (some (tree.mapNames change)), .start cursor .never own world)
  idles : forall tree cursor (own : σ) (world : γ),
    ({} : Visitor σ γ).run tree (.start cursor .never own world) =
      (.ok (some tree), .start cursor .never own world)
  /-- Node by node, identifier, space and markers stay, and so does all of the form but its names. -/
  keeps : forall tree : Tree,
    (tree.mapNames change).id = tree.id ∧ (tree.mapNames change).leading = tree.leading ∧
      (tree.mapNames change).markers = tree.markers ∧
      (tree.mapNames change).form = (tree.form.map (Tree.mapNames change)).mapName change
  nodes : forall tree : Tree, (tree.mapNames change).nodes = tree.nodes.map (Tree.mapNames change)
  /-- A node is the very same cell just when no name in it changes. -/
  same : forall tree : Tree,
    tree.mapNames change = tree ↔ forall name, name ∈ tree.names -> change name = name

/-- Renaming is local in syntax trees and in data trees, whatever becomes of the names. -/
theorem renaming_isLocal
    (σ γ : Type)
    (change : Text -> Text) :
    Java.RenamingIsLocal σ γ change ∧ Json.RenamingIsLocal σ γ change := by
  constructor
  · refine ⟨fun tree _ _ _ => Java.Visitor.renamer_answers change tree _ ⟨rfl, rfl⟩,
      fun tree _ _ _ => Java.Visitor.idle_answers tree _ ⟨rfl, rfl⟩, fun tree => ?_,
      Java.Tree.nodes_mapNames change, Java.Tree.mapNames_eq_self_iff change⟩
    obtain ⟨head, form⟩ := tree
    rw [Java.Tree.mapNames_node]
    exact ⟨rfl, rfl, rfl, rfl⟩
  · refine ⟨fun tree _ _ _ => Json.Visitor.renamer_answers change tree _ ⟨rfl, rfl⟩,
      fun tree _ _ _ => Json.Visitor.idle_answers tree _ ⟨rfl, rfl⟩, fun tree => ?_,
      Json.Tree.nodes_mapNames change, Json.Tree.mapNames_eq_self_iff change⟩
    obtain ⟨head, form⟩ := tree
    rw [Json.Tree.mapNames_node]
    exact ⟨rfl, rfl, rfl, rfl⟩

/-- Renaming the target of an assignment makes two new cells and keeps that of the value. -/
theorem renaming_of_assignment :
    let plain := Java.Tree.build (.assignment (.identifier ['x']) (.build (.identifier ['y'])) none)
    let tree := (plain.settle 0).1
    let change := fun name : Text => if name = ['x'] then ['z'] else name
    ((Java.Visitor.renamer change : Java.Visitor Unit Unit).run tree (.start .root .never () ())).1 =
        .ok (some (tree.mapNames change)) ∧
      (tree.mapNames change).names = [['z'], ['y']] ∧
      (tree.mapNames change).nodes.map (fun node => node.head.stamp) = [.pending, .pending, .settled 4] ∧
      (tree.mapNames change).nodes[2]? = tree.nodes[2]? := by
  intro plain tree change
  have isLocal := (renaming_isLocal Unit Unit change).1
  exact ⟨congrArg Prod.fst (isLocal.renames tree .root () ()), rfl, rfl, rfl⟩

/-!
## Visiting follows printing

The default visitor and the printer list the spaces of a tree independently of each other. They list the same
ones in the same order, and nodes are dispatched on in the order in which they are printed.
-/

/-- What is reported of a visit of a syntax tree is what is printed of the tree. -/
structure Java.FollowsPrinting
    (tree : Tree)
    (log : List (Report Tree SpacePlace)) : Prop where
  /-- Every slot is read once, with its location and in source order. -/
  reads : Report.spaces log = tree.slots
  /-- In every dialect these are the printed spaces, but for those behind trailing commas. -/
  prints : forall dialect,
    (Piece.spaces (tree.pieces dialect)).filter (fun slot => slot.1.isSlot) = Report.spaces log
  /-- What is reported of the children of a node stands between the hooks before and after the node. -/
  isTour : IsTour Tree.children [tree] log
  /-- Every node is dispatched on once, before the nodes below it. -/
  dispatches : Report.dispatched log = tree.nodes
  printsNodes : forall dialect,
    Piece.starts (tree.pieces dialect) = (Report.dispatched log).map Tree.id

/-- What is reported of a visit of a data tree is what is printed of the tree. -/
structure Json.FollowsPrinting
    (tree : Tree)
    (log : List (Report Tree Unit)) : Prop where
  /-- Every slot is read once and in source order. -/
  reads : Report.spaces log = tree.slots
  prints : Piece.spaces tree.pieces = Report.spaces log
  /-- What is reported of the children of a node stands between the hooks before and after the node. -/
  isTour : IsTour Tree.children [tree] log
  /-- Every node is dispatched on once, before the nodes below it. -/
  dispatches : Report.dispatched log = tree.nodes
  printsNodes : Piece.starts tree.pieces = (Report.dispatched log).map Tree.id

theorem Java.followsPrinting_of_tour
    {tree : Tree}
    {log : List (Report Tree SpacePlace)}
    (tour : IsTour Tree.children [tree] log)
    (reads : Report.spaces log = tree.slots) :
    FollowsPrinting tree log := by
  have nodes (tree : Tree) : tree.nodes = tree :: tree.children.flatMap Tree.nodes := by
    obtain ⟨head, form⟩ := tree
    exact Tree.nodes_node head form
  have dispatches : Report.dispatched log = tree.nodes := by simpa using tour.dispatched nodes
  exact {
    reads := reads
    prints := fun dialect => (slots_pieces dialect tree).trans reads.symm
    isTour := tour
    dispatches := dispatches
    printsNodes := fun dialect => by rw [dispatches, starts_pieces] }

theorem Json.followsPrinting_of_tour
    {tree : Tree}
    {log : List (Report Tree Unit)}
    (tour : IsTour Tree.children [tree] log)
    (reads : Report.spaces log = tree.slots) :
    FollowsPrinting tree log := by
  have nodes (tree : Tree) : tree.nodes = tree :: tree.children.flatMap Tree.nodes := by
    obtain ⟨head, form⟩ := tree
    exact Tree.nodes_node head form
  have dispatches : Report.dispatched log = tree.nodes := by simpa using tour.dispatched nodes
  exact {
    reads := reads
    prints := (slots_pieces tree).trans reads.symm
    isTour := tour
    dispatches := dispatches
    printsNodes := by rw [dispatches, starts_pieces] }

/--
The default visitor goes over every syntax tree and every data tree as the printer does, and hands the tree
back as it is.
-/
theorem visiting_followsPrinting (γ : Type) :
    (forall (tree : Java.Tree) cursor own (world : γ), exists log,
      Java.reporter.run tree (.start cursor .never own world) =
        (.ok (some tree), .start cursor .never (own ++ log) world) ∧
      Java.FollowsPrinting tree log) ∧
    forall (tree : Json.Tree) cursor own (world : γ), exists log,
      Json.reporter.run tree (.start cursor .never own world) =
        (.ok (some tree), .start cursor .never (own ++ log) world) ∧
      Json.FollowsPrinting tree log := by
  constructor
  · intro tree cursor own world
    obtain ⟨log, logs, tour, reads⟩ := Java.reporter_tours tree
    exact ⟨log, logs own _ ⟨rfl, rfl⟩ rfl, Java.followsPrinting_of_tour tour reads⟩
  · intro tree cursor own world
    obtain ⟨log, logs, tour, reads⟩ := Json.reporter_tours tree
    exact ⟨log, logs own _ ⟨rfl, rfl⟩ rfl, Json.followsPrinting_of_tour tour reads⟩

/-!
## Identifiers stay distinct

A parsed tree has distinct identifiers, whether each node gets one as it is built or the finished tree is numbered. No
run of edits of its lists comes to two nodes with one identifier, and so no edit is ever refused for that reason.
-/

open Lossless.Language Lossless.ListLanguage

variable {τ ω : Type}

/-- The identifiers of parsed trees are distinct, and they stay so over all runs of edits. -/
structure Language.KeepsIdsDistinct
    (τ : Type)
    {ω : Type}
    [ListLanguage τ ω]
    (parseDrawn : Text -> Path -> Nat -> Except Error (τ × Nat))
    (anonymous : τ -> τ) : Prop where
  /-- A parser that draws an identifier for every node it builds gives the trees of the parser that leaves them open. -/
  reads : forall source path next,
    (parseDrawn source path next).map (fun drawn => anonymous drawn.1) = Language.parse source path
  /-- A tree whose nodes got their identifiers when they were built has each of them once. -/
  parsed : forall source path next state, parseDrawn source path next = .ok state -> Numbered state
  /-- A tree that is numbered after it was parsed has each of its identifiers once. -/
  settled : forall source path next (tree : τ), Language.parse source path = .ok tree ->
    Numbered ((settle tree).run next)
  /-- After every run of edits the identifiers are distinct. -/
  keeps : forall start state : τ × Nat, Numbered start -> Relation.ReflTransGen Edits start state ->
    (ids state.1).Nodup
  /-- After every run of edits the next one is done, whatever list it is and whichever suitable items it gets. -/
  accepts : forall start state : τ × Nat, Numbered start -> Relation.ReflTransGen Edits start state ->
    forall owner old items, owner ∈ nodes state.1 -> elements? owner = some old -> Item.Suit state.1 state.2 items ->
      exists edited, withElements owner (items.filterMap (Item.resolve? (RightPadded.elements old))) = .ok edited

/-- A language keeps identifiers distinct when its nodes can be built with identifiers of their own. -/
theorem Language.keepsIdsDistinct
    [ListLanguage τ ω]
    [LawfulListLanguage τ]
    {parseDrawn : Text -> Path -> Nat -> Except Error (τ × Nat)}
    {anonymous : τ -> τ}
    (reads : forall source path next,
      (parseDrawn source path next).map (fun drawn => anonymous drawn.1) = Language.parse source path)
    (draws : forall source path next tree later, parseDrawn source path next = .ok (tree, later) ->
      next ≤ later ∧ stamps tree ≤ Stamp.drawn next later)
    (leavesOpen : forall tree stamp, stamp ∈ ids (anonymous tree) -> stamp = .pending) :
    KeepsIdsDistinct τ parseDrawn anonymous where
  reads := reads
  parsed := by
    rintro source path next ⟨tree, later⟩ parsed
    obtain ⟨climbs, areDrawn⟩ := draws source path next tree later parsed
    exact .of_drawn climbs areDrawn
  settled := by
    intro source path next tree parsed
    apply numbered_settle
    have read := reads source path 0
    rw [parsed] at read
    cases outcome : parseDrawn source path 0 with
    | error error =>
        rw [outcome] at read
        cases read
    | ok drawn =>
        rw [outcome] at read
        obtain rfl := Except.ok.inj read
        exact leavesOpen drawn.1
  keeps := fun _ _ numbered run => (numbered.run run).distinct
  accepts := by
    rintro start ⟨tree, next⟩ numbered run owner old items member isList suit
    obtain ⟨edited, isDone, -⟩ := (numbered.run run).edit member isList suit
    exact ⟨edited, isDone⟩

/-- Syntax trees and data trees have distinct identifiers, from the parser on and over all runs of edits. -/
theorem identifiers_stayDistinct :
    KeepsIdsDistinct Java.Tree Java.Drawing.parse Java.Tree.anonymous ∧
      KeepsIdsDistinct Json.Tree Json.Drawing.parse Json.Tree.anonymous :=
  ⟨keepsIdsDistinct Java.Drawing.parse_reads (fun _ _ _ _ _ => Java.Drawing.parse_draws) Java.Tree.ids_anonymous,
    keepsIdsDistinct Json.Drawing.parse_reads (fun _ _ _ _ _ => Json.Drawing.parse_draws) Json.Tree.ids_anonymous⟩

/-- The arguments of a call change places, one with another name, and a new one comes between them. -/
example :
    ((Java.Drawing.parse "f(a, b);".toList ⟨"A.java".toList⟩ 0).toOption.bind fun (tree, next) => do
      let call <- tree.nodes[1]?
      let items := [.renamed 1 ['c'], .fresh (.identifier ['d']), .existing 0]
      let edited <- (tree.editList call items).toOption
      let numbered := (edited.tree.settle.run next).1
      return (tree.ids, numbered.printTrimmed, numbered.ids)) =
      some ([4, 3, 2, 0, 1].map .settled, "f( c,d,a);".toList, [4, 3, 2, 1, 10, 0].map .settled) := by
  decide +kernel

/-!
## Parsing keeps to the source

A parser goes on from one position of its source to another, and no source keeps it from coming to an end.
-/

/--
Both grammars keep to the positions of every source, their loops and recursions end, and a parse that fails reports a
position of the source.
-/
theorem parsing_keepsPositions (source : Text) :
    (Java.KeepsPositions source ∧ Java.RestoresPositions ∧ Java.LoopsEnd source ∧
        forall path, (Java.Parser.unit path).EndsIn source) ∧
      Json.KeepsPositions source ∧ Json.LoopsEnd source ∧ forall path, (Json.Parser.document path).EndsIn source :=
  ⟨⟨Java.keepsPositions source, Java.restoresPositions, Java.loopsEnd source,
      fun path => ((Java.keepsPositions source).units path).endsIn⟩,
    Json.keepsPositions source, Json.loopsEnd source, fun path => ((Json.keepsPositions source).documents path).endsIn⟩

end Lossless
