import Lossless.Language
import Lossless.Proofs.Drawn
import Lossless.Proofs.Visit.Answers
import Mathlib.Algebra.Order.BigOperators.Group.List
import Mathlib.Data.List.Perm.Subperm
import Mathlib.Logic.Relation

/-!
# Edits of trees

A node is replaced where it stands, and the list of a node gets other elements.
-/

namespace Lossless

/-!
## Replacing one node

The visitor that replaces a node carries what is left to replace, and nothing once it has replaced it. So behind trees
with other identifiers it still replaces, and behind the tree that holds the node it does not.
-/

namespace Replacement

open VisitM

variable {τ ω γ : Type}

/-- What is left to replace behind trees with the given identifiers. -/
def behind
    (own : Replacement τ)
    (ids : List Stamp) : Replacement τ :=
  own.filter fun pair => pair.1 ∉ ids

theorem behind_nil (own : Replacement τ) : behind own [] = own := by
  cases own <;> rfl

theorem behind_append
    (own : Replacement τ)
    (first second : List Stamp) :
    behind (behind own first) second = behind own (first ++ second) := by
  cases own with
  | none => rfl
  | some pair =>
      by_cases early : pair.1 ∈ first <;> by_cases late : pair.1 ∈ second <;>
        simp [behind, Option.filter, early, late]

/-- A node that is not replaced itself leaves as much to replace as its children do. -/
theorem behind_cons
    {own : Replacement τ}
    {id : Stamp}
    (elsewhere : forall pair, own = some pair -> id ≠ pair.1)
    (ids : List Stamp) :
    behind own (id :: ids) = behind own ids := by
  cases own with
  | none => rfl
  | some pair =>
      have other := (elsewhere pair rfl).symm
      simp [behind, Option.filter, other]

/-- The tree in which what is left to replace is replaced. -/
def appliedTo
    (substitute : τ -> Stamp -> τ -> τ)
    (own : Replacement τ)
    (tree : τ) : τ :=
  match own with
  | some (target, replacement) => substitute tree target replacement
  | none => tree

/-- Behind other trees a tree is changed as by itself. -/
theorem appliedTo_behind
    {substitute : τ -> Stamp -> τ -> τ}
    {tree : τ}
    {before ids : List Stamp}
    (stays : forall target replacement, target ∉ ids -> substitute tree target replacement = tree)
    (disjoint : forall stamp, stamp ∈ before -> stamp ∉ ids)
    (own : Replacement τ) :
    appliedTo substitute (behind own before) tree = appliedTo substitute own tree := by
  cases own with
  | none => rfl
  | some pair =>
      by_cases early : pair.1 ∈ before
      · have nothing : behind (some pair) before = none := by simp [behind, Option.filter, early]
        rw [nothing]
        exact (stays pair.1 pair.2 (disjoint pair.1 early)).symm
      · simp [behind, Option.filter, early]

/-- Trees with distinct identifiers are changed one after another as each by itself. -/
theorem proceeds
    {substitute : τ -> Stamp -> τ -> τ}
    {ids : τ -> List Stamp}
    (stays : forall tree target replacement, target ∉ ids tree -> substitute tree target replacement = tree)
    {visit : τ -> VisitM τ ω (Replacement τ) γ (Option τ)}
    {list : List τ}
    (each : forall tree, tree ∈ list -> forall own,
      (visit tree).Moves own (behind own (ids tree)) (some (appliedTo substitute own tree)))
    (distinct : (list.flatMap ids).Nodup)
    (own : Replacement τ) :
    Proceeds visit (appliedTo substitute own) own list (behind own (list.flatMap ids)) := by
  suffices after : forall before, (before ++ list.flatMap ids).Nodup ->
      Proceeds visit (appliedTo substitute own) (behind own before) list (behind own (before ++ list.flatMap ids)) by
    have fromStart := after [] distinct
    rwa [behind_nil] at fromStart
  clear distinct
  intro before disjoint
  induction list generalizing before with
  | nil =>
      rw [List.flatMap_nil, List.append_nil]
      exact .nil
  | cons first rest ih =>
      obtain ⟨here, later⟩ := List.forall_mem_cons.1 each
      rw [List.flatMap_cons, <- List.append_assoc] at disjoint ⊢
      have apart (stamp : Stamp) (early : stamp ∈ before) (late : stamp ∈ ids first) : False :=
        (List.nodup_append.1 (List.nodup_append.1 disjoint).1).2.2 stamp early stamp late rfl
      have moves := here (behind own before)
      rw [behind_append, appliedTo_behind (stays first) apart] at moves
      exact .cons moves (ih later _ disjoint)

section Dispatch

variable [VisitNode τ] {descend : τ -> VisitM τ ω (Replacement τ) γ (Option τ)} {tree : τ}
variable {state : VisitState τ ω (Replacement τ) γ}

theorem dispatch_of_here
    {replacement : τ}
    (own : state.own = some (Identified.id tree, replacement)) :
    dispatch descend tree state = (.ok (some replacement), { state with own := none }) := by
  obtain ⟨cursor, depth, queue, stop, _, world⟩ := state
  obtain rfl := own
  change (if Identified.id tree = Identified.id tree then _ else _ : VisitM τ ω (Replacement τ) γ (Option τ)) _ = _
  rw [if_pos rfl]
  rfl

theorem dispatch_of_elsewhere
    (elsewhere : forall pair, state.own = some pair -> Identified.id tree ≠ pair.1) :
    dispatch descend tree state = descend tree state := by
  obtain ⟨cursor, depth, queue, stop, own, world⟩ := state
  cases own with
  | none => rfl
  | some pair =>
      change (if Identified.id tree = pair.1 then _ else _ : VisitM τ ω (Replacement τ) γ (Option τ)) _ = _
      rw [if_neg (elsewhere pair rfl)]

/-- The dispatch at a node replaces the node, or goes on to its children. -/
theorem dispatch_moves
    {substitute : τ -> Stamp -> τ -> τ}
    {ids : List Stamp}
    (replaces : forall replacement, substitute tree (Identified.id tree) replacement = replacement)
    (descends : forall own, (forall pair, own = some pair -> Identified.id tree ≠ pair.1) ->
      (descend tree).Moves own (behind own ids) (some (appliedTo substitute own tree)))
    (own : Replacement τ) :
    (dispatch descend tree).Moves own (behind own (Identified.id tree :: ids)) (some (appliedTo substitute own tree)) := by
  intro state isQuiet atOwn
  by_cases here : exists pair, own = some pair ∧ Identified.id tree = pair.1
  · obtain ⟨⟨target, replacement⟩, rfl, rfl⟩ := here
    have nothingLeft : behind (some (Identified.id tree, replacement)) (Identified.id tree :: ids) = none := by
      simp [behind, Option.filter]
    rw [dispatch_of_here atOwn, nothingLeft, appliedTo, replaces]
  · have elsewhere (pair : Stamp × τ) (isOwn : own = some pair) : Identified.id tree ≠ pair.1 :=
      fun same => here ⟨pair, isOwn, same⟩
    rw [dispatch_of_elsewhere (atOwn ▸ elsewhere), behind_cons elsewhere]
    exact descends own elsewhere state isQuiet atOwn

end Dispatch

end Replacement

/-!
## Edits of the lists in a tree

An edit gives the list of a node other elements and puts the node back into its place. Its items take each element that
is there at most once, and bring nodes with identifiers of their own. So the edit brings no identifier that is in the
tree already, and the identifiers stay distinct from one edit to the next.
-/

/-! ### Elements at distinct places -/

namespace Stamp

variable {α : Type} {stamps : α -> Multiset Stamp}

theorem ofAll_of_perm
    {first second : List α}
    (isPermuted : first.Perm second) :
    ofAll stamps first = ofAll stamps second :=
  (isPermuted.map stamps).sum_eq

theorem ofAll_le_of_sublist
    {first second : List α}
    (isSublist : first.Sublist second) :
    ofAll stamps first ≤ ofAll stamps second :=
  (isSublist.map stamps).sum_le_sum fun _ _ => Multiset.zero_le _

theorem filterMap_range (list : List α) : (List.range list.length).filterMap (list[·]?) = list := by
  induction list with
  | nil => rfl
  | cons first rest ih => simpa [List.range_succ_eq_map, List.filterMap_map, Function.comp_def] using ih

/-- What stands at distinct indices of a list has no stamp more often than the list. -/
theorem ofAll_at_le
    (list : List α)
    {indices : List Nat}
    (distinct : indices.Nodup) :
    ofAll stamps (indices.filterMap (list[·]?)) ≤ ofAll stamps list := by
  have inRange : (indices.filter (· < list.length)).Subperm (List.range list.length) := by
    apply List.subperm_of_subset (distinct.filter _)
    intro index member
    exact List.mem_range.2 (by simpa using (List.mem_filter.1 member).2)
  obtain ⟨some, isPermuted, isSublist⟩ := inRange
  have sameElements : indices.filterMap (list[·]?) = (indices.filter (· < list.length)).filterMap (list[·]?) := by
    rw [List.filterMap_filter]
    apply List.filterMap_congr
    intro index _
    simp
  calc ofAll stamps (indices.filterMap (list[·]?))
    _ = ofAll stamps (some.filterMap (list[·]?)) := by rw [sameElements, ofAll_of_perm (isPermuted.filterMap _)]
    _ ≤ ofAll stamps ((List.range list.length).filterMap (list[·]?)) := ofAll_le_of_sublist (isSublist.filterMap _)
    _ = ofAll stamps list := by rw [filterMap_range]

end Stamp

/-! ### Languages with lists -/

variable {τ ω : Type}

/-- The identifiers of the nodes of a tree. -/
def Language.ids
    [Language τ ω]
    (tree : τ) : List Stamp :=
  (nodes tree).map Identified.id

/-- The identifiers of the nodes of a tree, each as often as it is there. -/
def Language.stamps
    [Language τ ω]
    (tree : τ) : Multiset Stamp :=
  (ids tree : Multiset Stamp)

/-- A language in which nodes can have lists of elements, and a node can be put in place of another one. -/
class ListLanguage (τ : Type) (ω : outParam Type) extends Language τ ω where
  elements? : τ -> Option (List (RightPadded τ))
  withElements : τ -> List τ -> Except Error τ
  replaceFirst : τ -> Stamp -> τ -> τ

open Lossless.Language Lossless.ListLanguage

/-- What edits and numbering do to the identifiers in a tree. -/
class LawfulListLanguage
    (τ : Type)
    {ω : outParam Type}
    [ListLanguage τ ω] : Prop where
  ids_withLeading : forall (tree : τ) leading, ids (RuleNode.withLeading tree leading) = ids tree
  ids_rename : forall (tree : τ) text, ids (RuleNode.rename tree text) = ids tree
  /-- In a tree with distinct identifiers every edit is done, and it exchanges the identifiers of the elements. -/
  edits : forall {tree owner : τ} {old : List (RightPadded τ)}, (ids tree).Nodup -> owner ∈ nodes tree ->
    elements? owner = some old -> forall list, exists edited, withElements owner list = .ok edited ∧
      stamps (replaceFirst tree (Identified.id owner) edited) + Stamp.ofAll stamps (RightPadded.elements old) =
        stamps tree + Stamp.ofAll stamps list
  /-- Numbering keeps the identifiers that were given and draws the others. -/
  settles : forall (tree : τ) next, next ≤ ((settle tree).run next).2 ∧
    stamps ((settle tree).run next).1 ≤ Stamp.given (stamps tree) + Stamp.drawn next ((settle tree).run next).2

/-! ### Items -/

namespace Item

/-- The index of the element that an item takes. -/
def index? : Item τ -> Option Nat
  | existing index => some index
  | fresh _ => none
  | spaced index _ => some index
  | renamed index _ => some index

/-- The node that an item brings. -/
def fresh? : Item τ -> Option τ
  | fresh tree => some tree
  | _ => none

variable [ListLanguage τ ω]

/-- The identifiers of the nodes that items bring. -/
def newIds (items : List (Item τ)) : List Stamp :=
  (items.filterMap fresh?).flatMap ids

/--
Items that suit a tree, when numbers are drawn up to the next one: they take each element at most once, and what they
bring has no identifiers yet, or distinct ones that were drawn and are not in the tree.
-/
structure Suit
    (tree : τ)
    (next : Nat)
    (items : List (Item τ)) : Prop where
  once : (items.filterMap index?).Nodup
  distinct : ((newIds items).filter (· ≠ .pending)).Nodup
  isNew : forall stamp, stamp ∈ newIds items -> stamp ≠ .pending ->
    stamp ∉ ids tree ∧ exists number, number < next ∧ stamp = .settled number

variable [LawfulListLanguage τ]

/-- What items stand for has the identifiers of the elements that they take and those of the nodes that they bring. -/
theorem stamps_resolve
    (elements : List τ)
    (items : List (Item τ)) :
    Stamp.ofAll stamps (items.filterMap (resolve? elements)) =
      Stamp.ofAll stamps ((items.filterMap index?).filterMap (elements[·]?)) +
        Stamp.ofAll stamps (items.filterMap fresh?) := by
  have withLeading (tree : τ) leading : stamps (RuleNode.withLeading tree leading) = stamps tree :=
    congrArg Multiset.ofList (LawfulListLanguage.ids_withLeading tree leading)
  have rename (tree : τ) text : stamps (RuleNode.rename tree text) = stamps tree :=
    congrArg Multiset.ofList (LawfulListLanguage.ids_rename tree text)
  induction items with
  | nil => rfl
  | cons first rest ih =>
      cases first with
      | fresh tree => simp [List.filterMap_cons, resolve?, index?, fresh?, ih, add_left_comm]
      | existing index =>
          cases taken : elements[index]? <;>
            simp [List.filterMap_cons, resolve?, index?, fresh?, ih, taken, add_assoc]
      | spaced index leading =>
          cases taken : elements[index]? <;>
            simp [List.filterMap_cons, resolve?, index?, fresh?, ih, taken, add_assoc, withLeading]
      | renamed index text =>
          cases taken : elements[index]? <;>
            simp [List.filterMap_cons, resolve?, index?, fresh?, ih, taken, add_assoc, rename]

end Item

/-! ### Numbered trees -/

variable [ListLanguage τ ω]

/-- The identifiers of the tree are distinct, and all are numbers that were drawn before the next one. -/
structure Numbered (state : τ × Nat) : Prop where
  distinct : (ids state.1).Nodup
  drawn : forall stamp, stamp ∈ ids state.1 -> exists number, number < state.2 ∧ stamp = .settled number

theorem Stamp.mem_drawn
    {stamp : Stamp}
    {low high : Nat} :
    stamp ∈ drawn low high ↔ exists number, (low ≤ number ∧ number < high) ∧ settled number = stamp := by
  simp [drawn]

/-- A tree is numbered when no identifier is in it more often than it was drawn. -/
theorem numbered_iff
    {tree : τ}
    {next : Nat} :
    Numbered (tree, next) ↔ stamps tree ≤ Stamp.drawn 0 next := by
  constructor
  · intro numbered
    apply (Multiset.le_iff_subset (Multiset.coe_nodup.2 numbered.distinct)).2
    intro stamp member
    obtain ⟨number, low, rfl⟩ := numbered.drawn stamp (Multiset.mem_coe.1 member)
    exact Stamp.mem_drawn.2 ⟨number, ⟨Nat.zero_le _, low⟩, rfl⟩
  · intro areDrawn
    constructor
    · exact Multiset.coe_nodup.1 (Multiset.nodup_of_le areDrawn (Stamp.nodup_drawn ..))
    · intro stamp member
      obtain ⟨number, ⟨-, low⟩, rfl⟩ := Stamp.mem_drawn.1 (Multiset.mem_of_le areDrawn (Multiset.mem_coe.2 member))
      exact ⟨number, low, rfl⟩

theorem Numbered.of_drawn
    {tree : τ}
    {low next : Nat}
    (climbs : low ≤ next)
    (areDrawn : stamps tree ≤ Stamp.drawn low next) :
    Numbered (tree, next) := by
  rw [numbered_iff, <- Stamp.drawn_add (Nat.zero_le low) climbs]
  exact areDrawn.trans (Multiset.le_add_left _ _)

/-- What suits a numbered tree is numbered beside it. -/
theorem Item.Suit.stamps_le
    {tree : τ}
    {next : Nat}
    {items : List (Item τ)}
    (suit : Suit tree next items)
    (numbered : Numbered (tree, next)) :
    stamps tree + Stamp.given (Stamp.ofAll stamps (items.filterMap fresh?)) ≤ Stamp.drawn 0 next := by
  have brought : Stamp.given (Stamp.ofAll stamps (items.filterMap fresh?)) =
      (((newIds items).filter (· ≠ .pending) : List Stamp) : Multiset Stamp) := by
    rw [newIds, <- Multiset.filter_coe, Stamp.coe_flatMap]
    rfl
  have isNew (stamp : Stamp) (member : stamp ∈ (newIds items).filter (· ≠ .pending)) :
      stamp ∉ ids tree ∧ exists number, number < next ∧ stamp = .settled number := by
    obtain ⟨isBrought, given⟩ := List.mem_filter.1 member
    exact suit.isNew stamp isBrought (by simpa using given)
  rw [brought, stamps, Multiset.coe_add]
  refine (Multiset.le_iff_subset (Multiset.coe_nodup.2 ?_)).2 ?_
  · refine List.nodup_append.2 ⟨numbered.distinct, suit.distinct, ?_⟩
    rintro stamp inTree _ isBrought rfl
    exact (isNew stamp isBrought).1 inTree
  · intro stamp member
    have isDrawn : exists number, number < next ∧ stamp = .settled number := by
      rcases List.mem_append.1 (Multiset.mem_coe.1 member) with inTree | isBrought
      · exact numbered.drawn stamp inTree
      · exact (isNew stamp isBrought).2
    obtain ⟨number, low, rfl⟩ := isDrawn
    exact Stamp.mem_drawn.2 ⟨number, ⟨Nat.zero_le _, low⟩, rfl⟩

/-! ### Runs of edits -/

/-- One step of a run of edits of a tree, with the next number to be drawn. -/
inductive Edits : τ × Nat -> τ × Nat -> Prop
  /-- A number is drawn for a node that is built. -/
  | draw (tree : τ) (next : Nat) : Edits (tree, next) (tree, next + 1)
  /-- A list gets the elements that items stand for, its owner goes back to its place, and what is new is numbered. -/
  | edit {tree owner edited : τ} {next : Nat} {old : List (RightPadded τ)} {items : List (Item τ)} :
      owner ∈ nodes tree -> elements? owner = some old -> Item.Suit tree next items ->
        withElements owner (items.filterMap (Item.resolve? (RightPadded.elements old))) = .ok edited ->
          Edits (tree, next) ((settle (replaceFirst tree (Identified.id owner) edited)).run next)

variable [LawfulListLanguage τ]

/-- An edit of a numbered tree is done, and with its new nodes numbered the tree is numbered again. -/
theorem Numbered.edit
    {tree owner : τ}
    {next : Nat}
    {old : List (RightPadded τ)}
    {items : List (Item τ)}
    (numbered : Numbered (tree, next))
    (member : owner ∈ nodes tree)
    (isList : elements? owner = some old)
    (suit : Item.Suit tree next items) :
    exists edited, withElements owner (items.filterMap (Item.resolve? (RightPadded.elements old))) = .ok edited ∧
      Numbered ((settle (replaceFirst tree (Identified.id owner) edited)).run next) := by
  obtain ⟨edited, isDone, exchanged⟩ := LawfulListLanguage.edits numbered.distinct member isList
    (items.filterMap (Item.resolve? (RightPadded.elements old)))
  refine ⟨edited, isDone, ?_⟩
  generalize replaceFirst tree (Identified.id owner) edited = result at exchanged ⊢
  have brought : stamps result ≤ stamps tree + Stamp.ofAll stamps (items.filterMap Item.fresh?) := by
    apply Multiset.le_of_add_le_add_right
    calc stamps result + Stamp.ofAll stamps (RightPadded.elements old)
      _ = stamps tree + (Stamp.ofAll stamps
            ((items.filterMap Item.index?).filterMap ((RightPadded.elements old)[·]?)) +
              Stamp.ofAll stamps (items.filterMap Item.fresh?)) := by rw [exchanged, Item.stamps_resolve]
      _ ≤ stamps tree + (Stamp.ofAll stamps (RightPadded.elements old) +
            Stamp.ofAll stamps (items.filterMap Item.fresh?)) := by
        gcongr
        exact Stamp.ofAll_at_le _ suit.once
      _ = stamps tree + Stamp.ofAll stamps (items.filterMap Item.fresh?) +
            Stamp.ofAll stamps (RightPadded.elements old) := by abel
  have given : Stamp.given (stamps result) ≤ Stamp.drawn 0 next := by
    calc Stamp.given (stamps result)
      _ ≤ Stamp.given (stamps tree + Stamp.ofAll stamps (items.filterMap Item.fresh?)) :=
        Multiset.filter_le_filter _ brought
      _ ≤ stamps tree + Stamp.given (Stamp.ofAll stamps (items.filterMap Item.fresh?)) := by
        rw [Stamp.given_add]
        gcongr
        exact Multiset.filter_le _ _
      _ ≤ Stamp.drawn 0 next := suit.stamps_le numbered
  obtain ⟨climbs, areDrawn⟩ := LawfulListLanguage.settles result next
  apply numbered_iff.2
  calc stamps ((settle result).run next).1
    _ ≤ Stamp.given (stamps result) + Stamp.drawn next ((settle result).run next).2 := areDrawn
    _ ≤ Stamp.drawn 0 next + Stamp.drawn next ((settle result).run next).2 := by gcongr
    _ = Stamp.drawn 0 ((settle result).run next).2 := Stamp.drawn_add (Nat.zero_le _) climbs

/-- A tree without identifiers gets distinct ones. -/
theorem numbered_settle
    {tree : τ}
    (isNew : forall stamp, stamp ∈ ids tree -> stamp = .pending)
    (next : Nat) :
    Numbered ((settle tree).run next) := by
  have none : Stamp.given (stamps tree) = 0 :=
    Multiset.filter_eq_nil.2 fun stamp member => not_not.2 (isNew stamp (Multiset.mem_coe.1 member))
  obtain ⟨climbs, areDrawn⟩ := LawfulListLanguage.settles tree next
  rw [none, zero_add] at areDrawn
  exact .of_drawn climbs areDrawn

/-- A step keeps a tree numbered. -/
theorem Numbered.step
    {before after : τ × Nat}
    (numbered : Numbered before)
    (step : Edits before after) :
    Numbered after := by
  cases step with
  | draw tree next =>
      refine ⟨numbered.distinct, fun stamp member => ?_⟩
      obtain ⟨number, low, rfl⟩ := numbered.drawn stamp member
      exact ⟨number, low.trans (Nat.lt_succ_self next), rfl⟩
  | edit member isList suit isDone =>
      obtain ⟨edited, isAlsoDone, numberedAgain⟩ := numbered.edit member isList suit
      obtain rfl := Except.ok.inj (isDone.symm.trans isAlsoDone)
      exact numberedAgain

/-- A run of edits keeps a tree numbered. -/
theorem Numbered.run
    {start state : τ × Nat}
    (numbered : Numbered start)
    (run : Relation.ReflTransGen Edits start state) :
    Numbered state := by
  induction run with
  | refl => exact numbered
  | tail _ step ih => exact ih.step step

end Lossless
