import Lossless.Proofs.Drawn
import Lossless.Proofs.Json.Complete

/-!
# Copies of a data tree

A tree is canonical exactly when it is so as a new one, so every copy of a readable document is readable. Numbering
makes such a copy.
-/

namespace Lossless
namespace Json

section Copies

variable {α β γ : Type}

/-! ## Trees as new ones -/

theorem toList_renewed_iff (markers : Markers Space) : markers.renewed.toList = [] ↔ markers.toList = [] := by
  simp [Markers.renewed]

theorem isEmpty_renewed (space : Space) : space.renewed.isEmpty = space.isEmpty := by
  simp [Space.isEmpty]

namespace Form

variable (change : α -> β) (form : Form α)

@[simp] theorem isValue_renewed : (form.renewed change).isValue = form.isValue := by
  cases form <;> rfl

@[simp] theorem isMember_renewed : (form.renewed change).isMember = form.isMember := by
  cases form <;> rfl

@[simp] theorem isKey_renewed : (form.renewed change).isKey = form.isKey := by
  cases form with
  | literal source value => cases value <;> rfl
  | _ => rfl

theorem renewed_eq_empty_iff : form.renewed change = .empty ↔ form = .empty := by
  cases form <;> simp [renewed]

theorem children_renewed : (form.renewed change).children = form.children.map change := by
  cases form <;> simp [renewed, children, RightPadded.elements, RightPadded.renewed]

theorem gaps_renewed : (form.renewed change).gaps = form.gaps.map Space.renewed := by
  cases form <;> simp [renewed, gaps, RightPadded.renewed]

theorem eof?_renewed : (form.renewed change).eof? = form.eof?.map Space.renewed := by
  cases form <;> rfl

end Form

theorem form_renewed (tree : Tree) : tree.renewed.form = tree.form.renewed Tree.renewed := by
  obtain ⟨head, form⟩ := tree
  rw [Tree.renewed_node]
  rfl

theorem leading_renewed (tree : Tree) : tree.renewed.leading = tree.leading.renewed := by
  obtain ⟨head, form⟩ := tree
  rw [Tree.renewed_node]
  rfl

theorem markers_renewed (tree : Tree) : tree.renewed.markers = tree.markers.renewed := by
  obtain ⟨head, form⟩ := tree
  rw [Tree.renewed_node]
  rfl

theorem writtenElements_renewed
    {list : List (RightPadded Tree)}
    (same : forall child, child ∈ RightPadded.elements list -> child.renewed.printTrimmed = child.printTrimmed) :
    writtenElements (list.map (·.renewed Tree.renewed)) = writtenElements list := by
  induction list with
  | nil => rfl
  | cons first rest ih =>
      obtain ⟨sameFirst, sameRest⟩ := List.forall_mem_cons.1 same
      have firstWritten : writtenPadded (first.renewed Tree.renewed) = writtenPadded first := by
        rw [writtenPadded, writtenPadded, RightPadded.renewed, sameFirst, Space.render_renewed]
      by_cases more : rest = []
      · subst more
        exact firstWritten
      · rw [List.map_cons, writtenElements_cons more, writtenElements_cons (List.map_eq_nil_iff.not.2 more),
          firstWritten, ih sameRest]

/-- A tree is printed as its new copy is. -/
theorem printTrimmed_renewed (tree : Tree) : tree.renewed.printTrimmed = tree.printTrimmed := by
  induction tree using Tree.induction with
  | step head form ih =>
      have written : (form.renewed Tree.renewed).written = form.written := by
        cases form with
        | document source value eof => simp [Form.renewed, ih value (List.mem_singleton_self _)]
        | object members => simp [Form.renewed, writtenElements_renewed ih]
        | member key value =>
            have sameKey := ih key.element List.mem_cons_self
            have sameValue := ih value (List.mem_cons_of_mem _ (List.mem_singleton_self _))
            simp [Form.renewed, RightPadded.renewed, writtenPadded, sameKey, sameValue]
        | array values => simp [Form.renewed, writtenElements_renewed ih]
        | _ => rfl
      rw [Tree.printTrimmed_eq, leading_renewed, Space.render_renewed, form_renewed, Tree.form_node, written]
      exact (Tree.printTrimmed_eq (.node head form)).symm

theorem fitsElement_renewed_iff
    {test : Form Tree -> Bool}
    (same : forall form : Form Tree, test (form.renewed Tree.renewed) = test form)
    (padded : RightPadded Tree) :
    FitsElement test (padded.renewed Tree.renewed) ↔ FitsElement test padded := by
  have kinds : (test (padded.element.renewed).form = true ∨
      padded.element.renewed.form = .empty ∧ padded.after.renewed.isEmpty = true) ↔
        (test padded.element.form = true ∨ padded.element.form = .empty ∧ padded.after.isEmpty = true) := by
    rw [form_renewed, same, Form.renewed_eq_empty_iff, isEmpty_renewed]
  constructor
  · exact fun fits => ⟨(toList_renewed_iff _).1 fits.unmarked, kinds.1 fits.kind⟩
  · exact fun fits => ⟨(toList_renewed_iff _).2 fits.unmarked, kinds.2 fits.kind⟩

theorem fitElements_renewed_iff
    {test : Form Tree -> Bool}
    (same : forall form : Form Tree, test (form.renewed Tree.renewed) = test form)
    (list : List (RightPadded Tree)) :
    FitElements test (list.map (·.renewed Tree.renewed)) ↔ FitElements test list := by
  have kind (padded : RightPadded Tree) : test (padded.renewed Tree.renewed).element.form = test padded.element.form := by
    change test padded.element.renewed.form = _
    rw [form_renewed, same]
  constructor
  · rintro ⟨nonempty, each, inner⟩
    rw [List.map_dropLast.symm] at inner
    refine ⟨by simpa using nonempty, ?_, ?_⟩
    · exact fun padded member => (fitsElement_renewed_iff same padded).1 (each _ (List.mem_map_of_mem member))
    · exact fun padded member => (kind padded).symm.trans (inner _ (List.mem_map_of_mem member))
  · rintro ⟨nonempty, each, inner⟩
    refine ⟨by simpa using nonempty, ?_, ?_⟩
    · exact List.forall_mem_map.2 fun padded member => (fitsElement_renewed_iff same padded).2 (each _ member)
    · rw [<- List.map_dropLast]
      exact List.forall_mem_map.2 fun padded member => (kind padded).trans (inner _ member)

theorem fits_renewed_iff (form : Form Tree) : (form.renewed Tree.renewed).Fits ↔ form.Fits := by
  cases form with
  | document source value eof =>
      change value.renewed.form.isValue = true ↔ value.form.isValue = true
      rw [form_renewed, Form.isValue_renewed]
  | object members => exact fitElements_renewed_iff (Form.isMember_renewed _) members
  | member key value =>
      change key.markers.renewed.toList = [] ∧ key.element.renewed.form.isKey = true ∧
        key.element.renewed.leading.isEmpty = true ∧ value.renewed.form.isValue = true ↔ _
      rw [toList_renewed_iff, form_renewed, form_renewed, Form.isKey_renewed, Form.isValue_renewed,
        leading_renewed, isEmpty_renewed]
      exact Iff.rfl
  | array values => exact fitElements_renewed_iff (Form.isValue_renewed _) values
  | literal source value => exact Iff.rfl
  | identifier name => exact Iff.rfl
  | empty => exact Iff.rfl

/-- The condition on the parts of a node is the same for the node made anew. -/
theorem isCanonical_renewed_iff (form : Form Tree) :
    (form.renewed Tree.renewed).IsCanonical ↔ form.IsCanonical := by
  have gapsIff : (forall space, space ∈ (form.renewed Tree.renewed).gaps -> space.IsGap) ↔
      forall space, space ∈ form.gaps -> space.IsGap := by
    rw [Form.gaps_renewed, List.forall_mem_map]
    exact forall₂_congr fun space _ => Space.isGapTo_renewed
  have eofIff : (forall space, (form.renewed Tree.renewed).eof? = some space -> space.IsGapTo true) ↔
      forall space, form.eof? = some space -> space.IsGapTo true := by
    rw [Form.eof?_renewed]
    cases form.eof? <;> simp [Space.isGapTo_renewed]
  have leadingIff : (forall child, child ∈ (form.renewed Tree.renewed).children -> child.leading.IsGap) ↔
      forall child, child ∈ form.children -> child.leading.IsGap := by
    rw [Form.children_renewed, List.forall_mem_map]
    simp only [leading_renewed]
    exact forall₂_congr fun child _ => Space.isGapTo_renewed
  have markersIff : (forall child, child ∈ (form.renewed Tree.renewed).children -> child.markers.toList = []) ↔
      forall child, child ∈ form.children -> child.markers.toList = [] := by
    rw [Form.children_renewed, List.forall_mem_map]
    simp only [markers_renewed, toList_renewed_iff]
  constructor
  · rintro ⟨fits, gaps, eof, leading, unmarked⟩
    exact ⟨(fits_renewed_iff form).1 fits, gapsIff.1 gaps, eofIff.1 eof, leadingIff.1 leading, markersIff.1 unmarked⟩
  · rintro ⟨fits, gaps, eof, leading, unmarked⟩
    exact ⟨(fits_renewed_iff form).2 fits, gapsIff.2 gaps, eofIff.2 eof, leadingIff.2 leading, markersIff.2 unmarked⟩

/-- A tree is canonical when it is so as a new one. -/
theorem Tree.isCanonical_renewed_iff (tree : Tree) : tree.renewed.IsCanonical ↔ tree.IsCanonical := by
  induction tree using Tree.induction with
  | step head form ih =>
      rw [isCanonical_iff, isCanonical_iff (node head form), form_renewed, form_node, Json.isCanonical_renewed_iff,
        Form.children_renewed, List.forall_mem_map]
      exact and_congr Iff.rfl (forall₂_congr ih)

/-- A document that says what a readable one says is readable itself. -/
theorem Tree.IsDocumentOf.of_renewed
    {path : Path}
    {tree copy : Tree}
    (isDocument : tree.IsDocumentOf path)
    (same : copy.renewed = tree.renewed) :
    copy.IsDocumentOf path := by
  obtain ⟨⟨value, eof, form⟩, isEmpty, unmarked, canonical⟩ := isDocument
  refine ⟨?_, ?_, ?_, ?_⟩
  · have sameForm : copy.form.renewed renewed = tree.form.renewed renewed := by
      rw [<- form_renewed, <- form_renewed, same]
    rw [form] at sameForm
    cases copyForm : copy.form with
    | document source value eof =>
        rw [copyForm] at sameForm
        obtain ⟨rfl, -, -⟩ := Form.document.inj sameForm
        exact ⟨value, eof, rfl⟩
    | _ =>
        rw [copyForm] at sameForm
        cases sameForm
  · rw [<- isEmpty_renewed, <- leading_renewed, same, leading_renewed, isEmpty_renewed]
    exact isEmpty
  · rw [<- toList_renewed_iff, <- markers_renewed, same, markers_renewed, toList_renewed_iff]
    exact unmarked
  · rw [<- isCanonical_renewed_iff, same, isCanonical_renewed_iff]
    exact canonical

/-! ## Numbering -/

theorem Form.settle_map
    (change : α -> β)
    (settleChild : β -> Numbering γ)
    (form : Form α) :
    (form.map change).settle settleChild = form.settle fun child => settleChild (change child) := by
  cases form <;> simp only [Form.map, Form.settle, List.mapM_map] <;> rfl

theorem Tree.settle_node
    (head : Head)
    (form : Form Tree) :
    (node head form).settle = do return .node (<- head.settle) (<- form.settle settle) := by
  rw [settle, recurse_node, Form.settle_map]
  rfl

theorem toList_settle
    {markers : Markers Space}
    (unmarked : markers.toList = [])
    (next : Nat) :
    ((markers.settle Space.settle).run next).1.toList = [] := by
  obtain ⟨stamp, id, list⟩ := markers
  obtain rfl : list = [] := unmarked
  rfl

section Content

variable {settleChild : Tree -> Numbering Tree}

theorem renewed_settle_padded
    {padded : RightPadded Tree}
    (child : forall next, ((settleChild padded.element).run next).1.renewed = padded.element.renewed)
    (isGap : padded.after.IsGap)
    (unmarked : padded.markers.toList = [])
    (next : Nat) :
    ((padded.settle settleChild).run next).1.renewed Tree.renewed = padded.renewed Tree.renewed := by
  refine (RightPadded.mk.injEq ..).mpr ⟨child _, Space.renewed_settle isGap _, ?_⟩
  exact (Markers.renewed_of_toList (toList_settle unmarked _)).trans (Markers.renewed_of_toList unmarked).symm

theorem renewed_settle_list
    {list : List (RightPadded Tree)}
    (children : forall child, child ∈ RightPadded.elements list ->
      forall next, ((settleChild child).run next).1.renewed = child.renewed)
    (gaps : forall padded, padded ∈ list -> padded.after.IsGap)
    (unmarked : forall padded, padded ∈ list -> padded.markers.toList = [])
    (next : Nat) :
    ((list.mapM (RightPadded.settle settleChild)).run next).1.map (·.renewed Tree.renewed) =
      list.map (·.renewed Tree.renewed) := by
  induction list generalizing next with
  | nil => rfl
  | cons first rest ih =>
      obtain ⟨atFirst, atRest⟩ := List.forall_mem_cons.1 children
      obtain ⟨firstGap, restGaps⟩ := List.forall_mem_cons.1 gaps
      obtain ⟨firstUnmarked, restUnmarked⟩ := List.forall_mem_cons.1 unmarked
      rw [List.mapM_cons]
      exact (List.cons.injEq ..).mpr
        ⟨renewed_settle_padded atFirst firstGap firstUnmarked next, ih atRest restGaps restUnmarked _⟩

theorem renewed_settle_form
    {form : Form Tree}
    (canonical : form.IsCanonical)
    (children : forall child, child ∈ form.children ->
      forall next, ((settleChild child).run next).1.renewed = child.renewed)
    (next : Nat) :
    ((form.settle settleChild).run next).1.renewed Tree.renewed = form.renewed Tree.renewed := by
  obtain ⟨fits, gaps, eof, -, -⟩ := canonical
  cases form with
  | document source value eofSpace =>
      exact (Form.document.injEq ..).mpr
        ⟨rfl, children value List.mem_cons_self _, Space.renewed_settle (eof eofSpace rfl) _⟩
  | object members =>
      exact congrArg Form.object (renewed_settle_list children (List.forall_mem_map.1 gaps)
        (fun padded member => (fits.each padded member).unmarked) next)
  | member key value =>
      have keyGap := gaps key.after (List.mem_singleton_self _)
      exact (Form.member.injEq ..).mpr
        ⟨renewed_settle_padded (children key.element List.mem_cons_self) keyGap fits.1 _,
          children value (List.mem_cons_of_mem _ (List.mem_singleton_self _)) _⟩
  | array values =>
      exact congrArg Form.array (renewed_settle_list children (List.forall_mem_map.1 gaps)
        (fun padded member => (fits.each padded member).unmarked) next)
  | literal source value => rfl
  | identifier name => rfl
  | empty => rfl

end Content

/-- Numbering changes nothing but identity. -/
theorem Tree.IsPart.renewed_settle
    {tree : Tree}
    (part : tree.IsPart)
    (next : Nat) :
    (tree.settle.run next).1.renewed = tree.renewed := by
  induction tree using Tree.induction generalizing next with
  | step head form ih =>
      obtain ⟨leading, unmarked, canonical⟩ := part
      have children (child : Tree) (member : child ∈ form.children) (next : Nat) :
          (child.settle.run next).1.renewed = child.renewed :=
        ih child member (canonical.part member) next
      have sameForm := renewed_settle_form canonical.root children (head.settle.run next).2
      have sameLeading := Space.renewed_settle leading (head.id.settle.run (head.stamp.settle.run next).2).2
      rw [settle_node, renewed_node]
      refine (renewed_node _ _).trans ((node.injEq ..).mpr ⟨(Head.mk.injEq ..).mpr ⟨rfl, rfl, sameLeading, ?_⟩, sameForm⟩)
      exact (Markers.renewed_of_toList (toList_settle unmarked _)).trans (Markers.renewed_of_toList unmarked).symm

end Copies

/-!
## Numbered data trees

A parsed tree has no identifiers yet. Numbering gives each of its nodes one of its own.
-/

open Lossless.Numbering

/-- The identifiers of the nodes of a tree. -/
def Tree.ids (tree : Tree) : List Stamp :=
  tree.nodes.map Tree.id

theorem Tree.ids_node
    (head : Head)
    (form : Form Tree) :
    (node head form).ids = head.id :: form.children.flatMap ids := by
  rw [ids, nodes_node, List.map_cons, List.map_flatMap]
  rfl

/-- The identifiers of the nodes of a tree, each as often as it is there. -/
def Tree.stamps (tree : Tree) : Multiset Stamp := tree.ids

/-- The identifiers of the nodes of some trees, each as often as it is there. -/
abbrev stampsOf (list : List Tree) : Multiset Stamp := Stamp.ofAll Tree.stamps list

theorem Tree.stamps_node
    (head : Head)
    (form : Form Tree) :
    (Tree.node head form).stamps = head.id ::ₘ stampsOf form.children := by
  rw [stamps, ids_node, <- Multiset.cons_coe, Stamp.coe_flatMap]
  rfl

section Children

variable {known : Tree -> Multiset Stamp} {settleChild : Tree -> Numbering Tree}

theorem draws_form
    {form : Form Tree}
    (children : forall child, child ∈ form.children -> Draws (known child) (settleChild child) Tree.stamps) :
    Draws (Stamp.ofAll known form.children) (form.settle settleChild) fun form => stampsOf form.children := by
  cases form with
  | document source value eof =>
      exact .bind (children value List.mem_cons_self)
        (fun _ => .skip (climbs_space _) fun _ => .pure (by simp [Form.children])) le_rfl
  | object members => exact .bind (draws_list children) (fun _ => .pure (by simp [Form.children])) (add_zero _).le
  | member key value =>
      have atKey := draws_padded (children key.element List.mem_cons_self)
      have atValue := children value (List.mem_cons_of_mem _ (List.mem_singleton_self _))
      refine .bind atKey (fun key => .bind atValue (fun value => .pure ?_) le_rfl) le_rfl
      simp [Form.children]
  | array values => exact .bind (draws_list children) (fun _ => .pure (by simp [Form.children])) (add_zero _).le
  | literal source value => exact .pure le_rfl
  | identifier name => exact .pure le_rfl
  | empty => exact .pure le_rfl

end Children

/-- The nodes of a tree keep the identifiers that they were given, and the others are drawn. -/
theorem draws_tree (tree : Tree) : Draws (Stamp.given tree.stamps) tree.settle Tree.stamps := by
  induction tree using Tree.induction with
  | step head form ih =>
      rw [Tree.settle_node, Tree.stamps_node, <- Multiset.singleton_add, Stamp.given_add, Stamp.given_ofAll]
      refine .bind (draws_head head) (fun head => .bind (draws_form ih) (fun form => .pure ?_) (add_zero _).le) le_rfl
      rw [Tree.stamps_node, <- Multiset.singleton_add]
      simp

/-- Numbering keeps the identifiers that were given and draws the others. -/
theorem Tree.stamps_settle
    (tree : Tree)
    (next : Nat) :
    next ≤ (tree.settle.run next).2 ∧
      (tree.settle.run next).1.stamps ≤ Stamp.given tree.stamps + Stamp.drawn next (tree.settle.run next).2 :=
  draws_tree tree next

/-- The identifiers that numbering gives are distinct. -/
theorem Tree.nodup_ids_settle
    {tree : Tree}
    (isNew : forall stamp, stamp ∈ tree.ids -> stamp = .pending)
    (next : Nat) :
    (tree.settle.run next).1.ids.Nodup := by
  have none : Stamp.given tree.stamps = 0 :=
    Multiset.filter_eq_nil.2 fun stamp member => not_not.2 (isNew stamp (Multiset.mem_coe.1 member))
  obtain ⟨-, isDrawn⟩ := tree.stamps_settle next
  rw [none, zero_add] at isDrawn
  exact Multiset.coe_nodup.1 (Multiset.nodup_of_le isDrawn (Stamp.nodup_drawn ..))

theorem Tree.ids_renewed
    (tree : Tree)
    (stamp : Stamp)
    (member : stamp ∈ tree.renewed.ids) :
    stamp = .pending := by
  induction tree using Tree.induction with
  | step head form ih =>
      rw [renewed_node, ids_node, Form.children_renewed] at member
      rcases List.mem_cons.1 member with atRoot | below
      · exact atRoot
      · obtain ⟨child, isChild, inside⟩ := List.mem_flatMap.1 below
        obtain ⟨original, isOriginal, rfl⟩ := List.mem_map.1 isChild
        exact ih original isOriginal inside

/-- A parsed tree is as new. -/
theorem renewed_of_parse
    {source : Text}
    {path : Path}
    {tree : Tree}
    (paired : source.hasPairedReturns = true)
    (parsed : parse source path = .ok tree) :
    tree.renewed = tree := by
  obtain ⟨_, _, -, -, printed⟩ := document_of_parse paired parsed
  have again := parse_printTrimmed (isDocumentOf_of_parse paired parsed)
  rw [printed, parsed] at again
  exact (Except.ok.inj again).symm

end Json
end Lossless
