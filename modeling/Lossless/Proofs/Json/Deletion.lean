import Lossless.Json.Language
import Lossless.Proofs.Editing
import Lossless.Proofs.Json.Replaced
import Lossless.Proofs.Padding

/-!
# Deletions in data trees

An edited list of elements goes back into the padding of the old list. What is left of a list of a canonical document
is then a sublist of the padded list, so the document stays canonical and is read back from what it prints as.
-/

namespace Lossless
namespace Json

namespace Form

/-- A form with some parts of a canonical one is canonical when it fits. -/
theorem IsCanonical.of_subset
    {form part : Form Tree}
    (canonical : form.IsCanonical)
    (fits : part.Fits)
    (gaps : part.gaps ⊆ form.gaps)
    (eof : part.eof? = form.eof?)
    (children : part.children ⊆ form.children) :
    part.IsCanonical where
  fits := fits
  gaps := fun space member => canonical.gaps space (gaps member)
  eof := fun space isEof => canonical.eof space (eof.symm.trans isEof)
  leading := fun child member => canonical.leading child (children member)
  unmarked := fun child member => canonical.unmarked child (children member)

end Form

namespace Tree

variable {tree node : Tree} {padded : List (RightPadded Tree)} {kept : List Tree}

/-! ## Identifiers -/

theorem nodup_ids_of_mem_nodes
    (distinct : tree.ids.Nodup)
    (member : node ∈ tree.nodes) :
    node.ids.Nodup := by
  induction tree using Tree.induction with
  | step head form ih =>
      rw [nodes_node] at member
      rcases List.mem_cons.1 member with rfl | below
      · exact distinct
      · obtain ⟨child, isChild, inside⟩ := List.mem_flatMap.1 below
        exact ih child isChild (nodup_ids_of_mem_children distinct isChild) inside

/-- In a tree with distinct identifiers a node is known by its own. -/
theorem eq_of_id_eq
    (distinct : tree.ids.Nodup)
    {other : Tree}
    (member : node ∈ tree.nodes)
    (otherMember : other ∈ tree.nodes)
    (same : other.id = node.id) :
    other = node :=
  List.inj_on_of_nodup_map distinct otherMember member same

theorem id_sublist_ids (list : List Tree) : (list.map id).Sublist (list.flatMap ids) := by
  induction list with
  | nil => exact .refl _
  | cons first rest ih =>
      obtain ⟨head, form⟩ := first
      rw [List.map_cons, List.flatMap_cons, ids_node]
      exact (ih.trans (List.sublist_append_right _ _)).cons_cons head.id

/-! ## One list -/

theorem form_of_elements?
    (isList : node.elements? = some padded) :
    node.form = .object padded ∨ node.form = .array padded := by
  unfold elements? at isList
  split at isList
  · next form =>
      obtain rfl := Option.some.inj isList
      exact .inl form
  · next form =>
      obtain rfl := Option.some.inj isList
      exact .inr form
  · cases isList

theorem children_of_elements?
    (isList : node.elements? = some padded) :
    node.form.children = RightPadded.elements padded := by
  rcases form_of_elements? isList with form | form <;> rw [form] <;> rfl

section Put

variable {list : List Tree} {new : List (RightPadded Tree)}

/-- An object takes members that have been put into the padding of its own. -/
theorem withElements_of_object
    (form : node.form = .object padded)
    (isOk : RightPadded.withElements padded list = .ok new) :
    node.withElements list = .ok (node.withForm (.object new)) := by
  rw [withElements, form]
  change (RightPadded.withElements padded list >>= _) = _
  rw [isOk]
  rfl

/-- An array takes values that have been put into the padding of its own. -/
theorem withElements_of_array
    (form : node.form = .array padded)
    (isOk : RightPadded.withElements padded list = .ok new) :
    node.withElements list = .ok (node.withForm (.array new)) := by
  rw [withElements, form]
  change (RightPadded.withElements padded list >>= _) = _
  rw [isOk]
  rfl

end Put

theorem nodup_elementIds
    (distinct : node.ids.Nodup)
    (isList : node.elements? = some padded) :
    (RightPadded.elementIds padded).Nodup := by
  have children := children_of_elements? isList
  obtain ⟨head, form⟩ := node
  rw [ids_node] at distinct
  rw [RightPadded.elementIds, <- children]
  exact (List.nodup_cons.1 distinct).2.sublist (id_sublist_ids _)

theorem standsFor_withForm
    {form : Form Tree}
    (isValue : form.isValue = node.form.isValue)
    (isMember : form.isMember = node.form.isMember)
    (isKey : form.isKey = node.form.isKey)
    (isEmpty : node.form = .empty -> form = .empty) :
    (node.withForm form).StandsFor node := by
  refine ⟨leading_revise .., markers_revise .., ?_, ?_, ?_, ?_⟩ <;> rw [withForm, form_revise]
  · exact isValue
  · exact isMember
  · exact isKey
  · exact isEmpty

/-- A list of a canonical tree with fewer elements can stand in its place, and each element left keeps its padding. -/
theorem withElements_of_sublist
    (canonical : node.IsCanonical)
    (distinct : node.ids.Nodup)
    (isList : node.elements? = some padded)
    (isSublist : kept.Sublist (RightPadded.elements padded))
    (nonempty : kept ≠ []) :
    exists edited list, node.withElements kept = .ok edited ∧ edited.elements? = some list ∧ list.Sublist padded ∧
      RightPadded.elements list = kept ∧ edited.IsCanonical ∧ edited.StandsFor node := by
  obtain ⟨list, isOk, listIsSublist, rfl⟩ :=
    RightPadded.withElements_of_sublist (nodup_elementIds distinct isList) isSublist
  have listNonempty : list ≠ [] := fun none => nonempty (congrArg RightPadded.elements none)
  have elementsSubset : RightPadded.elements list ⊆ RightPadded.elements padded := (listIsSublist.map _).subset
  have spacesSubset : list.map (fun padded => padded.after) ⊆ padded.map fun padded => padded.after :=
    (listIsSublist.map _).subset
  have below (child : Tree) (member : child ∈ RightPadded.elements list) : child.IsCanonical := by
    refine (canonical.part ?_).canonical
    rw [children_of_elements? isList]
    exact elementsSubset member
  have root := canonical.root
  rcases form_of_elements? isList with form | form <;> rw [form] at root
  · refine ⟨node.withForm (.object list), list, withElements_of_object form isOk, ?_, listIsSublist, rfl, ?_, ?_⟩
    · rw [elements?, withForm, form_revise]
    · rw [isCanonical_iff, withForm, form_revise]
      exact ⟨root.of_subset (root.fits.sublist listIsSublist listNonempty) spacesSubset rfl elementsSubset, below⟩
    · exact standsFor_withForm (by rw [form]; rfl) (by rw [form]; rfl) (by rw [form]; rfl) (by rw [form]; nofun)
  · refine ⟨node.withForm (.array list), list, withElements_of_array form isOk, ?_, listIsSublist, rfl, ?_, ?_⟩
    · rw [elements?, withForm, form_revise]
    · rw [isCanonical_iff, withForm, form_revise]
      exact ⟨root.of_subset (root.fits.sublist listIsSublist listNonempty) spacesSubset rfl elementsSubset, below⟩
    · exact standsFor_withForm (by rw [form]; rfl) (by rw [form]; rfl) (by rw [form]; rfl) (by rw [form]; nofun)

/-- A document that can be read stays one when elements of one of its lists are deleted. -/
theorem IsDocumentOf.delete
    {path : Path}
    {document : Tree}
    (isDocument : document.IsDocumentOf path)
    (distinct : document.ids.Nodup)
    (isNode : node ∈ document.nodes)
    (isList : node.elements? = some padded)
    (isSublist : kept.Sublist (RightPadded.elements padded))
    (nonempty : kept ≠ []) :
    exists edited list, node.withElements kept = .ok edited ∧ edited.elements? = some list ∧ list.Sublist padded ∧
      RightPadded.elements list = kept ∧ edited ∈ (document.replaceFirst node.id edited).nodes ∧
      (document.replaceFirst node.id edited).IsDocumentOf path := by
  obtain ⟨edited, list, isOk, isEdited, listIsSublist, isKept, editedCanonical, standsFor⟩ :=
    withElements_of_sublist (fun inner inside => isDocument.canonical inner (mem_nodes_trans isNode inside))
      (nodup_ids_of_mem_nodes distinct isNode) isList isSublist nonempty
  refine ⟨edited, list, isOk, isEdited, listIsSublist, isKept, ?_, ?_⟩
  · rw [replaceFirst_eq distinct]
    exact mem_nodes_substitute isNode rfl
  · rw [replaceFirst_eq distinct]
    refine isDocument.substitute ?_ editedCanonical ?_
    · intro atRoot
      obtain ⟨⟨value, eof, form⟩, -⟩ := isDocument
      have isRoot : document = node := eq_of_id_eq distinct isNode (mem_nodes_self document) atRoot
      rw [<- isRoot, elements?, form] at isList
      cases isList
    · intro other inside same
      rwa [eq_of_id_eq distinct isNode inside same]

end Tree

/-! ## Parsed documents -/

variable {source : Text} {path : Path} {tree : Tree}

/-- Numbering keeps a parsed document readable and gives its nodes distinct identifiers. -/
theorem settle_of_parse
    (paired : source.hasPairedReturns = true)
    (parsed : parse source path = .ok tree)
    (next : Nat) :
    (tree.settle.run next).1.IsDocumentOf path ∧ (tree.settle.run next).1.ids.Nodup := by
  have isDocument := isDocumentOf_of_parse paired parsed
  refine ⟨isDocument.of_renewed (isDocument.isPart.renewed_settle next), Tree.nodup_ids_settle ?_ next⟩
  rw [<- renewed_of_parse paired parsed]
  exact tree.ids_renewed

/--
Take some elements of an object or an array of a parsed document, in their order. The list can be edited down to
them, each with the padding it had, and the document with the edited list is read back from what it prints as.
-/
theorem deletion_isReadBack
    (source : Text)
    (path : Path)
    (paired : source.hasPairedReturns = true)
    (tree : Tree)
    (parsed : parse source path = .ok tree)
    (next : Nat)
    (document : Tree)
    (isNumbered : document = (tree.settle.run next).1)
    (node : Tree)
    (isNode : node ∈ document.nodes)
    (padded : List (RightPadded Tree))
    (isList : node.elements? = some padded)
    (kept : List Tree)
    (isSublist : kept.Sublist (RightPadded.elements padded))
    (nonempty : kept ≠ []) :
    exists edited list, node.withElements kept = .ok edited ∧ edited.elements? = some list ∧ list.Sublist padded ∧
      RightPadded.elements list = kept ∧ edited ∈ (document.replaceFirst node.id edited).nodes ∧
      parse (document.replaceFirst node.id edited).printTrimmed path =
        .ok (document.replaceFirst node.id edited).renewed := by
  obtain ⟨isDocument, distinct⟩ := settle_of_parse paired parsed next
  rw [<- isNumbered] at isDocument distinct
  obtain ⟨edited, list, isOk, isEdited, listIsSublist, isKept, isThere, readable⟩ :=
    isDocument.delete distinct isNode isList isSublist nonempty
  exact ⟨edited, list, isOk, isEdited, listIsSublist, isKept, isThere, parse_printTrimmed readable⟩

/-- A list whose elements have comments of their own, and a comma after the last. -/
def commentedList : Text :=
  "\x7b a: [1 /* one */, // first\n 2 // second\n , ], \x7d\n".toList

/-- The source without the first element of the list. -/
example :
    ((parse commentedList ⟨"a.json".toList⟩).toOption.bind fun tree =>
      let document := (tree.settle.run 0).1
      document.nodes[4]?.bind fun node => do
        let edited <- (node.withElements ((RightPadded.elements (<- node.elements?)).drop 1)).toOption
        return (document.replaceFirst node.id edited).printTrimmed) =
      some "\x7b a: [ // first\n 2 // second\n , ], \x7d\n".toList := by
  decide +kernel

/-- The first element of the list can be deleted. -/
theorem deletion_ofFirst :
    commentedList.hasPairedReturns = true ∧
      exists tree node padded, parse commentedList ⟨"a.json".toList⟩ = .ok tree ∧
        node ∈ (tree.settle.run 0).1.nodes ∧ node.elements? = some padded ∧
        exists edited, node.withElements ((RightPadded.elements padded).drop 1) = .ok edited ∧
          parse ((tree.settle.run 0).1.replaceFirst node.id edited).printTrimmed ⟨"a.json".toList⟩ =
            .ok ((tree.settle.run 0).1.replaceFirst node.id edited).renewed := by
  have paired : commentedList.hasPairedReturns = true := by decide +kernel
  have found : ((parse commentedList ⟨"a.json".toList⟩).toOption.bind fun tree =>
      (tree.settle.run 0).1.nodes[4]?.bind fun node => node.elements?.map List.length) = some 3 := by decide +kernel
  obtain ⟨tree, parsed, found⟩ := Option.bind_eq_some_iff.1 found
  obtain ⟨node, isNode, found⟩ := Option.bind_eq_some_iff.1 found
  obtain ⟨padded, isList, three⟩ := Option.map_eq_some_iff.1 found
  have isOk : parse commentedList ⟨"a.json".toList⟩ = .ok tree := by
    cases outcome : parse commentedList ⟨"a.json".toList⟩ with
    | error => rw [outcome] at parsed; cases parsed
    | ok other => rw [outcome] at parsed; exact congrArg Except.ok (Option.some.inj parsed)
  have nonempty : (RightPadded.elements padded).drop 1 ≠ [] := by
    rw [Ne, List.drop_eq_nil_iff, RightPadded.elements, List.length_map, three]
    decide
  obtain ⟨edited, -, isEdited, -, -, -, -, readBack⟩ :=
    deletion_isReadBack commentedList ⟨"a.json".toList⟩ paired tree isOk 0 _ rfl node (List.mem_of_getElem? isNode)
      padded isList _ (List.drop_sublist 1 _) nonempty
  exact ⟨paired, tree, node, padded, isOk, List.mem_of_getElem? isNode, isList, edited, isEdited, readBack⟩

end Json
end Lossless
