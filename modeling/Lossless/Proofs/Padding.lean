import Lossless.Json.Node
import Mathlib.Data.List.Duplicate
import Mathlib.Data.List.Nodup

/-!
# Edited lists in their old padding

An edited list of elements is put back into the padding of the old list. With distinct identifiers in the old list
every element gets the padding that stood with its identifier, whichever way the edit takes: the old elements give
the old list, no elements give none, and any other list is rebuilt. So two edits in a row amount to the last one,
as long as the last one needs no identifier that the first one dropped.
-/

namespace Lossless

namespace RightPadded

variable {α : Type} [Identified α] {old : List (RightPadded α)}

/-- The identifiers of the elements of a padded list. -/
def elementIds (list : List (RightPadded α)) : List Stamp :=
  (elements list).map Identified.id

theorem id_mem_elementIds
    {padded : RightPadded α}
    (member : padded ∈ old) :
    Identified.id padded.element ∈ elementIds old :=
  List.mem_map_of_mem (List.mem_map_of_mem member)

/-! ## Repeated identifiers -/

theorem firstRepeated?_eq_none
    {seen : List Stamp}
    (distinct : (elementIds old).Nodup)
    (isNew : forall id, id ∈ elementIds old -> id ∉ seen) :
    firstRepeated? seen old = none := by
  induction old generalizing seen with
  | nil => rfl
  | cons first rest ih =>
      obtain ⟨notLater, restDistinct⟩ := List.nodup_cons.1 distinct
      obtain ⟨firstIsNew, restIsNew⟩ := List.forall_mem_cons.1 isNew
      rw [firstRepeated?, if_neg firstIsNew]
      apply ih restDistinct
      intro id later
      exact List.not_mem_cons_of_ne_of_not_mem (fun same => notLater (same ▸ later)) (restIsNew id later)

/-- When nothing is found to repeat, nothing repeats and nothing was seen before. -/
theorem nodup_of_firstRepeated?
    {seen : List Stamp}
    (noneFound : firstRepeated? seen old = none) :
    (elementIds old).Nodup ∧ forall id, id ∈ elementIds old -> id ∉ seen := by
  induction old generalizing seen with
  | nil => exact ⟨List.nodup_nil, nofun⟩
  | cons first rest ih =>
      rw [firstRepeated?] at noneFound
      split at noneFound
      · cases noneFound
      · next firstIsNew =>
          obtain ⟨restDistinct, restIsNew⟩ := ih noneFound
          constructor
          · exact List.nodup_cons.2 ⟨fun later => restIsNew _ later List.mem_cons_self, restDistinct⟩
          · refine List.forall_mem_cons.2 ⟨firstIsNew, fun id later known => ?_⟩
            exact restIsNew id later (List.mem_cons_of_mem _ known)

/-- What is found to repeat stands twice in the list, or was seen before it. -/
theorem duplicate_of_firstRepeated?
    {seen : List Stamp}
    {id : Stamp}
    (found : firstRepeated? seen old = some id) :
    List.Duplicate id (elementIds old) ∨ id ∈ seen ∧ id ∈ elementIds old := by
  induction old generalizing seen with
  | nil => cases found
  | cons first rest ih =>
      rw [firstRepeated?] at found
      split at found
      · next known =>
          obtain rfl := Option.some.inj found
          exact .inr ⟨known, List.mem_cons_self⟩
      · rcases ih found with later | ⟨known, later⟩
        · exact .inl (later.duplicate_cons _)
        · rcases List.mem_cons.1 known with rfl | known
          · exact .inl (List.Mem.duplicate_cons_self later)
          · exact .inr ⟨known, List.mem_cons_of_mem _ later⟩

/-! ## The padding that is kept -/

/-- An element of a list with distinct identifiers gets its own padding. -/
theorem repad_element
    (distinct : (elementIds old).Nodup)
    {padded : RightPadded α}
    (member : padded ∈ old) :
    repad old padded.element = padded := by
  suffices found : (old.find? fun other => Identified.id other.element = Identified.id padded.element) = some padded by
    rw [repad, found]
  induction old with
  | nil => cases member
  | cons first rest ih =>
      obtain ⟨notLater, restDistinct⟩ := List.nodup_cons.1 distinct
      rcases List.mem_cons.1 member with rfl | later
      · exact List.find?_cons_of_pos (decide_eq_true rfl)
      · have other : Identified.id first.element ≠ Identified.id padded.element := by
          intro same
          apply notLater
          rw [same]
          exact id_mem_elementIds later
        rw [List.find?_cons_of_neg (by simpa using other)]
        exact ih restDistinct later

@[simp] theorem element_repad
    (old : List (RightPadded α))
    (element : α) :
    (repad old element).element = element := by
  unfold repad
  split <;> rfl

@[simp] theorem elements_map_repad
    (old : List (RightPadded α))
    (list : List α) :
    elements (list.map (repad old)) = list := by
  rw [elements, List.map_map]
  exact (List.map_congr_left fun element _ => element_repad old element).trans (List.map_id' list)

/-- Elements of one identifier get the same padding. -/
theorem repad_of_id_eq
    {element other : α}
    (same : Identified.id other = Identified.id element) :
    repad old element = { repad old other with element } := by
  unfold repad
  rw [same]
  split <;> rfl

/-- An element gets the padding of the one place that has its identifier. -/
theorem repad_of_mem
    (distinct : (elementIds old).Nodup)
    {padded : RightPadded α}
    (member : padded ∈ old)
    {element : α}
    (same : Identified.id padded.element = Identified.id element) :
    repad old element = { padded with element } := by
  rw [repad_of_id_eq same, repad_element distinct member]

/-- An element of an identifier that is not in the list gets no padding. -/
theorem repad_of_notMem
    {element : α}
    (absent : Identified.id element ∉ elementIds old) :
    repad old element = build element := by
  have noneFound : (old.find? fun padded => Identified.id padded.element = Identified.id element) = none := by
    refine List.find?_eq_none.2 fun padded member => ?_
    rw [decide_eq_true_eq]
    exact fun same => absent (same ▸ id_mem_elementIds member)
  rw [repad, noneFound]

/-- The padding that an element has in a rebuilt list is the padding it had in the old one. -/
theorem repad_repad
    {middle : List α}
    (distinct : (middle.map Identified.id).Nodup)
    {element : α}
    (isKnown : Identified.id element ∈ middle.map Identified.id) :
    repad (middle.map (repad old)) element = repad old element := by
  obtain ⟨other, isOther, same⟩ := List.mem_map.1 isKnown
  have distinctIds : (elementIds (middle.map (repad old))).Nodup := by
    rwa [elementIds, elements_map_repad]
  rw [repad_of_mem distinctIds (List.mem_map_of_mem isOther) (by rwa [element_repad]), repad_of_id_eq same]

variable [DecidableEq α]

theorem withElements_elements (old : List (RightPadded α)) : withElements old (elements old) = .ok old :=
  if_pos rfl

/-- With distinct identifiers in the old list every way through an edit gives the elements with their old padding. -/
theorem withElements_of_nodup
    (distinct : (elementIds old).Nodup)
    (list : List α) :
    withElements old list = .ok (list.map (repad old)) := by
  unfold withElements
  split
  · next same =>
      have kept : (elements old).map (repad old) = old := by
        calc (elements old).map (repad old)
          _ = old.map fun padded => repad old padded.element := List.map_map ..
          _ = old.map fun padded => padded :=
            List.map_congr_left fun padded member => repad_element distinct member
          _ = old := List.map_id' old
      rw [same, kept]
  · split
    · next none => rw [none, List.map_nil]
    · rw [firstRepeated?_eq_none distinct fun _ _ => List.not_mem_nil]

/-- What is left of a list keeps the padding of its elements. -/
theorem withElements_of_sublist
    (distinct : (elementIds old).Nodup)
    {kept : List α}
    (isSublist : kept.Sublist (elements old)) :
    exists list, withElements old kept = .ok list ∧ list.Sublist old ∧ elements list = kept := by
  obtain ⟨list, listIsSublist, rfl⟩ := List.sublist_map_iff.1 isSublist
  refine ⟨list, ?_, listIsSublist, rfl⟩
  rw [withElements_of_nodup distinct]
  apply congrArg Except.ok
  calc (elements list).map (repad old)
    _ = list.map fun padded => repad old padded.element := List.map_map ..
    _ = list.map fun padded => padded :=
      List.map_congr_left fun padded member => repad_element distinct (listIsSublist.subset member)
    _ = list := List.map_id' list

/-- The edit has to rebuild a list in which an identifier repeats. -/
def IsRefused
    (old : List (RightPadded α))
    (list : List α) : Prop :=
  list ≠ [] ∧ list ≠ elements old ∧ ¬ (elementIds old).Nodup

theorem isRefused_of_withElements
    {list : List α}
    {error : Error}
    (failed : withElements old list = .error error) :
    IsRefused old list := by
  refine ⟨?_, ?_, fun distinct => ?_⟩
  · rintro rfl
    unfold withElements at failed
    split at failed <;> cases failed
  · rintro rfl
    rw [withElements_elements] at failed
    cases failed
  · rw [withElements_of_nodup distinct] at failed
    cases failed

/-- An edit that succeeds gives the elements of the edited list, in its order. -/
theorem elements_of_withElements
    {list : List α}
    {new : List (RightPadded α)}
    (isOk : withElements old list = .ok new) :
    elements new = list := by
  unfold withElements at isOk
  split at isOk
  · next same =>
      obtain rfl := Except.ok.inj isOk
      exact same.symm
  · split at isOk
    · next none =>
        obtain rfl := Except.ok.inj isOk
        exact none.symm
    · split at isOk
      · cases isOk
      · obtain rfl := Except.ok.inj isOk
        exact elements_map_repad old list

/-- Every element that has no identifier of the old list stands in the edited list without padding. -/
theorem eq_build_of_withElements
    {list : List α}
    {new : List (RightPadded α)}
    (isOk : withElements old list = .ok new)
    {padded : RightPadded α}
    (member : padded ∈ new)
    (absent : Identified.id padded.element ∉ elementIds old) :
    padded = build padded.element := by
  unfold withElements at isOk
  split at isOk
  · obtain rfl := Except.ok.inj isOk
    exact absurd (id_mem_elementIds member) absent
  · split at isOk
    · obtain rfl := Except.ok.inj isOk
      cases member
    · split at isOk
      · cases isOk
      · obtain rfl := Except.ok.inj isOk
        obtain ⟨element, -, rfl⟩ := List.mem_map.1 member
        rw [element_repad] at absent ⊢
        exact repad_of_notMem absent

end RightPadded

/-! ## The whole of an edit -/

open RightPadded

variable {α : Type} [Identified α] [DecidableEq α]

/-- What becomes of an old list and an edited list of elements. -/
structure RightPadded.Reconciles
    (old : List (RightPadded α))
    (list : List α) : Prop where
  /-- A refused edit fails and names an identifier that repeats. -/
  fails : IsRefused old list ->
    exists id, List.Duplicate id (elementIds old) ∧ withElements old list = .error (.ofCause (.duplicateId id))
  /-- Any other edit gives a list whose places hold the elements of the edited one. -/
  succeeds : ¬ IsRefused old list ->
    exists new, withElements old list = .ok new ∧ new.length = list.length ∧
      forall index : Nat, (new[index]?).map (fun padded => padded.element) = list[index]?
  /-- An element keeps the padding that stood with its identifier. -/
  keeps : (elementIds old).Nodup -> forall new, withElements old list = .ok new ->
    forall padded, padded ∈ new -> forall other, other ∈ old ->
      Identified.id other.element = Identified.id padded.element ->
        padded.after = other.after ∧ padded.markers = other.markers
  /-- A new element has no padding: the one empty space and the one empty set of markers. -/
  leaves : forall new, withElements old list = .ok new ->
    forall padded, padded ∈ new -> Identified.id padded.element ∉ elementIds old ->
      padded.after = .empty ∧ padded.markers = .empty
  /-- The old elements give the very same list. -/
  same : list = elements old -> withElements old list = .ok old

/-- What becomes of a container and an edited list of elements. -/
structure Container.Reconciles
    (container : Container α)
    (list : List α) : Prop where
  /-- The edit fails as that of the list in the container does. -/
  fails : forall error, container.withElements list = .error error ↔
    RightPadded.withElements container.padded list = .error error
  /-- Only the list in the container is edited. -/
  keeps : forall new, container.withElements list = .ok new ↔
    RightPadded.withElements container.padded list = .ok new.padded ∧
      new.before = container.before ∧ new.markers = container.markers
  /-- The old elements give the very same container. -/
  same : list = container.elements -> container.withElements list = .ok container

theorem RightPadded.withElements_reconciles
    (old : List (RightPadded α))
    (list : List α) :
    Reconciles old list where
  fails := by
    rintro ⟨nonempty, other, repeats⟩
    have found : firstRepeated? [] old ≠ none := fun none => repeats (nodup_of_firstRepeated? none).1
    obtain ⟨id, found⟩ := Option.ne_none_iff_exists'.1 found
    have isDuplicate := (duplicate_of_firstRepeated? found).resolve_right fun known => List.not_mem_nil known.1
    refine ⟨id, isDuplicate, ?_⟩
    rw [withElements, if_neg other, if_neg nonempty, found]
  succeeds := by
    intro accepted
    cases outcome : withElements old list with
    | ok new =>
        obtain rfl := elements_of_withElements outcome
        exact ⟨new, rfl, (List.length_map _).symm, fun index => (List.getElem?_map ..).symm⟩
    | error error => exact absurd (isRefused_of_withElements outcome) accepted
  keeps := by
    intro distinct new isOk padded member other isOld same
    rw [withElements_of_nodup distinct] at isOk
    obtain rfl := Except.ok.inj isOk
    obtain ⟨element, -, rfl⟩ := List.mem_map.1 member
    rw [element_repad] at same
    rw [repad_of_mem distinct isOld same]
    exact ⟨rfl, rfl⟩
  leaves := by
    intro new isOk padded member absent
    rw [eq_build_of_withElements isOk member absent]
    exact ⟨rfl, rfl⟩
  same := by
    rintro rfl
    exact withElements_elements old

theorem Container.withElements_reconciles
    (container : Container α)
    (list : List α) :
    container.Reconciles list := by
  have edits : container.withElements list =
      (RightPadded.withElements container.padded list).map fun padded => { container with padded } := by
    rw [withElements]
    cases RightPadded.withElements container.padded list <;> rfl
  refine ⟨fun error => ?_, fun new => ?_, ?_⟩
  · rw [edits]
    cases RightPadded.withElements container.padded list <;> simp [Except.map]
  · rw [edits]
    obtain ⟨before, padded, markers⟩ := new
    cases RightPadded.withElements container.padded list <;> simp [Except.map, and_comm, and_assoc, eq_comm]
  · rintro rfl
    rw [edits, elements, RightPadded.withElements_elements]
    rfl

/-- Every edit of a list and every edit of a container is reconciled with what was there. -/
theorem edits_areReconciled :
    (forall (old : List (RightPadded α)) (list : List α), RightPadded.Reconciles old list) ∧
      forall (container : Container α) (list : List α), container.Reconciles list :=
  ⟨RightPadded.withElements_reconciles, Container.withElements_reconciles⟩

/-- Two edits in a row, and a change of the order that is taken back. -/
structure RightPadded.EditsCompose (old : List (RightPadded α)) : Prop where
  /-- Two edits amount to the second, when it needs no identifier that the first one dropped. -/
  compose : forall middle last : List α, (middle.map Identified.id).Nodup ->
    last.map Identified.id ⊆ middle.map Identified.id ->
      exists list new, withElements old middle = .ok list ∧ withElements list last = .ok new ∧
        withElements old last = .ok new
  /-- Elements in another order, and then in the old one, give the very same list. -/
  restore : forall middle : List α, middle.Perm (elements old) ->
    exists list, withElements old middle = .ok list ∧ withElements list (elements old) = .ok old

/-- In a list with distinct identifiers edits compose. -/
theorem edits_compose
    (old : List (RightPadded α))
    (distinct : (elementIds old).Nodup) :
    EditsCompose old := by
  have composed (middle last : List α) (middleDistinct : (middle.map Identified.id).Nodup)
      (isKnown : last.map Identified.id ⊆ middle.map Identified.id) :
      withElements (middle.map (repad old)) last = withElements old last := by
    have newDistinct : (elementIds (middle.map (repad old))).Nodup := by
      rwa [elementIds, elements_map_repad]
    rw [withElements_of_nodup newDistinct, withElements_of_nodup distinct]
    apply congrArg Except.ok
    exact List.map_congr_left fun element member => repad_repad middleDistinct (isKnown (List.mem_map_of_mem member))
  constructor
  · intro middle last middleDistinct isKnown
    refine ⟨_, _, withElements_of_nodup distinct middle, ?_, withElements_of_nodup distinct last⟩
    rw [composed middle last middleDistinct isKnown, withElements_of_nodup distinct]
  · intro middle isPermuted
    have sameIds := isPermuted.map Identified.id
    refine ⟨_, withElements_of_nodup distinct middle, ?_⟩
    rw [composed middle _ (sameIds.nodup_iff.2 distinct) sameIds.symm.subset, withElements_elements]

/-- Two names, each with a space behind it. -/
def spacedNames : List (RightPadded Json.Tree) :=
  [⟨.node ⟨.settled 0, .settled 0, .empty, .empty⟩ (.identifier ['a']), .single, .empty⟩,
    ⟨.node ⟨.settled 1, .settled 1, .empty, .empty⟩ (.identifier ['b']), .format ['\n'], .empty⟩]

/-- The names change places around a new one, then the first is renamed and the second dropped. -/
theorem edits_compose_ofNames :
    let fresh := Json.Tree.node ⟨.settled 2, .settled 2, .empty, .empty⟩ (.identifier ['c'])
    let renamed := Json.Tree.node ⟨.settled 3, .settled 0, .empty, .empty⟩ (.identifier ['d'])
    (elementIds spacedNames).Nodup ∧
      (exists list new,
        withElements spacedNames ((elements spacedNames).reverse ++ [fresh]) = .ok list ∧
          withElements list [fresh, renamed] = .ok new ∧
          withElements spacedNames [fresh, renamed] = .ok new) ∧
      exists list, withElements spacedNames (elements spacedNames).reverse = .ok list ∧
        withElements list (elements spacedNames) = .ok spacedNames := by
  intro fresh renamed
  have distinct : (elementIds spacedNames).Nodup := by decide
  have isComposed := edits_compose spacedNames distinct
  exact ⟨distinct, isComposed.compose _ _ (by decide) (by decide), isComposed.restore _ (List.reverse_perm _)⟩

end Lossless
