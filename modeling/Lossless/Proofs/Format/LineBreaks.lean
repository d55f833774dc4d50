import Lossless.Proofs.Format.Gaps
import Lossless.Proofs.Format.Regaps
import Lossless.Proofs.Format.Remade
import Lossless.Proofs.Java.Numbered
import Mathlib.Data.List.Induction

/-!
# Line breaks that are made alike

Making line breaks alike replaces every carriage return with a line feed behind it by the line feed, from left to right.
What comes of a line feed with several returns before it still has returns before it. So the result has no such pair just
when no text had two returns before a line feed, and then it stays as it is when line breaks are made alike again.
-/

namespace Lossless

/-! ## Texts -/

namespace Format

theorem replace_crlf (rest : Text) :
    Text.replace ['\r', '\n'] ['\n'] ('\r' :: '\n' :: rest) = '\n' :: Text.replace ['\r', '\n'] ['\n'] rest := rfl

theorem replace_cons
    {first : Char}
    {rest : Text}
    (noBreak : ¬ ['\r', '\n'] <+: first :: rest) :
    Text.replace ['\r', '\n'] ['\n'] (first :: rest) = first :: Text.replace ['\r', '\n'] ['\n'] rest := by
  rw [Text.replace, Text.replaceFrom]
  split
  · next found => exact absurd ⟨_, (Text.eq_append_of_dropStart? found).symm⟩ noBreak
  · rfl

theorem singleton_prefix_iff
    {first : Char}
    {text : Text} :
    [first] <+: text ↔ text.head? = some first := by
  cases text <;> simp [eq_comm]

/-- What is left starts with a line feed when the text starts with a line break. -/
theorem singleton_prefix_replace (text : Text) :
    ['\n'] <+: Text.replace ['\r', '\n'] ['\n'] text ↔ ['\n'] <+: text ∨ ['\r', '\n'] <+: text := by
  match text with
  | [] => simp [Text.replace, Text.replaceFrom]
  | first :: rest =>
      by_cases isBreak : ['\r', '\n'] <+: first :: rest
      · obtain ⟨behind, same⟩ := isBreak
        rw [← same]
        change ['\n'] <+: '\n' :: _ ↔ _
        simp
      · rw [replace_cons isBreak, singleton_prefix_iff, singleton_prefix_iff, List.head?_cons, List.head?_cons,
          or_iff_left isBreak]

/-- A return is left before a line feed where there were two. -/
theorem infix_replace_iff (text : Text) :
    ['\r', '\n'] <:+: Text.replace ['\r', '\n'] ['\n'] text ↔ ['\r', '\r', '\n'] <:+: text := by
  induction text using List.twoStepInduction with
  | nil => simp [Text.replace, Text.replaceFrom]
  | singleton first =>
      rw [replace_cons (by simp)]
      simp [Text.replace, Text.replaceFrom, List.infix_cons_iff]
  | cons_cons first second rest skipped ih =>
      by_cases isBreak : ['\r', '\n'] <+: first :: second :: rest
      · obtain ⟨rfl, rfl⟩ : '\r' = first ∧ '\n' = second := by simpa using isBreak
        rw [replace_crlf, List.infix_cons_iff, skipped]
        simp [List.infix_cons_iff]
      · have noFeed (isReturn : '\r' = first) : ¬ ['\n'] <+: second :: rest := fun feed =>
          isBreak (List.cons_prefix_cons.2 ⟨isReturn, feed⟩)
        rw [replace_cons isBreak, List.infix_cons_iff, List.infix_cons_iff, ih]
        refine or_congr ?_ Iff.rfl
        rw [List.cons_prefix_cons, List.cons_prefix_cons, singleton_prefix_replace]
        exact and_congr_right fun isReturn => or_iff_right (noFeed isReturn)

theorem replace_eq_self_iff (text : Text) :
    Text.replace ['\r', '\n'] ['\n'] text = text ↔ ¬ ['\r', '\n'] <:+: text := by
  induction text with
  | nil => simp [Text.replace, Text.replaceFrom]
  | cons first rest ih =>
      by_cases isBreak : ['\r', '\n'] <+: first :: rest
      · obtain ⟨behind, same⟩ := isBreak
        have found : ['\r', '\n'] <:+: first :: rest := List.IsPrefix.isInfix ⟨behind, same⟩
        rw [← same] at found ⊢
        exact ⟨fun equal => absurd (List.cons.inj equal).1 (by decide), fun absent => absurd found absent⟩
      · rw [replace_cons isBreak, List.cons.injEq, List.infix_cons_iff, not_or, ih]
        simp [isBreak]

/-- Line feeds with returns are made line feeds again. -/
theorem replace_replaceChar (text : Text) :
    Text.replace ['\r', '\n'] ['\n'] (Text.replaceChar '\n' ['\r', '\n'] text) = text := by
  induction text with
  | nil => rfl
  | cons first rest ih =>
      by_cases feed : first = '\n'
      · subst feed
        change Text.replace ['\r', '\n'] ['\n'] ('\r' :: '\n' :: Text.replaceChar '\n' ['\r', '\n'] rest) = _
        rw [replace_crlf, ih]
      · have written : Text.replaceChar '\n' ['\r', '\n'] (first :: rest) =
            first :: Text.replaceChar '\n' ['\r', '\n'] rest := by
          simp [Text.replaceChar, feed]
        have noBreak : ¬ ['\r', '\n'] <+: first :: Text.replaceChar '\n' ['\r', '\n'] rest := by
          rw [List.cons_prefix_cons, singleton_prefix_iff, not_and]
          intro _
          cases rest with
          | nil => simp
          | cons second others =>
              by_cases feed : second = '\n'
              · simp [Text.replaceChar, feed]
              · simp [Text.replaceChar, feed]
        rw [written, replace_cons noBreak, ih]

theorem normalizeNewLines_normalizeNewLines (text : Text) :
    normalizeNewLines false (normalizeNewLines true text) = normalizeNewLines false text :=
  replace_replaceChar _

end Format

/-! ## Spaces -/

/-- The texts in which line breaks are made alike: whitespace, what stands behind comments, and block comments. -/
def Space.breakTexts (space : Space) : List Text :=
  space.whitespace :: space.comments.flatMap fun comment =>
    comment.suffix :: if comment.isBlock then [comment.text] else []

namespace Format

theorem breakTexts_normalizeLineBreaks
    (useCrlf : Bool)
    (space : Space) :
    (normalizeLineBreaks useCrlf space).breakTexts = space.breakTexts.map (normalizeNewLines useCrlf) := by
  have each (comment : Comment) :
      ((alikeComment useCrlf comment).suffix ::
        if (alikeComment useCrlf comment).isBlock then [(alikeComment useCrlf comment).text] else []) =
      (comment.suffix :: if comment.isBlock then [comment.text] else []).map (normalizeNewLines useCrlf) := by
    obtain ⟨isBlock, text, suffix, markers⟩ := comment
    cases isBlock <;> rfl
  rw [Space.breakTexts, Space.breakTexts, normalizeLineBreaks_comments, normalizeLineBreaks_whitespace,
    List.flatMap_map, List.map_cons, List.map_flatMap]
  simp only [each]

/-- A space stays when all of its texts do. -/
theorem normalizeLineBreaks_eq_self_iff
    (useCrlf : Bool)
    (space : Space) :
    normalizeLineBreaks useCrlf space = space ↔
      forall text, text ∈ space.breakTexts -> normalizeNewLines useCrlf text = text := by
  constructor
  · intro same
    have texts := breakTexts_normalizeLineBreaks useCrlf space
    rw [same] at texts
    exact fun text member => List.map_inj_left.1 (texts.symm.trans (List.map_id _).symm) text member
  · intro stays
    obtain ⟨leading, others⟩ := List.forall_mem_cons.1 stays
    have atComment (comment : Comment) (member : comment ∈ space.comments) :=
      List.forall_mem_cons.1 fun text inside => others text (List.mem_flatMap.2 ⟨comment, member, inside⟩)
    have whitespace : space.mapWhitespace (normalizeNewLines useCrlf) = space :=
      mapWhitespace_of_stays leading fun comment member => (atComment comment member).1
    have comments : (space.comments.map fun comment =>
        if comment.isBlock then { comment with text := normalizeNewLines useCrlf comment.text } else comment) =
          space.comments := by
      refine (List.map_congr_left fun comment member => ?_).trans (List.map_id _)
      obtain ⟨-, text⟩ := atComment comment member
      obtain ⟨isBlock, text', suffix, markers⟩ := comment
      cases isBlock with
      | true => exact congrArg (Comment.mk true · suffix markers) (text text' (List.mem_singleton_self _))
      | false => rfl
    rw [normalizeLineBreaks, whitespace, comments, Space.withComments, if_pos (listAgrees_self _)]

/-- Line breaks that have been given returns are made line feeds again. -/
theorem renewed_normalizeLineBreaks (space : Space) :
    (normalizeLineBreaks false (normalizeLineBreaks true space)).renewed = (normalizeLineBreaks false space).renewed := by
  rw [Space.renewed, Space.renewed]
  congr 1
  · simp only [normalizeLineBreaks_whitespace, normalizeNewLines_normalizeNewLines]
  · simp only [normalizeLineBreaks_comments, List.map_map]
    refine List.map_congr_left fun comment _ => ?_
    obtain ⟨isBlock, text, suffix, markers⟩ := comment
    cases isBlock <;> simp [alikeComment, normalizeNewLines_normalizeNewLines]

end Format

namespace Format

open Java

/-- The fact with another suffix. -/
def mapSuffix (change : Space -> Space) : Fact Space -> Fact Space
  | .trailingComma suffix => .trailingComma (change suffix)
  | fact => fact

theorem fact_mapTrailingComma
    (change : Space -> Space)
    (marker : Marker Space) :
    (Exact.mapTrailingComma change marker).fact = mapSuffix change marker.fact := by
  unfold Exact.mapTrailingComma
  split
  · next suffix said =>
      split
      · next same => rw [said, mapSuffix, same]
      · rw [said]
        rfl
  · next other =>
      cases said : marker.fact with
      | trailingComma suffix => exact absurd said (other suffix)
      | _ => rfl

theorem suffixes_gapsOf
    (change : Space -> Space)
    (markers : Markers Space) :
    ((gapsOf fun _ => change).markers markers).suffixes = markers.suffixes.map change := by
  have suffix (fact : Fact Space) : (mapSuffix change fact).trailingComma? = fact.trailingComma?.map change := by
    cases fact <;> rfl
  rw [Markers.suffixes, Markers.suffixes, Markers.findAll, Markers.findAll, gapsOf, Markers.toList_withMarkers,
    List.filterMap_map, List.map_filterMap]
  refine List.filterMap_congr fun marker _ => ?_
  rw [Function.comp_apply, fact_mapTrailingComma, suffix]

theorem allSpaces_remake
    (change : Space -> Space)
    (form : Form (List Space)) :
    (form.remake (gapsOf fun _ => change) (List.map change)).allSpaces id = (form.allSpaces id).map change := by
  have space (place : SpacePlace) (space : Space) : (gapsOf fun _ => change).space place space = change space := rfl
  cases form with
  | conditional _ _ alternative =>
      cases alternative <;>
        simp [Form.remake, Form.allSpaces, RightPadded.allSpaces, RightPadded.remake, suffixes_gapsOf, space]
  | returns value => cases value <;> simp [Form.remake, Form.allSpaces]
  | call receiver =>
      cases receiver <;>
        simp [Form.remake, Form.allSpaces, RightPadded.allSpaces, RightPadded.remake, Container.allSpaces, Container.remake,
          List.flatMap_map, List.map_flatMap, suffixes_gapsOf, space]
  | declaration returnType _ _ body =>
      cases returnType <;> cases body <;>
        simp [Form.remake, Form.allSpaces, RightPadded.allSpaces, RightPadded.remake, Container.allSpaces, Container.remake,
          List.flatMap_map, List.map_flatMap, suffixes_gapsOf, space]
  | _ =>
      simp [Form.remake, Form.allSpaces, RightPadded.allSpaces, RightPadded.remake, LeftPadded.allSpaces, LeftPadded.remake,
        Container.allSpaces, Container.remake, List.flatMap_map, List.map_flatMap, suffixes_gapsOf, space]

/-- The spaces of the result are those of the tree, each of them changed. -/
theorem allSpaces_respaced
    (change : Space -> Space)
    (tree : Tree) :
    (respaced (gapsOf fun _ => change) tree).allSpaces = tree.allSpaces.map change := by
  induction tree using Tree.induction with
  | step head form ih =>
      let changed := gapsOf fun _ => change
      have children : (form.remake changed (respaced changed)).allSpaces Tree.allSpaces =
          (form.allSpaces Tree.allSpaces).map change := by
        calc (form.remake changed (respaced changed)).allSpaces Tree.allSpaces
          _ = ((form.remake changed (respaced changed)).map Tree.allSpaces).allSpaces id := by
              rw [Form.allSpaces_map]
              rfl
          _ = (form.remake changed fun child => child.allSpaces.map change).allSpaces id := by
              rw [Form.map_remake, Form.remake_congr changed ih]
          _ = ((form.map Tree.allSpaces).remake changed (List.map change)).allSpaces id := by
              rw [Form.remake_map]
          _ = (form.allSpaces Tree.allSpaces).map change := by
              rw [allSpaces_remake, Form.allSpaces_map]
              rfl
      have old : (Java.Tree.node head form).allSpaces =
          (Java.Tree.node head form).leading :: (head.markers.suffixes ++ form.allSpaces Tree.allSpaces) :=
        Tree.allSpaces_eq _
      rw [respaced_eq, Tree.allSpaces_eq, Tree.leading_remake, Tree.markers_remake, Tree.form_remake, suffixes_gapsOf,
        old, List.map_cons, List.map_append, ← children]
      rfl

/-! ## Trees that stay -/

section Stays

variable {change : Space -> Space} {child : Tree -> Tree}

/-- The spaces are left as they are. -/
def Stay
    (change : Space -> Space)
    (spaces : List Space) : Prop :=
  forall space, space ∈ spaces -> change space = space

theorem suffixes_eq_self
    {markers : Markers Space}
    (stay : Stay change markers.suffixes) :
    (gapsOf fun _ => change).markers markers = markers := by
  have list : markers.toList.map (Exact.mapTrailingComma change) = markers.toList := by
    refine (List.map_congr_left fun marker member => ?_).trans (List.map_id _)
    unfold Exact.mapTrailingComma
    split
    · next suffix said =>
        rw [if_pos (stay suffix (List.mem_filterMap.2 ⟨marker, member, by rw [said]; rfl⟩))]
        rfl
    · rfl
  change markers.withMarkers (markers.toList.map (Exact.mapTrailingComma change)) = markers
  rw [list, Markers.withMarkers_toList]

theorem padded_eq_self
    {place : ElementPlace}
    {padded : RightPadded Tree}
    (element : child padded.element = padded.element)
    (stay : Stay change (padded.allSpaces fun _ => [])) :
    padded.remake (gapsOf fun _ => change) place child = padded := by
  obtain ⟨after, suffixes⟩ := List.forall_mem_cons.1 stay
  rw [RightPadded.remake, element, suffixes_eq_self suffixes]
  exact congrArg (RightPadded.mk padded.element · padded.markers) after

theorem operand_eq_self
    {place : OperandPlace}
    {padded : LeftPadded α}
    {child : α -> α}
    (element : child padded.element = padded.element)
    (stay : Stay change (padded.allSpaces fun _ => [])) :
    padded.remake (gapsOf fun _ => change) place child = padded := by
  obtain ⟨before, suffixes⟩ := List.forall_mem_cons.1 stay
  rw [LeftPadded.remake, element, suffixes_eq_self suffixes]
  exact congrArg (LeftPadded.mk · padded.element padded.markers) before

theorem elements_eq_self
    {place : ElementPlace}
    {list : List (RightPadded Tree)}
    (elements : forall part, part ∈ RightPadded.elements list -> child part = part)
    (stay : Stay change (list.flatMap (·.allSpaces fun _ => []))) :
    list.map (·.remake (gapsOf fun _ => change) place child) = list :=
  (List.map_congr_left fun padded member => padded_eq_self (elements _ (List.mem_map_of_mem member))
    fun space inside => stay space (List.mem_flatMap.2 ⟨padded, member, inside⟩)).trans (List.map_id _)

theorem container_eq_self
    {place : ContainerPlace}
    {list : Container Tree}
    (elements : forall part, part ∈ list.elements -> child part = part)
    (stay : Stay change (list.allSpaces fun _ => [])) :
    list.remake (gapsOf fun _ => change) place child = list := by
  obtain ⟨before, others⟩ := List.forall_mem_cons.1 stay
  obtain ⟨inside, suffixes⟩ := List.forall_mem_append.1 others
  rw [Container.remake, elements_eq_self elements inside, suffixes_eq_self suffixes]
  exact congrArg (Container.mk · list.padded list.markers) before

/-- A form stays when its own spaces and its children do. -/
theorem remake_eq_self
    {form : Form Tree}
    (children : forall part, part ∈ form.children -> child part = part)
    (stay : Stay change (form.allSpaces fun _ => [])) :
    form.remake (gapsOf fun _ => change) child = form := by
  have option {part : Option Tree} (children : forall tree, tree ∈ part.toList -> child tree = tree) :
      part.map child = part := by
    cases part with
    | none => rfl
    | some part => exact congrArg some (children part (List.mem_singleton_self _))
  cases form with
  | compilationUnit dialect source statements eof =>
      obtain ⟨atStatements, atEof⟩ := List.forall_mem_append.1 stay
      rw [Form.remake, elements_eq_self children atStatements]
      exact congrArg (Form.compilationUnit dialect source statements) (atEof eof (List.mem_singleton_self _))
  | block statements closing =>
      obtain ⟨atStatements, atEnd⟩ := List.forall_mem_append.1 stay
      rw [Form.remake, elements_eq_self children atStatements]
      exact congrArg (Form.block statements) (atEnd closing (List.mem_singleton_self _))
  | conditional condition consequence alternative =>
      obtain ⟨front, -⟩ := List.forall_mem_append.1 stay
      obtain ⟨atCondition, others⟩ := List.forall_mem_cons.1 children
      obtain ⟨atConsequence, atAlternative⟩ := List.forall_mem_cons.1 others
      rw [Form.remake, atCondition, padded_eq_self atConsequence front, option atAlternative]
  | otherwise body => rw [Form.remake, padded_eq_self (children _ (List.mem_singleton_self _)) stay]
  | returns value => rw [Form.remake, option children]
  | assignment target value typeTag =>
      obtain ⟨atTarget, others⟩ := List.forall_mem_cons.1 children
      rw [Form.remake, atTarget, operand_eq_self (others _ (List.mem_singleton_self _)) stay]
  | binary left operator right typeTag =>
      obtain ⟨front, -⟩ := List.forall_mem_append.1 stay
      obtain ⟨atLeft, others⟩ := List.forall_mem_cons.1 children
      rw [Form.remake, atLeft, operand_eq_self rfl front, others _ (List.mem_singleton_self _)]
  | fieldAccess target name typeTag =>
      obtain ⟨atTarget, others⟩ := List.forall_mem_cons.1 children
      rw [Form.remake, atTarget, operand_eq_self (others _ (List.mem_singleton_self _)) stay]
  | call receiver name arguments typeTag =>
      obtain ⟨inReceiver, others⟩ := List.forall_mem_append.1 children
      obtain ⟨atName, inArguments⟩ := List.forall_mem_cons.1 others
      obtain ⟨front, atArguments⟩ := List.forall_mem_append.1 stay
      have atReceiver : receiver.map (·.remake (gapsOf fun _ => change) .methodSelect child) = receiver := by
        cases receiver with
        | none => rfl
        | some receiver =>
            refine congrArg some (padded_eq_self (inReceiver _ (List.mem_singleton_self _)) fun space inside => ?_)
            exact front space (by simpa using inside)
      rw [Form.remake, atReceiver, atName, container_eq_self inArguments atArguments]
  | declaration returnType name parameters body =>
      obtain ⟨front, inBody⟩ := List.forall_mem_append.1 children
      obtain ⟨inType, others⟩ := List.forall_mem_append.1 front
      obtain ⟨atName, inParameters⟩ := List.forall_mem_cons.1 others
      have atParameters : Stay change (parameters.allSpaces fun _ => []) := fun space inside =>
        stay space (by simp [Form.allSpaces, inside])
      rw [Form.remake, option inType, atName, container_eq_self inParameters atParameters, option inBody]
  | parentheses inner => rw [Form.remake, padded_eq_self (children _ (List.mem_singleton_self _)) stay]
  | collection kind elements typeTag => rw [Form.remake, container_eq_self children stay]
  | _ => rfl

/-- A tree stays just when all of its spaces do. -/
theorem respaced_eq_self_iff
    (change : Space -> Space)
    (tree : Tree) :
    respaced (gapsOf fun _ => change) tree = tree ↔ Stay change tree.allSpaces := by
  constructor
  · intro same
    have spaces := allSpaces_respaced change tree
    rw [same] at spaces
    exact fun space member => List.map_inj_left.1 (spaces.symm.trans (List.map_id _).symm) space member
  · intro stay
    induction tree using Tree.induction with
    | step head form ih =>
        rw [Tree.allSpaces_eq] at stay
        obtain ⟨leading, others⟩ := List.forall_mem_cons.1 stay
        obtain ⟨suffixes, inside⟩ := List.forall_mem_append.1 others
        have children : forall part, part ∈ form.children -> respaced (gapsOf fun _ => change) part = part :=
          fun part isChild => ih part isChild fun space member =>
            inside space (Form.mem_allSpaces_iff.2 (.inr ⟨part, isChild, member⟩))
        have same : form.remake (gapsOf fun _ => change) (respaced (gapsOf fun _ => change)) = form :=
          remake_eq_self children fun space member => inside space (Form.mem_allSpaces_iff.2 (.inl member))
        rw [respaced_eq, Tree.remake, suffixes_eq_self suffixes]
        change (Java.Tree.node head form).revise (change _) _ (form.remake _ _) = _
        rw [leading, same]
        exact Tree.revise_self _

end Stays

/-! ## One change after another -/

/-- All spaces and markers as new ones. -/
def renewing : GapChange := ⟨fun _ => Space.renewed, Markers.renewed⟩

theorem renewed_eq_remake
    (child : α -> β)
    (form : Form α) :
    form.renewed child = form.remake renewing child := by
  cases form <;> rfl

/-- Trees that are changed twice, or in one go, have the same content when single spaces and markers have. -/
theorem renewed_respaced_respaced
    {first second both : GapChange}
    (same : (first.andThen second).andThen renewing = both.andThen renewing)
    (tree : Tree) :
    (respaced second (respaced first tree)).renewed = (respaced both tree).renewed := by
  have space (place : SpacePlace) (space : Space) :
      (second.space place (first.space place space)).renewed = (both.space place space).renewed :=
    congrFun (congrFun (congrArg GapChange.space same) place) space
  have markers (markers : Markers Space) :
      (second.markers (first.markers markers)).renewed = (both.markers markers).renewed :=
    congrFun (congrArg GapChange.markers same) markers
  have renewed (tree : Tree) : tree.renewed =
      .node ⟨.pending, .pending, tree.leading.renewed, tree.markers.renewed⟩ (tree.form.remake renewing Tree.renewed) := by
    obtain ⟨head, form⟩ := tree
    rw [Tree.renewed_node, renewed_eq_remake]
    rfl
  induction tree using Tree.induction with
  | step head form ih =>
      rw [renewed, renewed (respaced both _), respaced_eq, respaced_eq first, respaced_eq both]
      simp only [Tree.leading_remake, Tree.markers_remake, Tree.form_remake, Form.leadingPlace_remake, space, markers,
        Form.remake_remake, same]
      exact congrArg (Java.Tree.node _) (Form.remake_congr _ ih)

/-! ## The pass -/

theorem lineBreaks_andThen :
    ((gapsOf fun _ => normalizeLineBreaks true).andThen (gapsOf fun _ => normalizeLineBreaks false)).andThen renewing =
      (gapsOf fun _ => normalizeLineBreaks false).andThen renewing := by
  have fact (fact : Fact Space) :
      (mapSuffix (normalizeLineBreaks false) (mapSuffix (normalizeLineBreaks true) fact)).renewed =
        (mapSuffix (normalizeLineBreaks false) fact).renewed := by
    cases fact with
    | trailingComma suffix => exact congrArg Fact.trailingComma (renewed_normalizeLineBreaks suffix)
    | _ => rfl
  unfold GapChange.andThen
  congr 1
  · funext _ space
    exact renewed_normalizeLineBreaks space
  · funext markers
    change Markers.renewed _ = Markers.renewed _
    rw [Markers.renewed, Markers.renewed, gapsOf, gapsOf, Markers.toList_withMarkers, Markers.toList_withMarkers,
      Markers.toList_withMarkers, List.map_map, List.map_map, List.map_map]
    refine congrArg _ (List.map_congr_left fun marker _ => ?_)
    simp only [Function.comp_apply, fact_mapTrailingComma, fact]

end Format

/-- The texts of a tree in which line breaks are made alike. -/
def Java.Tree.breakTexts (tree : Java.Tree) : List Text :=
  tree.allSpaces.flatMap Space.breakTexts

namespace Format

open Java

theorem breakTexts_respaced
    (useCrlf : Bool)
    (tree : Tree) :
    (respaced (gapsOf fun _ => normalizeLineBreaks useCrlf) tree).breakTexts =
      tree.breakTexts.map (normalizeNewLines useCrlf) := by
  rw [Tree.breakTexts, Tree.breakTexts, allSpaces_respaced, List.flatMap_map, List.map_flatMap]
  simp only [breakTexts_normalizeLineBreaks]

/--
Line breaks that have been made line feeds have no returns before them, and stay as they are when they are made line
feeds again, just when there were no two returns before a line feed. Giving them returns before makes no difference.
-/
theorem lineBreaks_areNormal_iff
    (cursor : TreeCursor)
    (tree : Tree) :
    exists new crlf back,
      (lineBreaks ⟨false⟩).run none cursor tree = .ok (some new) ∧
      (lineBreaks ⟨true⟩).run none cursor tree = .ok (some crlf) ∧
      (lineBreaks ⟨false⟩).run none cursor crlf = .ok (some back) ∧
      back.renewed = new.renewed ∧ back.bare = new.bare ∧
      ((forall text, text ∈ new.breakTexts -> ¬ ['\r', '\n'] <:+: text) ↔
        forall text, text ∈ tree.breakTexts -> ¬ ['\r', '\r', '\n'] <:+: text) ∧
      ((lineBreaks ⟨false⟩).run none cursor new = .ok (some new) ↔
        forall text, text ∈ tree.breakTexts -> ¬ ['\r', '\r', '\n'] <:+: text) := by
  have runs (useCrlf : Bool) (tree : Tree) : (lineBreaks ⟨useCrlf⟩).run none cursor tree =
      .ok (some (respaced (gapsOf fun _ => normalizeLineBreaks useCrlf) tree)) :=
    ofSpaces_run _ cursor tree
  have bare (useCrlf : Bool) (tree : Tree) :
      (respaced (gapsOf fun _ => normalizeLineBreaks useCrlf) tree).bare = tree.bare :=
    (ofSpaces_regaps isGapRelation_true fun _ _ => trivial).bare_eq (runs useCrlf tree)
  let new := respaced (gapsOf fun _ => normalizeLineBreaks false) tree
  have normal : (forall text, text ∈ new.breakTexts -> ¬ ['\r', '\n'] <:+: text) ↔
      forall text, text ∈ tree.breakTexts -> ¬ ['\r', '\r', '\n'] <:+: text := by
    rw [breakTexts_respaced, List.forall_mem_map]
    exact forall₂_congr fun text _ => not_congr (infix_replace_iff text)
  refine ⟨new, _, _, runs .., runs .., runs .., renewed_respaced_respaced lineBreaks_andThen tree, ?_, normal, ?_⟩
  · rw [bare, bare, bare]
  · rw [runs, ← normal, Except.ok.injEq, Option.some.injEq, respaced_eq_self_iff, Tree.breakTexts, List.forall_mem_flatMap]
    exact forall₂_congr fun space _ => (normalizeLineBreaks_eq_self_iff false space).trans
      (forall₂_congr fun text _ => replace_eq_self_iff text)

end Format
end Lossless
