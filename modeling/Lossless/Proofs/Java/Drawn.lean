import Lossless.Java.Language
import Lossless.Proofs.Java.Drawing
import Lossless.Proofs.Java.Form
import Lossless.Proofs.Java.Numbered

/-!
# No identifier is drawn twice

The grammar that draws identifiers reads what the grammar without them reads and gives the same trees. A node that
changes places keeps its identifier to itself, so the identifiers of a tree that is read are distinct.
-/

namespace Lossless
namespace Java

/-! ## Without identifiers -/

namespace Tree

/-- The tree with all identifiers left open. -/
def anonymous (tree : Tree) : Tree :=
  recurse (fun head form => node { head with id := .pending } (form.map Prod.snd)) tree

theorem anonymous_node
    (head : Head)
    (form : Form Tree) :
    (node head form).anonymous = node { head with id := .pending } (form.map anonymous) := by
  rw [anonymous, recurse_node, Form.map_map]
  rfl

@[simp] theorem leading_anonymous (tree : Tree) : tree.anonymous.leading = tree.leading := by
  obtain ⟨head, form⟩ := tree
  rw [anonymous_node]
  rfl

@[simp] theorem form_anonymous (tree : Tree) : tree.anonymous.form = tree.form.map anonymous := by
  obtain ⟨head, form⟩ := tree
  rw [anonymous_node]
  rfl

@[simp] theorem anonymous_withLeading
    (tree : Tree)
    (leading : Space) :
    (tree.withLeading leading).anonymous = tree.anonymous.withLeading leading := by
  obtain ⟨head, form⟩ := tree
  by_cases same : leading = head.leading
  · have unchanged (tree : Tree) : tree.withLeading tree.leading = tree := revise_self tree
    have atAnonymous : leading = (node head form).anonymous.leading := by rw [leading_anonymous]; exact same
    rw [show (node head form).withLeading leading = node head form from same ▸ unchanged _, atAnonymous, unchanged]
  · have changed : (node head form).withLeading leading = node ⟨.pending, head.id, leading, head.markers⟩ form :=
      if_neg fun all => same all.1
    have changedAnonymous : (node head form).anonymous.withLeading leading =
        node ⟨.pending, .pending, leading, head.markers⟩ (form.map anonymous) := by
      rw [anonymous_node]
      exact if_neg fun all => same all.1
    rw [changed, anonymous_node, changedAnonymous]

theorem ids_anonymous
    (tree : Tree)
    (stamp : Stamp)
    (member : stamp ∈ tree.anonymous.ids) :
    stamp = .pending := by
  induction tree using Tree.induction with
  | step head form ih =>
      rw [anonymous_node, ids_node, Form.children_map] at member
      rcases List.mem_cons.1 member with atRoot | below
      · exact atRoot
      · obtain ⟨child, isChild, inside⟩ := List.mem_flatMap.1 below
        obtain ⟨original, isOriginal, rfl⟩ := List.mem_map.1 isChild
        exact ih original isOriginal inside

end Tree

@[simp] theorem Tree.stamps_withLeading
    (tree : Tree)
    (leading : Space) :
    (tree.withLeading leading).stamps = tree.stamps := by
  rw [stamps, ids_withLeading, stamps]

/-! ## Nothing is there twice -/

namespace Drawing

open Lossless.Drawing

variable {known kept : Multiset Stamp}

section Continued

variable {ids : α -> Multiset Stamp} {forget : α -> β} {next : Tree -> Drawing α} {parser : Parser β}

/-- A new node has its own identifier beside those of its children, and something else stays known. -/
theorem andNodeBeside
    {leading : Space}
    {form : Form Tree}
    (isKnown : stampsOf form.children + kept ≤ known)
    (later : forall tree, tree.anonymous = .spaced leading (form.map Tree.anonymous) ->
      Draws (tree.stamps + kept) (next tree) parser forget ids) :
    Draws known (node leading form >>= next) parser forget ids := by
  have built : Draws known (Drawing.draw >>= fun id => next (Tree.node ⟨.pending, id, leading, .empty⟩ form))
      (pure Stamp.pending >>= fun _ => parser) forget ids := by
    refine Draws.draw.andThen fun id => (later _ (Tree.anonymous_node _ form)).mono ?_
    rw [Tree.stamps_node, <- Multiset.singleton_add, add_assoc]
    gcongr
  exact built

/-- A new node has its own identifier beside those of its children. -/
theorem andNode
    {leading : Space}
    {form : Form Tree}
    (isKnown : stampsOf form.children ≤ known)
    (later : forall tree, tree.anonymous = .spaced leading (form.map Tree.anonymous) ->
      Draws tree.stamps (next tree) parser forget ids) :
    Draws known (node leading form >>= next) parser forget ids :=
  andNodeBeside (by rwa [add_zero]) fun tree isNode => (later tree isNode).mono (add_zero _).ge

/-- A new node without children comes to what was known. -/
theorem andLeaf
    {leading : Space}
    {form : Form Tree}
    (isLeaf : form.children = [])
    (later : forall tree, tree.anonymous = .spaced leading (form.map Tree.anonymous) ->
      Draws (tree.stamps + known) (next tree) parser forget ids) :
    Draws known (node leading form >>= next) parser forget ids := by
  refine andNodeBeside ?_ later
  rw [isLeaf, stampsOf, Stamp.ofAll_nil, zero_add]

end Continued

/-- A new node of known parts is the last thing that is made. -/
theorem draws_node
    {leading : Space}
    {form plain : Form Tree}
    (same : form.map Tree.anonymous = plain)
    (isKnown : stampsOf form.children ≤ known) :
    Draws known (node leading form) (pure (.spaced leading plain)) Tree.anonymous Tree.stamps := by
  have built : Draws known (node leading form >>= pure) (pure (.spaced leading plain)) Tree.anonymous Tree.stamps := by
    exact andNode isKnown fun tree isNode => .pure (isNode.trans (by rw [same])) le_rfl
  rwa [bind_pure] at built

/-- Both read the same trees, and none of their identifiers is there twice. -/
def Reads
    (drawing : Space -> Drawing Tree)
    (parser : Space -> Parser Tree) : Prop :=
  forall leading, Draws 0 (drawing leading) (parser leading) Tree.anonymous Tree.stamps

section Expression

variable {element : Space -> Drawing Tree} {plain : Space -> Parser Tree} (reads : Reads element plain)

include reads

theorem draws_listElements
    (close : Text)
    (bound : Nat) :
    Draws 0 (listElements close element bound) (Parser.listElements close plain bound)
      (List.map (·.map Tree.anonymous)) fun list => stampsOf (RightPadded.elements list) := by
  induction bound with
  | zero => exact .fail _
  | succ bound ih =>
      refine .lift fun leading => .andThen (reads leading) fun first => .lift fun after => .lift fun comma => ?_
      split
      · refine .lift fun saved => .lift fun suffix => .lift fun closed => ?_
        split
        · exact .pure rfl (by simp [RightPadded.elements])
        · refine .lift fun _ => .andThen ih fun rest => .pure rfl ?_
          simp [RightPadded.elements, add_comm]
      · refine .lift fun closed => ?_
        split
        · exact .pure rfl (by simp [RightPadded.elements])
        · exact .fail _

theorem draws_container
    (before : Space)
    (delimiters : Text × Text) :
    Draws 0 (container element before delimiters) (Parser.container plain before delimiters)
      (Container.map Tree.anonymous) fun list => stampsOf list.elements := by
  refine .lift fun _ => .lift fun saved => .lift fun inner => .lift fun closed => ?_
  split
  · refine andLeaf rfl fun empty isEmpty => .pure ?_ ?_
    · simp [Container.map, RightPadded.map, RightPadded.build, isEmpty, Form.map]
    · simp [Container.elements, RightPadded.elements, RightPadded.build]
  · refine .lift fun _ => .andThen (draws_listElements reads _ _) fun list => .pure rfl ?_
    simp [Container.elements]

theorem draws_parentheses : Reads (parentheses element) (Parser.parentheses plain) := by
  intro leading
  refine .lift fun _ => .lift fun _ => .andThen (reads _) fun inner => .lift fun after => .lift fun _ => ?_
  exact draws_node rfl (by simp [Form.children])

theorem draws_arguments? :
    Draws 0 (arguments? element) (Parser.arguments? plain) (Option.map (Container.map Tree.anonymous)) fun list =>
      (list.map fun list => stampsOf list.elements).getD 0 := by
  refine .lift fun isCall => ?_
  split
  · exact .lift fun before => .andThen (draws_container reads _ _) fun list => .pure rfl (by simp)
  · exact .pure rfl (by simp)

theorem draws_word : Reads (word element) (Parser.word plain) := by
  intro leading
  refine .lift fun isTrue => .lift fun isFalse => .lift fun isNull => .lift fun name => ?_
  split
  · exact draws_node rfl (by simp [Form.children])
  · refine .andThen (draws_arguments? reads) fun arguments => ?_
    cases arguments with
    | none => exact draws_node rfl (by simp [Form.children])
    | some arguments =>
        exact andLeaf rfl fun name isName => draws_node (by simp only [Form.map, isName]; rfl)
          (by simp [Form.children])

theorem draws_primary : Reads (primary element) (Parser.primary plain) := by
  intro leading
  refine .lift fun text => ?_
  cases text with
  | nil => exact .fail _
  | cons first rest =>
      dsimp only
      split
      · exact draws_parentheses reads leading
      · split
        · refine .andThen (draws_container reads _ _) fun list => ?_
          exact draws_node rfl (by simp [Form.children])
        · split
          · cases splitQuoted? first false rest with
            | none => exact .fail _
            | some parts => exact .lift fun _ => draws_node rfl (by simp [Form.children])
          · split
            · exact .lift fun _ => .lift fun body => draws_node rfl (by simp [Form.children])
            · split
              · exact draws_word reads leading
              · exact .fail _

theorem draws_postfixes
    (bound : Nat)
    (tree : Tree) :
    Draws tree.stamps (postfixes element bound tree) (Parser.postfixes plain bound tree.anonymous) Tree.anonymous
      Tree.stamps := by
  induction bound generalizing tree with
  | zero => exact .fail _
  | succ bound ih =>
      refine .lift fun saved => .lift fun beforeDot => .lift fun isDot => ?_
      split
      · refine .lift fun nameLeading => .lift fun text => andLeaf rfl fun name isName => ?_
        refine .andThen (draws_arguments? reads) fun arguments => ?_
        cases arguments with
        | none =>
            refine andNode (by simp [Form.children, add_comm]) fun access isAccess => ?_
            have same : access.anonymous = tree.anonymous.leadingFrom fun target =>
                .fieldAccess target ⟨beforeDot, .spaced nameLeading (.identifier text none), .empty⟩ none := by
              simp [isAccess, isName, Tree.leadingFrom, Form.map, LeftPadded.map]
            have continued := ih access
            rwa [same] at continued
        | some arguments =>
            refine andNode (by simp [Form.children, add_comm, add_left_comm]) fun call isCall => ?_
            have same : call.anonymous = tree.anonymous.leadingFrom fun receiver =>
                .call (some ⟨receiver, beforeDot, .empty⟩) (.spaced nameLeading (.identifier text none))
                  (arguments.map Tree.anonymous) none := by
              simp [isCall, isName, Tree.leadingFrom, Form.map, RightPadded.map]
            have continued := ih call
            rwa [same] at continued
      · exact .lift fun _ => .pure rfl le_rfl

theorem draws_chained : Reads (chained element) (Parser.chained plain) := by
  intro leading
  refine .andThen (draws_primary reads leading) fun first => .lift fun text => ?_
  exact (draws_postfixes reads _ first).mono (add_zero _).ge

omit reads in
theorem draws_operations
    {operand : Nat -> Space -> Drawing Tree}
    {plainOperand : Nat -> Space -> Parser Tree}
    (readsOperand : forall precedence, Reads (operand precedence) (plainOperand precedence))
    (precedence bound : Nat)
    (left : Tree) :
    Draws left.stamps (operations operand precedence bound left)
      (Parser.operations plainOperand precedence bound left.anonymous) Tree.anonymous Tree.stamps := by
  induction bound generalizing left with
  | zero => exact .fail _
  | succ bound ih =>
      refine .lift fun saved => .lift fun before => .lift fun text => ?_
      cases Parser.operatorNext? text with
      | none => exact .lift fun _ => .pure rfl le_rfl
      | some next =>
          obtain ⟨operator, rest⟩ := next
          dsimp only
          split
          · refine .lift fun _ => .lift fun rightLeading => .andThen (readsOperand _ _) fun right => ?_
            refine andNode (by simp [Form.children, add_comm]) fun whole isWhole => ?_
            have same : whole.anonymous = left.anonymous.leadingFrom fun left =>
                .binary left ⟨before, operator, .empty⟩ right.anonymous none := by
              simp [isWhole, Tree.leadingFrom, Form.map]
            have continued := ih whole
            rwa [same] at continued
          · exact .lift fun _ => .pure rfl le_rfl

theorem draws_binary (levels precedence : Nat) :
    Reads (binary element levels precedence) (Parser.binary plain levels precedence) := by
  induction levels generalizing precedence with
  | zero => exact draws_chained reads
  | succ levels ih =>
      intro leading
      refine .andThen (draws_chained reads leading) fun first => .lift fun text => ?_
      exact (draws_operations ih precedence _ first).mono (add_zero _).ge

theorem draws_expressionStep : Reads (expressionStep element) (Parser.expressionStep plain) := by
  intro leading
  refine .andThen (draws_binary reads _ _ leading) fun target => .lift fun saved => .lift fun before => ?_
  refine .lift fun isEquality => .lift fun isAssignment => ?_
  split
  · refine .lift fun valueLeading => .andThen (reads valueLeading) fun value => ?_
    have same : (Form.assignment (target.withLeading .empty) ⟨before, value, .empty⟩ none).map Tree.anonymous =
        .assignment (target.anonymous.withLeading .empty) ⟨before, value.anonymous, .empty⟩ none := by
      simp [Form.map, LeftPadded.map]
    rw [Tree.leadingFrom, Tree.leading_anonymous]
    exact draws_node same (by simp [Form.children, add_comm])
  · exact .lift fun _ => .pure rfl (by simp)

end Expression

theorem draws_expressionWithin (nestings : Nat) :
    Reads (expressionWithin nestings) (Parser.expressionWithin nestings) := by
  induction nestings with
  | zero => exact fun _ => .fail _
  | succ nestings ih => exact draws_expressionStep ih

theorem draws_expression : Reads expression Parser.expression :=
  fun leading => .lift fun _ => draws_expressionWithin _ leading

/-! ## Statements -/

theorem draws_parameter : Reads parameter Parser.parameter := by
  intro leading
  refine .lift fun (first, more) => ?_
  cases more <;> exact draws_node rfl (by simp [Form.children])

/-- Both read the same padded trees, and none of their identifiers is there twice. -/
def ReadsPadded
    (drawing : Drawing (RightPadded Tree))
    (parser : Parser (RightPadded Tree)) : Prop :=
  Draws 0 drawing parser (·.map Tree.anonymous) fun padded => padded.element.stamps

/-- The return type is used later, beside what was known. -/
theorem andReturnType
    {ids : α -> Multiset Stamp}
    {forget : α -> β}
    {next : Tree -> Drawing α}
    {parser : Parser β}
    {first : Text}
    {more : List (Text × Text)}
    (later : forall tree, tree.anonymous = Parser.returnType first more ->
      Draws (tree.stamps + known) (next tree) parser forget ids) :
    Draws known (returnType first more >>= next) parser forget ids := by
  cases more <;> exact andLeaf rfl later

section Statement

variable {statement : Drawing (RightPadded Tree)} {plain : Parser (RightPadded Tree)}
variable (reads : ReadsPadded statement plain)

include reads

theorem draws_blockStatements (bound : Nat) :
    Draws 0 (blockStatements statement bound) (Parser.blockStatements plain bound)
      (Prod.map (List.map (·.map Tree.anonymous)) id) fun parts => stampsOf (RightPadded.elements parts.1) := by
  induction bound with
  | zero => exact .fail _
  | succ bound ih =>
      refine .lift fun saved => .lift fun closing => .lift fun closed => ?_
      split
      · exact .pure rfl (by simp [RightPadded.elements])
      · refine .lift fun text => ?_
        split
        · exact .fail _
        · refine .lift fun _ => .andThen reads fun first => .andThen ih fun parts => .pure rfl ?_
          simp [RightPadded.elements, add_comm]

theorem draws_block : Reads (block statement) (Parser.block plain) := by
  intro leading
  refine .lift fun _ => .lift fun text => .andThen (draws_blockStatements reads _) fun parts => ?_
  exact draws_node rfl (by simp [Form.children])

theorem draws_alternative :
    Draws 0 (alternative statement) (Parser.alternative plain) (Option.map Tree.anonymous) fun tree =>
      stampsOf tree.toList := by
  refine .lift fun saved => .lift fun leading => .lift fun isElse => ?_
  split
  · refine .lift fun _ => .andThen reads fun body => ?_
    refine andNode (by simp [Form.children]) fun tree isTree => .pure ?_ (by simp)
    simp [isTree, Form.map]
  · exact .lift fun _ => .pure rfl (by simp)

theorem draws_conditional : Reads (conditional statement) (Parser.conditional plain) := by
  intro leading
  refine .lift fun _ => .lift fun conditionLeading => ?_
  refine .andThen (draws_parentheses draws_expression conditionLeading) fun condition => .andThen reads fun consequence => ?_
  refine .andThen (draws_alternative reads) fun alternative => draws_node rfl ?_
  simp [Form.children, add_comm, add_left_comm]

omit reads in
theorem draws_returns : Reads returns Parser.returns := by
  intro leading
  refine .lift fun _ => .lift fun isBare => ?_
  split
  · exact draws_node rfl (by simp [Form.children])
  · refine .lift fun valueLeading => .andThen (draws_expression valueLeading) fun value => ?_
    exact draws_node rfl (by simp [Form.children])

theorem draws_body? :
    Draws 0 (body? statement) (Parser.declaration?.body? plain) (Option.map Tree.anonymous) fun tree =>
      stampsOf tree.toList := by
  refine .lift fun isBlock => ?_
  split
  · exact .lift fun leading => .andThen (draws_block reads leading) fun tree => .pure rfl (by simp)
  · exact .pure rfl (by simp)

theorem draws_declaration?
    (leading : Space) :
    Draws 0 (declaration? statement leading) (Parser.declaration? plain leading) (Option.map Tree.anonymous) fun tree =>
      stampsOf tree.toList := by
  refine .lift fun start => .lift fun isName => ?_
  split
  · refine .lift fun (first, more) => ?_
    dsimp only
    cases more.getLast? with
    | none => exact .lift fun _ => .pure rfl (by simp)
    | some last =>
        obtain ⟨nameRun, text⟩ := last
        refine .lift fun isDeclaration => ?_
        split
        · refine .lift fun before => .andThen (draws_container draws_parameter _ _) fun parameters => ?_
          refine .andThen (draws_body? reads) fun body => ?_
          refine andReturnType fun returnType isReturnType => andLeaf rfl fun name isName => ?_
          refine andNode (le_of_eq ?_) fun tree isTree => .pure ?_ (by simp)
          · simp only [Form.children, Option.toList_some, Stamp.ofAll_append, Stamp.ofAll_cons, Stamp.ofAll_nil]
            abel
          · simp [isTree, isReturnType, isName, Form.map]
        · exact .lift fun _ => .pure rfl (by simp)
  · exact .pure rfl (by simp)

omit reads in
theorem draws_terminated (tree : Tree) :
    Draws tree.stamps (terminated tree) (Parser.terminated tree.anonymous) (·.map Tree.anonymous) fun padded =>
      padded.element.stamps :=
  .lift fun _ => .lift fun _ => .pure rfl le_rfl

theorem draws_declarationOrExpression (leading : Space) :
    ReadsPadded (declarationOrExpression statement leading) (Parser.declarationOrExpression plain leading) := by
  refine .andThen (draws_declaration? reads leading) fun declaration => ?_
  cases declaration with
  | none =>
      refine .lift fun isElse => ?_
      split
      · exact .fail _
      · exact .andThen (draws_expression leading) fun tree => (draws_terminated tree).mono (by simp)
  | some tree =>
      have sameKind : tree.anonymous.form.isSelfTerminated = tree.form.isSelfTerminated := by
        rw [Tree.form_anonymous]
        cases tree.form <;> simp [Form.map, Form.isSelfTerminated]
      dsimp only [Option.map]
      rw [sameKind]
      split
      · exact .pure rfl (by simp [RightPadded.build])
      · exact (draws_terminated tree).mono (by simp)

theorem draws_statementStep : ReadsPadded (statementStep statement) (Parser.statementStep plain) := by
  refine .lift fun leading => .lift fun isBlock => ?_
  split
  · exact .andThen (draws_block reads leading) fun tree => .pure rfl (by simp [RightPadded.build])
  · refine .lift fun isConditional => ?_
    split
    · exact .andThen (draws_conditional reads leading) fun tree => .pure rfl (by simp [RightPadded.build])
    · refine .lift fun isEmpty => ?_
      split
      · refine andLeaf rfl fun tree isTree => .pure ?_ (by simp [RightPadded.build])
        rw [RightPadded.build, RightPadded.map, isTree]
        rfl
      · refine .lift fun isReturn => ?_
        split
        · exact .andThen (draws_returns leading) fun tree => (draws_terminated tree).mono (by simp)
        · exact draws_declarationOrExpression reads leading

end Statement

theorem draws_statementWithin (nestings : Nat) :
    ReadsPadded (statementWithin nestings) (Parser.statementWithin nestings) := by
  induction nestings with
  | zero => exact .fail _
  | succ nestings ih => exact draws_statementStep ih

theorem draws_statement : ReadsPadded statement Parser.statement :=
  .lift fun _ => draws_statementWithin _

theorem draws_unitStatements (bound : Nat) :
    Draws 0 (unitStatements bound) (Parser.unitStatements bound)
      (Prod.map (List.map (·.map Tree.anonymous)) id) fun parts => stampsOf (RightPadded.elements parts.1) := by
  induction bound with
  | zero => exact .fail _
  | succ bound ih =>
      refine .lift fun saved => .lift fun eof => .lift fun text => ?_
      split
      · exact .pure rfl (by simp [RightPadded.elements])
      · refine .lift fun _ => .andThen draws_statement fun first => .andThen ih fun parts => .pure rfl ?_
        simp [RightPadded.elements, add_comm]

theorem draws_unit (path : Path) : Draws 0 (unit path) (Parser.unit path) Tree.anonymous Tree.stamps := by
  refine .lift fun text => .andThen (draws_unitStatements _) fun parts => ?_
  exact draws_node rfl (by simp [Form.children])

/-- The same trees are read, with open identifiers in the place of those that are drawn. -/
theorem parse_reads
    (source : Text)
    (path : Path)
    (next : Nat) :
    (parse source path next).map (fun drawn => drawn.1.anonymous) = Java.parse source path := by
  unfold parse Java.parse
  cases Dialect.ofPath path with
  | python => rfl
  | java =>
      have same := (draws_unit path).reads next source
      dsimp only
      rw [<- same]
      cases unit path next source <;> rfl

/-- A parsed tree has open identifiers. -/
theorem ids_of_parse
    {source : Text}
    {path : Path}
    {tree : Tree}
    (parsed : Java.parse source path = .ok tree)
    (stamp : Stamp)
    (member : stamp ∈ tree.ids) :
    stamp = .pending := by
  have read := parse_reads source path 0
  rw [parsed] at read
  cases outcome : parse source path 0 with
  | error error =>
      rw [outcome] at read
      cases read
  | ok drawn =>
      rw [outcome] at read
      obtain rfl := Except.ok.inj read
      exact drawn.1.ids_anonymous stamp member

theorem parse_draws
    {source : Text}
    {path : Path}
    {next later : Nat}
    {tree : Tree}
    (parsed : parse source path next = .ok (tree, later)) :
    next ≤ later ∧ tree.stamps ≤ Stamp.drawn next later := by
  unfold parse at parsed
  cases dialect : Dialect.ofPath path with
  | python =>
      rw [dialect] at parsed
      cases parsed
  | java =>
      rw [dialect] at parsed
      dsimp only at parsed
      split at parsed
      · next drawn rest read =>
          obtain rfl := Except.ok.inj parsed
          have areDrawn := (draws_unit path).draws next source tree later rest read
          rwa [zero_add] at areDrawn
      · cases parsed

end Drawing
end Java
end Lossless
