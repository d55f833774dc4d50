import Lossless.Java.Language
import Lossless.Proofs.Java.Canonical
import Lossless.Proofs.Java.Numbered
import Lossless.Proofs.Parser.Outcome

/-!
# Where blocks stand

The grammar reads blocks where it reads statements and bodies, and nowhere else: no expression, parameter or type has a
block below it. A tree is sorted when each of its nodes is of a kind that can stand in its role. Every parsed tree is
sorted, whatever the text looks like, and so is the tree that numbering makes of it.
-/

namespace Lossless

namespace Parser

/-- Something holds of everything that a parser gives. -/
def Gives
    (parser : Parser α)
    (holds : α -> Prop) : Prop :=
  forall text value rest, parser text = .ok (value, rest) -> holds value

namespace Gives

variable {first parser : Parser α} {next : α -> Parser β} {known : α -> Prop} {holds : β -> Prop}

theorem bind
    (before : Gives first known)
    (after : forall value, known value -> Gives (next value) holds) :
    Gives (first >>= next) holds := by
  intro text result rest read
  obtain ⟨value, middle, readFirst, readNext⟩ := bind_eq_ok.1 read
  exact after value (before _ _ _ readFirst) _ _ _ readNext

/-- Whatever the first step gives, what follows it decides. -/
theorem skip (after : forall value, Gives (next value) holds) : Gives (first >>= next) holds :=
  bind (fun _ _ _ _ => trivial) fun value (_ : True) => after value

theorem pure
    {value : β}
    (here : holds value) :
    Gives (Pure.pure value) holds := by
  intro text result rest read
  obtain ⟨rfl, -⟩ := pure_eq_ok.1 read
  exact here

theorem fail (complaint : Complaint) : Gives (Parser.fail complaint) holds := fun _ _ _ read => nomatch read

end Gives
end Parser

namespace Java

/-! ## Roles -/

/-- What a node is to the node around it. -/
inductive Role
  /-- An expression or a name. -/
  | term
  /-- The return type or a parameter of a declaration, which can be words as they were written. -/
  | signature
  /-- A statement of a list, or what a conditional or an alternative leads to. -/
  | statement
  /-- The part of a conditional from its `else` on. -/
  | alternative
  /-- The body of a declaration. -/
  | body
  deriving DecidableEq

/-- Words that are kept as they were written. -/
def Form.isUnknown : Form α -> Bool
  | unknown _ => true
  | _ => false

/-- The kinds that can stand in a role. -/
def Role.admits : Role -> Form α -> Bool
  | term, form => form.isExpression && !form.isUnknown
  | signature, form => form.isExpression
  | statement, form => !form.isUnit && !form.isOtherwise && !form.isUnknown
  | alternative, form => form.isOtherwise
  | body, form => form.isBlock

/-- The children in source order, each with its role. -/
def Form.roles : Form α -> List (Role × α)
  | compilationUnit _ _ statements _ | block statements _ =>
      (RightPadded.elements statements).map (Prod.mk .statement)
  | conditional condition consequence alternative =>
      (.term, condition) :: (.statement, consequence.element) :: alternative.toList.map (Prod.mk .alternative)
  | otherwise body => [(.statement, body.element)]
  | declaration returnType name parameters body =>
      returnType.toList.map (Prod.mk .signature) ++ (.term, name) :: parameters.elements.map (Prod.mk .signature) ++
        body.toList.map (Prod.mk .body)
  | form => form.children.map (Prod.mk .term)

theorem Form.map_roles (form : Form α) : form.roles.map Prod.snd = form.children := by
  cases form <;> simp [roles, children, Function.comp_def]

theorem Form.exists_mem_roles
    {form : Form α}
    {child : α}
    (member : child ∈ form.children) :
    ∃ role, (role, child) ∈ form.roles := by
  rw [← map_roles] at member
  obtain ⟨⟨role, _⟩, isPart, rfl⟩ := List.mem_map.1 member
  exact ⟨role, isPart⟩

theorem Form.mem_children_of_mem_roles
    {form : Form α}
    {part : Role × α}
    (member : part ∈ form.roles) :
    part.2 ∈ form.children :=
  form.map_roles ▸ List.mem_map_of_mem member

/-- The parts of an expression are expressions. -/
theorem Form.roles_of_isExpression
    {form : Form α}
    (isExpression : form.isExpression = true) :
    form.roles = form.children.map (Prod.mk .term) := by
  cases form <;> first | rfl | cases isExpression

theorem Role.isExpression_of_admits
    {form : Form α}
    (admits : Role.term.admits form = true) :
    form.isExpression = true :=
  (Bool.and_eq_true_iff.1 admits).1

namespace Tree

/-- Every node below the tree is of a kind that can stand in its role. -/
def IsSorted (tree : Tree) : Prop :=
  forall node, node ∈ tree.nodes -> forall part, part ∈ node.form.roles -> part.1.admits part.2.form = true

/-- A sorted tree of a kind that can stand in a role. -/
structure Fills
    (role : Role)
    (tree : Tree) : Prop where
  admits : role.admits tree.form = true
  isSorted : tree.IsSorted

variable {role : Role} {tree : Tree} {leading : Space} {form : Form Tree}

/-- A tree is sorted when its parts are, and can stand where they do. -/
theorem isSorted_iff (tree : Tree) :
    tree.IsSorted ↔ forall part, part ∈ tree.form.roles -> part.2.Fills part.1 := by
  obtain ⟨head, form⟩ := tree
  constructor
  · intro sorted part member
    refine ⟨sorted _ (mem_nodes_self _) part member, fun node below => sorted node ?_⟩
    exact mem_nodes_of_mem_children (Form.mem_children_of_mem_roles member) below
  · intro parts node member
    rw [nodes_node, List.mem_cons, List.mem_flatMap] at member
    rcases member with rfl | ⟨child, isChild, below⟩
    · exact fun part isPart => (parts part isPart).admits
    · obtain ⟨role, isPart⟩ := Form.exists_mem_roles isChild
      exact (parts _ isPart).isSorted node below

theorem IsSorted.fills
    {role : Role}
    {child : Tree}
    (sorted : tree.IsSorted)
    (member : (role, child) ∈ tree.form.roles) :
    child.Fills role :=
  tree.isSorted_iff.1 sorted _ member

theorem IsSorted.of_mem_nodes
    {node : Tree}
    (sorted : tree.IsSorted)
    (member : node ∈ tree.nodes) :
    node.IsSorted :=
  fun _ below => sorted _ (mem_nodes_trans member below)

theorem IsSorted.of_mem_children
    {child : Tree}
    (sorted : tree.IsSorted)
    (isChild : child ∈ tree.form.children) :
    child.IsSorted :=
  sorted.of_mem_nodes (mem_nodes_of_mem_children isChild (mem_nodes_self child))

theorem fills_spaced
    (admits : role.admits form = true)
    (parts : forall part, part ∈ form.roles -> part.2.Fills part.1) :
    (spaced leading form).Fills role :=
  ⟨admits, (isSorted_iff _).2 parts⟩

theorem Fills.withLeading
    (fills : tree.Fills role)
    (leading : Space) :
    (tree.withLeading leading).Fills role := by
  have same : (tree.withLeading leading).form = tree.form := form_revise ..
  refine ⟨by rw [same]; exact fills.admits, (isSorted_iff _).2 ?_⟩
  rw [same]
  exact tree.isSorted_iff.1 fills.isSorted

/-- An expression can stand as a statement. -/
theorem Fills.statement (fills : tree.Fills .term) : tree.Fills .statement := by
  obtain ⟨admits, sorted⟩ := fills
  refine ⟨?_, sorted⟩
  cases form : tree.form <;> first | rfl | (rw [form] at admits; cases admits)

end Tree

/-! ## Expressions -/

namespace Parser

open Lossless.Parser

/-- What a parser gives can stand in a role. -/
abbrev GivesFor
    (role : Role)
    (parser : Space -> Parser Tree) : Prop :=
  forall leading, Gives (parser leading) (Tree.Fills role)

/-- A new node whose parts are expressions is one. -/
theorem fills_term
    {leading : Space}
    {form : Form Tree}
    (admits : Role.term.admits form = true)
    (children : forall child, child ∈ form.children -> child.Fills .term) :
    (Tree.spaced leading form).Fills .term := by
  refine Tree.fills_spaced admits ?_
  rw [Form.roles_of_isExpression (Role.isExpression_of_admits admits)]
  intro part member
  obtain ⟨child, isChild, rfl⟩ := List.mem_map.1 member
  exact children child isChild

section Lists

variable {role : Role} {element : Space -> Parser Tree} (gives : GivesFor role element)

include gives

theorem gives_listElements
    (close : Text)
    (bound : Nat) :
    Gives (listElements close element bound) fun list =>
      forall child, child ∈ RightPadded.elements list -> child.Fills role := by
  induction bound with
  | zero => exact .fail _
  | succ bound ih =>
      refine .skip fun leading => .bind (gives leading) fun first isFirst => .skip fun after => .skip fun comma => ?_
      split
      · refine .skip fun saved => .skip fun suffix => .skip fun closed => ?_
        split
        · exact .pure (List.forall_mem_singleton.2 isFirst)
        · exact .skip fun _ => .bind ih fun rest areRest => .pure (List.forall_mem_cons.2 ⟨isFirst, areRest⟩)
      · refine .skip fun closed => ?_
        split
        · exact .pure (List.forall_mem_singleton.2 isFirst)
        · exact .fail _

theorem gives_container
    (admits : role.admits (.empty : Form Tree) = true)
    (before : Space)
    (delimiters : Text × Text) :
    Gives (container element before delimiters) fun list => forall child, child ∈ list.elements -> child.Fills role := by
  refine .skip fun _ => .skip fun saved => .skip fun inner => .skip fun closed => ?_
  split
  · exact .pure (List.forall_mem_singleton.2 (Tree.fills_spaced admits nofun))
  · exact .skip fun _ => .bind (gives_listElements gives _ _) fun list areElements => .pure areElements

end Lists

section Expression

variable {element : Space -> Parser Tree} (gives : GivesFor .term element)

include gives

theorem gives_parentheses : GivesFor .term (parentheses element) := by
  intro leading
  refine .skip fun _ => .skip fun _ => .bind (gives _) fun inner isInner => .skip fun after => .skip fun _ => ?_
  exact .pure (fills_term rfl (List.forall_mem_singleton.2 isInner))

theorem gives_arguments? :
    Gives (arguments? element) fun list =>
      forall present, list = some present -> forall child, child ∈ present.elements -> child.Fills .term := by
  refine .skip fun isCall => ?_
  split
  · refine .skip fun before => .bind (gives_container gives rfl _ _) fun list areElements => .pure ?_
    rintro _ ⟨⟩
    exact areElements
  · exact .pure nofun

theorem gives_word : GivesFor .term (word element) := by
  intro leading
  refine .skip fun _ => .skip fun _ => .skip fun _ => .skip fun name => ?_
  split
  · exact .pure (fills_term rfl nofun)
  · refine .bind (gives_arguments? gives) fun arguments areArguments => ?_
    cases arguments with
    | none => exact .pure (fills_term rfl nofun)
    | some arguments =>
        exact .pure (fills_term rfl (List.forall_mem_cons.2 ⟨fills_term rfl nofun, areArguments _ rfl⟩))

theorem gives_primary : GivesFor .term (primary element) := by
  intro leading
  refine .skip fun text => ?_
  cases text with
  | nil => exact .fail _
  | cons first rest =>
      dsimp only
      split
      · exact gives_parentheses gives leading
      · split
        · exact .bind (gives_container gives rfl _ _) fun list areElements => .pure (fills_term rfl areElements)
        · split
          · cases splitQuoted? first false rest with
            | none => exact .fail _
            | some parts => exact .skip fun _ => .pure (fills_term rfl nofun)
          · split
            · exact .skip fun _ => .skip fun body => .pure (fills_term rfl nofun)
            · split
              · exact gives_word gives leading
              · exact .fail _

theorem gives_postfixes
    (bound : Nat)
    {tree : Tree}
    (fills : tree.Fills .term) :
    Gives (postfixes element bound tree) (Tree.Fills .term) := by
  induction bound generalizing tree with
  | zero => exact .fail _
  | succ bound ih =>
      have start := fills.withLeading .empty
      refine .skip fun saved => .skip fun beforeDot => .skip fun isDot => ?_
      split
      · refine .skip fun nameLeading => .skip fun text => ?_
        have isName : (Tree.spaced nameLeading (.identifier text none)).Fills .term := fills_term rfl nofun
        refine .bind (gives_arguments? gives) fun arguments areArguments => ?_
        cases arguments with
        | none => exact ih (fills_term rfl (by simpa [Form.children] using ⟨start, isName⟩))
        | some arguments =>
            refine ih (fills_term rfl ?_)
            exact List.forall_mem_cons.2 ⟨start, List.forall_mem_cons.2 ⟨isName, areArguments _ rfl⟩⟩
      · exact .skip fun _ => .pure fills

theorem gives_chained : GivesFor .term (chained element) := by
  intro leading
  exact .bind (gives_primary gives leading) fun first isFirst => .skip fun text => gives_postfixes gives _ isFirst

omit gives in
theorem gives_operations
    {operand : Nat -> Space -> Parser Tree}
    (givesOperand : forall precedence, GivesFor .term (operand precedence))
    (precedence bound : Nat)
    {left : Tree}
    (fills : left.Fills .term) :
    Gives (operations operand precedence bound left) (Tree.Fills .term) := by
  induction bound generalizing left with
  | zero => exact .fail _
  | succ bound ih =>
      refine .skip fun saved => .skip fun before => .skip fun text => ?_
      cases operatorNext? text with
      | none => exact .skip fun _ => .pure fills
      | some next =>
          obtain ⟨operator, rest⟩ := next
          dsimp only
          split
          · refine .skip fun _ => .skip fun rightLeading => .bind (givesOperand _ _) fun right isRight => ?_
            refine ih (fills_term rfl ?_)
            simpa [Form.children] using ⟨fills.withLeading .empty, isRight⟩
          · exact .skip fun _ => .pure fills

theorem gives_binary (levels precedence : Nat) : GivesFor .term (binary element levels precedence) := by
  induction levels generalizing precedence with
  | zero => exact gives_chained gives
  | succ levels ih =>
      intro leading
      refine .bind (gives_chained gives leading) fun first isFirst => .skip fun text => ?_
      exact gives_operations ih precedence _ isFirst

theorem gives_expressionStep : GivesFor .term (expressionStep element) := by
  intro leading
  refine .bind (gives_binary gives _ _ leading) fun target isTarget => .skip fun saved => .skip fun before => ?_
  refine .skip fun isEquality => .skip fun isAssignment => ?_
  split
  · refine .skip fun valueLeading => .bind (gives valueLeading) fun value isValue => .pure (fills_term rfl ?_)
    simpa [Form.children] using ⟨isTarget.withLeading .empty, isValue⟩
  · exact .skip fun _ => .pure isTarget

end Expression

theorem gives_expressionWithin (nestings : Nat) : GivesFor .term (expressionWithin nestings) := by
  induction nestings with
  | zero => exact fun _ => .fail _
  | succ nestings ih => exact gives_expressionStep ih

theorem gives_expression : GivesFor .term expression :=
  fun leading => .skip fun _ => gives_expressionWithin _ leading

/-! ## Statements -/

theorem gives_parameter : GivesFor .signature parameter := by
  intro leading
  refine .skip fun (first, more) => ?_
  cases more <;> exact .pure (Tree.fills_spaced rfl nofun)

theorem fills_returnType
    (first : Text)
    (more : List (Text × Text)) :
    (returnType first more).Fills .signature := by
  cases more <;> exact ⟨rfl, (Tree.isSorted_iff _).2 nofun⟩

/-- What a parser gives, with the padding after it, can stand as a statement. -/
abbrev GivesStatement (parser : Parser (RightPadded Tree)) : Prop :=
  Gives parser fun padded => padded.element.Fills .statement

section Statement

variable {statement : Parser (RightPadded Tree)} (gives : GivesStatement statement)

include gives

theorem gives_blockStatements (bound : Nat) :
    Gives (blockStatements statement bound) fun parts =>
      forall child, child ∈ RightPadded.elements parts.1 -> child.Fills .statement := by
  induction bound with
  | zero => exact .fail _
  | succ bound ih =>
      refine .skip fun saved => .skip fun closing => .skip fun closed => ?_
      split
      · exact .pure nofun
      · refine .skip fun text => ?_
        split
        · exact .fail _
        · refine .skip fun _ => .bind gives fun first isFirst => .bind ih fun parts areRest => ?_
          exact .pure (List.forall_mem_cons.2 ⟨isFirst, areRest⟩)

theorem gives_block
    {role : Role}
    (admits : forall statements closing, role.admits (.block statements closing : Form Tree) = true) :
    GivesFor role (block statement) := by
  intro leading
  refine .skip fun _ => .skip fun text => .bind (gives_blockStatements gives _) fun parts areStatements => ?_
  exact .pure (Tree.fills_spaced (admits _ _) (List.forall_mem_map.2 areStatements))

theorem gives_alternative :
    Gives (alternative statement) fun tree => forall child, child ∈ tree.toList -> child.Fills .alternative := by
  refine .skip fun saved => .skip fun leading => .skip fun isElse => ?_
  split
  · refine .skip fun _ => .bind gives fun body isBody => .pure (List.forall_mem_singleton.2 ?_)
    exact Tree.fills_spaced rfl (List.forall_mem_singleton.2 isBody)
  · exact .skip fun _ => .pure nofun

theorem gives_conditional : GivesFor .statement (conditional statement) := by
  intro leading
  refine .skip fun _ => .skip fun conditionLeading => ?_
  refine .bind (gives_parentheses gives_expression conditionLeading) fun condition isCondition => ?_
  refine .bind gives fun consequence isConsequence => .bind (gives_alternative gives) fun alternative isAlternative => ?_
  refine .pure (Tree.fills_spaced rfl ?_)
  exact List.forall_mem_cons.2 ⟨isCondition, List.forall_mem_cons.2 ⟨isConsequence, List.forall_mem_map.2 isAlternative⟩⟩

omit gives in
theorem gives_returns : GivesFor .statement returns := by
  intro leading
  refine .skip fun _ => .skip fun isBare => ?_
  split
  · exact .pure (Tree.fills_spaced rfl nofun)
  · refine .skip fun valueLeading => .bind (gives_expression valueLeading) fun value isValue => ?_
    exact .pure (Tree.fills_spaced rfl (List.forall_mem_singleton.2 isValue))

theorem gives_body? :
    Gives (declaration?.body? statement) fun tree => forall child, child ∈ tree.toList -> child.Fills .body := by
  refine .skip fun isBlock => ?_
  split
  · have asBody : GivesFor .body (block statement) := gives_block gives fun _ _ => rfl
    exact .skip fun leading => .bind (asBody leading) fun tree isBody => .pure (List.forall_mem_singleton.2 isBody)
  · exact .pure nofun

theorem gives_declaration? (leading : Space) :
    Gives (declaration? statement leading) fun tree => forall child, child ∈ tree.toList -> child.Fills .statement := by
  refine .skip fun start => .skip fun isName => ?_
  split
  · refine .skip fun (first, more) => ?_
    dsimp only
    cases more.getLast? with
    | none => exact .skip fun _ => .pure nofun
    | some last =>
        obtain ⟨nameRun, text⟩ := last
        refine .skip fun isDeclaration => ?_
        split
        · refine .skip fun before => .bind (gives_container gives_parameter rfl _ _) fun parameters areParameters => ?_
          refine .bind (gives_body? gives) fun body isBody => .pure (List.forall_mem_singleton.2 ?_)
          refine Tree.fills_spaced rfl (List.forall_mem_append.2 ⟨?_, List.forall_mem_map.2 isBody⟩)
          refine List.forall_mem_cons.2 ⟨fills_returnType _ _, List.forall_mem_cons.2 ⟨fills_term rfl nofun, ?_⟩⟩
          exact List.forall_mem_map.2 areParameters
        · exact .skip fun _ => .pure nofun
  · exact .pure nofun

omit gives in
theorem gives_terminated
    {tree : Tree}
    (fills : tree.Fills .statement) :
    GivesStatement (terminated tree) :=
  .skip fun _ => .skip fun _ => .pure fills

theorem gives_declarationOrExpression (leading : Space) :
    GivesStatement (declarationOrExpression statement leading) := by
  refine .bind (gives_declaration? gives leading) fun declaration isDeclaration => ?_
  cases declaration with
  | none =>
      refine .skip fun isElse => ?_
      split
      · exact .fail _
      · exact .bind (gives_expression leading) fun tree isValue => gives_terminated isValue.statement
  | some tree =>
      have fills := isDeclaration tree (List.mem_singleton_self tree)
      dsimp only
      split
      · exact .pure fills
      · exact gives_terminated fills

theorem gives_statementStep : GivesStatement (statementStep statement) := by
  refine .skip fun leading => .skip fun isBlock => ?_
  split
  · have asStatement : GivesFor .statement (block statement) := gives_block gives fun _ _ => rfl
    exact .bind (asStatement leading) fun tree fills => .pure fills
  · refine .skip fun isConditional => ?_
    split
    · exact .bind (gives_conditional gives leading) fun tree fills => .pure fills
    · refine .skip fun isEmpty => ?_
      split
      · exact .pure (Tree.fills_spaced rfl nofun)
      · refine .skip fun isReturn => ?_
        split
        · exact .bind (gives_returns leading) fun tree fills => gives_terminated fills
        · exact gives_declarationOrExpression gives leading

end Statement

theorem gives_statementWithin (nestings : Nat) : GivesStatement (statementWithin nestings) := by
  induction nestings with
  | zero => exact .fail _
  | succ nestings ih => exact gives_statementStep ih

theorem gives_statement : GivesStatement statement :=
  .skip fun _ => gives_statementWithin _

theorem gives_unitStatements (bound : Nat) :
    Gives (unitStatements bound) fun parts =>
      forall child, child ∈ RightPadded.elements parts.1 -> child.Fills .statement := by
  induction bound with
  | zero => exact .fail _
  | succ bound ih =>
      refine .skip fun saved => .skip fun eof => .skip fun text => ?_
      split
      · exact .pure nofun
      · refine .skip fun _ => .bind gives_statement fun first isFirst => .bind ih fun parts areRest => ?_
        exact .pure (List.forall_mem_cons.2 ⟨isFirst, areRest⟩)

theorem gives_unit (path : Path) : Gives (unit path) fun tree => tree.form.isUnit = true ∧ tree.IsSorted := by
  refine .skip fun text => .bind (gives_unitStatements _) fun parts areStatements => ?_
  exact .pure ⟨rfl, (Tree.isSorted_iff _).2 (List.forall_mem_map.2 areStatements)⟩

end Parser

/-- Every source is parsed as a sorted unit. -/
theorem isSorted_of_parse
    {source : Text}
    {path : Path}
    {tree : Tree}
    (parsed : parse source path = .ok tree) :
    tree.form.isUnit = true ∧ tree.IsSorted := by
  unfold parse at parsed
  cases dialect : Dialect.ofPath path with
  | python =>
      rw [dialect] at parsed
      cases parsed
  | java =>
      rw [dialect] at parsed
      dsimp only at parsed
      split at parsed
      · next unit rest read =>
          obtain rfl := Except.ok.inj parsed
          exact Parser.gives_unit path source unit rest read
      · cases parsed

/-! ## Numbered trees -/

section Numbered

variable {settleChild : Tree -> Numbering Tree}

/-- A node is what the numbering of another one gives, from some number on. -/
def IsNumbered
    (settleChild : Tree -> Numbering Tree)
    (old new : Tree) : Prop :=
  ∃ next, new = ((settleChild old).run next).1

/-- The same role of a node that is numbered. -/
def KeepsRole
    (settleChild : Tree -> Numbering Tree)
    (old new : Role × Tree) : Prop :=
  new.1 = old.1 ∧ IsNumbered settleChild old.2 new.2

theorem keepsRole_map
    (role : Role)
    {old new : List Tree}
    (numbered : List.Forall₂ (IsNumbered settleChild) old new) :
    List.Forall₂ (KeepsRole settleChild) (old.map (Prod.mk role)) (new.map (Prod.mk role)) :=
  List.forall₂_map_left_iff.2 (List.forall₂_map_right_iff.2 (numbered.imp fun _ _ first => ⟨rfl, first⟩))

theorem isNumbered_list
    (list : List (RightPadded Tree))
    (next : Nat) :
    List.Forall₂ (IsNumbered settleChild) (RightPadded.elements list)
      (RightPadded.elements ((list.mapM (RightPadded.settle settleChild)).run next).1) := by
  induction list generalizing next with
  | nil => exact .nil
  | cons first rest ih =>
      rw [List.mapM_cons]
      exact .cons ⟨_, rfl⟩ (ih _)

theorem isNumbered_option
    (child : Option Tree)
    (next : Nat) :
    List.Forall₂ (IsNumbered settleChild) child.toList ((Form.settleOption settleChild child).run next).1.toList := by
  cases child with
  | none => exact .nil
  | some child => exact .cons ⟨_, rfl⟩ .nil

/-- Numbering leaves each part its role. -/
theorem keepsRole_settle
    (form : Form Tree)
    (next : Nat) :
    List.Forall₂ (KeepsRole settleChild) form.roles ((form.settle settleChild).run next).1.roles := by
  cases form with
  | compilationUnit dialect source statements eof => exact keepsRole_map _ (isNumbered_list statements _)
  | block statements closing => exact keepsRole_map _ (isNumbered_list statements _)
  | conditional condition consequence alternative =>
      exact .cons ⟨rfl, _, rfl⟩ (.cons ⟨rfl, _, rfl⟩ (keepsRole_map _ (isNumbered_option alternative _)))
  | otherwise body => exact .cons ⟨rfl, _, rfl⟩ .nil
  | returns value => exact keepsRole_map _ (isNumbered_option value _)
  | assignment target value typeTag => exact .cons ⟨rfl, _, rfl⟩ (.cons ⟨rfl, _, rfl⟩ .nil)
  | binary left operator right typeTag => exact .cons ⟨rfl, _, rfl⟩ (.cons ⟨rfl, _, rfl⟩ .nil)
  | identifier name typeTag => exact .nil
  | literal source typeTag => exact .nil
  | fieldAccess target name typeTag => exact .cons ⟨rfl, _, rfl⟩ (.cons ⟨rfl, _, rfl⟩ .nil)
  | call receiver name list typeTag =>
      cases receiver with
      | none => exact keepsRole_map .term (.cons ⟨_, rfl⟩ (isNumbered_list list.padded _))
      | some receiver => exact keepsRole_map .term (.cons ⟨_, rfl⟩ (.cons ⟨_, rfl⟩ (isNumbered_list list.padded _)))
  | declaration returnType name list body =>
      refine List.rel_append (List.rel_append ?_ ?_) (keepsRole_map .body (isNumbered_option body _))
      · exact keepsRole_map .signature (isNumbered_option returnType _)
      · exact .cons ⟨rfl, _, rfl⟩ (keepsRole_map .signature (isNumbered_list list.padded _))
  | parentheses inner => exact .cons ⟨rfl, _, rfl⟩ .nil
  | collection kind list typeTag => exact keepsRole_map .term (isNumbered_list list.padded _)
  | empty => exact .nil
  | unknown text => exact .nil

theorem fills_of_keepsRole
    {old new : List (Role × Tree)}
    (keeps : List.Forall₂ (KeepsRole settleChild) old new)
    (numbered : forall part, part ∈ old -> forall next, ((settleChild part.2).run next).1.Fills part.1) :
    forall part, part ∈ new -> part.2.Fills part.1 := by
  induction keeps with
  | nil => exact nofun
  | @cons first firstNew _ _ here _ ih =>
      obtain ⟨fills, others⟩ := List.forall_mem_cons.1 numbered
      obtain ⟨role, next, isNew⟩ := here
      refine List.forall_mem_cons.2 ⟨?_, ih others⟩
      rw [role, isNew]
      exact fills next

/-- Numbering keeps the kind. -/
theorem admits_settle
    (role : Role)
    (form : Form Tree)
    (next : Nat) :
    role.admits ((form.settle settleChild).run next).1 = role.admits form := by
  cases role <;> cases form <;> rfl

theorem isUnit_settle
    (form : Form Tree)
    (next : Nat) :
    ((form.settle settleChild).run next).1.isUnit = form.isUnit := by
  cases form <;> rfl

end Numbered

namespace Tree

variable {tree : Tree}

theorem form_settle
    (tree : Tree)
    (next : Nat) :
    ∃ later, (tree.settle.run next).1.form = ((tree.form.settle settle).run later).1 := by
  obtain ⟨head, form⟩ := tree
  rw [settle_node]
  exact ⟨_, rfl⟩

/-- A tree that is numbered stays sorted. -/
theorem IsSorted.settle
    (sorted : tree.IsSorted)
    (next : Nat) :
    (tree.settle.run next).1.IsSorted := by
  induction tree using Tree.induction generalizing next with
  | step head form ih =>
      obtain ⟨later, atForm⟩ := (node head form).form_settle next
      rw [isSorted_iff, atForm]
      refine fills_of_keepsRole (keepsRole_settle form later) fun part member next => ?_
      have fills : part.2.Fills part.1 := sorted.fills member
      obtain ⟨later, atPart⟩ := part.2.form_settle next
      refine ⟨?_, ih _ (Form.mem_children_of_mem_roles member) fills.isSorted next⟩
      rw [atPart, admits_settle]
      exact fills.admits

theorem isUnit_form_settle
    (tree : Tree)
    (next : Nat) :
    (tree.settle.run next).1.form.isUnit = tree.form.isUnit := by
  obtain ⟨later, atForm⟩ := tree.form_settle next
  rw [atForm, isUnit_settle]

end Tree

end Java
end Lossless
