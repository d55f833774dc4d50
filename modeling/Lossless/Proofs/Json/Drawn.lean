import Lossless.Json.Grammar
import Lossless.Proofs.Drawn
import Lossless.Proofs.Json.Copies
import Lossless.Proofs.Json.Renaming

/-!
# Parsing data trees with identifiers

The grammar of data trees, with an identifier drawn for every node that is built. It reads what the grammar without
identifiers reads and gives the same trees, and no identifier in a tree is there twice.
-/

namespace Lossless
namespace Json

open Lossless.Parser

namespace Drawing

open Json.Parser

/-- A new node after a space, with an identifier that is drawn for it. -/
def node
    (leading : Space)
    (form : Form Tree) : Drawing Tree := do
  let id <- Drawing.draw
  return .node ⟨.pending, id, leading, .empty⟩ form

/-- Read the elements of a list, and its closing delimiter. -/
def elements
    (close : Text)
    (element : Space -> Drawing Tree) : Nat -> Drawing (List (RightPadded Tree))
  | 0 => fail .exhausted
  | bound + 1 => do
      let leading <- gap
      if <- accept close then
        let empty <- node leading .empty
        return [.build empty]
      else
        let first <- element leading
        let after <- gap
        if <- accept close then
          return [⟨first, after, .empty⟩]
        else if <- accept [','] then
          return ⟨first, after, .empty⟩ :: (<- elements close element bound)
        else
          fail (.expected ("',' or '".toList ++ close ++ ['\'']))

/-- Read a delimited list. -/
def delimited
    (opening close : Text)
    (element : Space -> Drawing Tree) : Drawing (List (RightPadded Tree)) := do
  let _ <- (expect opening : Parser Unit)
  let text <- (get : Parser Text)
  elements close element (text.length + 1)

/-- Read a member. -/
def member
    (value : Space -> Drawing Tree)
    (leading : Space) : Drawing Tree := do
  let key <- key
  let after <- gap
  let _ <- (expect [':'] : Parser Unit)
  let valueLeading <- gap
  let value <- value valueLeading
  let key <- node .empty key
  node leading (.member ⟨key, after, .empty⟩ value)

/-- Read a value, with brackets nested as deep as given. -/
def valueWithin : Nat -> Space -> Drawing Tree
  | 0, _ => fail .exhausted
  | depth + 1, leading => do
      let form <-
        match <- (get : Parser Text) with
        | '\x7b' :: _ =>
            Form.object <$> delimited ['\x7b'] ['\x7d'] (member (valueWithin depth))
        | '[' :: _ => Form.array <$> delimited ['['] [']'] (valueWithin depth)
        | '"' :: _ => liftM string
        | first :: _ =>
            if first = '-' || first.isDigit then liftM number
            else liftM (word [.truth true, .truth false, .null])
        | [] => fail (.expected "value".toList)
      node leading form

/-- Read a document. -/
def document (path : Path) : Drawing Tree := do
  let leading <- gap
  let text <- (get : Parser Text)
  let value <- valueWithin (text.length + 1) leading
  let eof <- gap
  match <- (get : Parser Text) with
  | [] => node .empty (.document ⟨path, none, none⟩ value eof)
  | _ => fail (.unexpected "after document".toList)

/-- Parse a source as `Json.parse` does, with identifiers drawn from a number on; the next number comes with the tree. -/
def parse
    (source : Text)
    (path : Path)
    (next : Nat) : Except Error (Tree × Nat) :=
  match document path next source with
  | .ok (drawn, _) => .ok drawn
  | .error fault => .error (fault.toError source)

end Drawing

/-! ## Without identifiers -/

namespace Tree

/-- The tree with all identifiers left open. -/
def anonymous (tree : Tree) : Tree :=
  recurse (fun head form => node { head with id := .pending } (form.map Prod.snd)) tree

theorem anonymous_node
    (head : Head)
    (form : Form Tree) :
    (node head form).anonymous = node { head with id := .pending } (form.map anonymous) := by
  rw [anonymous, recurse_node, Form.map_map]
  rfl

theorem ids_anonymous
    (tree : Tree)
    (stamp : Stamp)
    (member : stamp ∈ tree.anonymous.ids) :
    stamp = .pending := by
  induction tree using Tree.induction with
  | step head form ih =>
      rw [anonymous_node, ids_node, Form.children_map] at member
      rcases List.mem_cons.1 member with atRoot | below
      · exact atRoot
      · obtain ⟨child, isChild, inside⟩ := List.mem_flatMap.1 below
        obtain ⟨original, isOriginal, rfl⟩ := List.mem_map.1 isChild
        exact ih original isOriginal inside

end Tree

/-! ## Forms without children -/

namespace Parser

/-- The parser gives forms without children. -/
def ReadsLeaves (parser : Parser (Form Tree)) : Prop :=
  forall text form rest, parser text = .ok (form, rest) -> form.children = []

theorem string_readsLeaves : ReadsLeaves string := by
  intro text form rest read
  unfold string at read
  cases outcome : scanString .plain (text.drop 1) with
  | error fault =>
      rw [outcome] at read
      cases read
  | ok scanned =>
      rw [outcome] at read
      cases read
      rfl

theorem number_readsLeaves : ReadsLeaves number := by
  intro text form rest read
  unfold number at read
  dsimp only at read
  split at read
  · cases read
    rfl
  · cases read

theorem word_readsLeaves (values : List Scalar) : ReadsLeaves (word values) := by
  intro text form rest read
  induction values generalizing text with
  | nil => exact (fail_eq_ok.1 read).elim
  | cons value others ih =>
      obtain ⟨found, middle, -, read⟩ := bind_eq_ok.1 read
      split at read
      · obtain ⟨rfl, -⟩ := pure_eq_ok.1 read
        rfl
      · exact ih middle read

theorem key_readsLeaves : ReadsLeaves key := by
  intro text form rest read
  obtain ⟨_, _, looked, read⟩ := bind_eq_ok.1 read
  obtain ⟨rfl, rfl⟩ := get_eq_ok.1 looked
  cases text with
  | nil => exact (fail_eq_ok.1 read).elim
  | cons first others =>
      dsimp only at read
      split at read
      · exact string_readsLeaves _ form rest read
      · split at read
        · obtain ⟨name, middle, -, read⟩ := bind_eq_ok.1 read
          obtain ⟨rfl, -⟩ := pure_eq_ok.1 read
          rfl
        · exact (fail_eq_ok.1 read).elim

end Parser

/-! ## Nothing is there twice -/

namespace Drawing

open Lossless.Drawing

variable {α β : Type} {known : Multiset Stamp}

section Continued

variable {ids : α -> Multiset Stamp} {forget : α -> β} {next : Tree -> Drawing α} {parser : Parser β}

/-- A new node has its own identifier beside those of its children, and something else stays known. -/
theorem andNode
    {leading : Space}
    {form : Form Tree}
    (kept : Multiset Stamp)
    (isKnown : stampsOf form.children + kept ≤ known)
    (later : forall tree, tree.anonymous = .buildAfter leading (form.map Tree.anonymous) ->
      Draws (tree.stamps + kept) (next tree) parser forget ids) :
    Draws known (node leading form >>= next) parser forget ids := by
  have built : Draws known (Drawing.draw >>= fun id => next (Tree.node ⟨.pending, id, leading, .empty⟩ form))
      (pure Stamp.pending >>= fun _ => parser) forget ids := by
    refine Draws.draw.andThen fun id => (later _ (Tree.anonymous_node _ form)).mono ?_
    rw [Tree.stamps_node, <- Multiset.singleton_add, add_assoc]
    gcongr
  exact built

end Continued

/-- A new node of known parts is the last thing that is made. -/
theorem draws_node
    {leading : Space}
    {form plain : Form Tree}
    (same : form.map Tree.anonymous = plain)
    (isKnown : stampsOf form.children ≤ known) :
    Draws known (node leading form) (pure (.buildAfter leading plain)) Tree.anonymous Tree.stamps := by
  have built : Draws known (node leading form >>= pure) (pure (.buildAfter leading plain)) Tree.anonymous
      Tree.stamps := by
    refine andNode 0 (isKnown.trans' (add_zero _).le) fun tree isNode => .pure (isNode.trans (by rw [same])) ?_
    rw [add_zero]
  rwa [bind_pure] at built

/-- Both read the same trees, and none of their identifiers is there twice. -/
def Reads
    (drawing : Space -> Drawing Tree)
    (parser : Space -> Parser Tree) : Prop :=
  forall leading, Draws 0 (drawing leading) (parser leading) Tree.anonymous Tree.stamps

/-- A form without children is the same without identifiers. -/
theorem draws_leaf
    {parser : Parser (Form Tree)}
    (leaves : Parser.ReadsLeaves parser) :
    Draws 0 (liftM parser) parser (Form.map Tree.anonymous) fun form => stampsOf form.children := by
  refine .plain fun text form rest read => ?_
  have isLeaf := leaves text form rest read
  constructor
  · exact (Form.map_eq_self_iff _ form).2 (by rw [isLeaf]; nofun)
  · rw [isLeaf, stampsOf, Stamp.ofAll_nil]

section Value

variable {element : Space -> Drawing Tree} {plain : Space -> Parser Tree} (reads : Reads element plain)

include reads

theorem draws_elements
    (close : Text)
    (bound : Nat) :
    Draws 0 (elements close element bound) (Parser.elements close plain bound)
      (List.map (·.map Tree.anonymous)) fun list => stampsOf (RightPadded.elements list) := by
  induction bound with
  | zero => exact .fail _
  | succ bound ih =>
      refine .lift fun leading => .lift fun closed => ?_
      split
      · refine andNode 0 (add_zero _).le fun empty isEmpty => .pure ?_ ?_
        · simp [RightPadded.map, RightPadded.build, isEmpty, Form.map]
        · simp [RightPadded.elements, RightPadded.build]
      · refine .andThen (reads leading) fun first => .lift fun after => .lift fun closed => ?_
        split
        · exact .pure rfl (by simp [RightPadded.elements])
        · refine .lift fun comma => ?_
          split
          · refine .andThen ih fun rest => .pure rfl ?_
            simp [RightPadded.elements, add_comm]
          · exact .fail _

theorem draws_delimited (opening close : Text) :
    Draws 0 (delimited opening close element) (Parser.delimited opening close plain)
      (List.map (·.map Tree.anonymous)) fun list => stampsOf (RightPadded.elements list) :=
  .lift fun _ => .lift fun _ => draws_elements reads close _

theorem draws_member : Reads (member element) (Parser.member plain) := by
  intro leading
  refine .andThen (draws_leaf Parser.key_readsLeaves) fun key => ?_
  refine .lift fun after => .lift fun _ => .lift fun valueLeading => .andThen (reads valueLeading) fun value => ?_
  refine andNode value.stamps (by simp [add_comm]) fun tree isTree => draws_node ?_ ?_
  · simp only [Form.map, RightPadded.map, isTree]
    rfl
  · simp [Form.children, add_comm]

end Value

theorem draws_valueWithin (depth : Nat) : Reads (valueWithin depth) (Parser.valueWithin depth) := by
  induction depth with
  | zero => exact fun _ => .fail _
  | succ depth ih =>
      intro leading
      have asNode (form : Form Tree) : Draws (stampsOf form.children + 0) (node leading form)
          (pure (.buildAfter leading (form.map Tree.anonymous))) Tree.anonymous Tree.stamps :=
        draws_node rfl (add_zero _).ge
      refine .lift fun text => ?_
      split
      · exact .andThen (.map (draws_delimited (draws_member ih) _ _) (fun _ => rfl) fun _ => le_rfl) asNode
      · exact .andThen (.map (draws_delimited ih _ _) (fun _ => rfl) fun _ => le_rfl) asNode
      · exact .andThen (draws_leaf Parser.string_readsLeaves) asNode
      · -- The grammar without identifiers looks at the same character, and comes to the same case.
        next first _ _ _ _ =>
          by_cases isNumber : (first = '-' || first.isDigit) = true
          · simp only [if_pos isNumber]
            exact .andThen (draws_leaf Parser.number_readsLeaves) asNode
          · simp only [if_neg isNumber]
            exact .andThen (draws_leaf (Parser.word_readsLeaves _)) asNode
      · exact .andThen (.fail _) asNode

theorem draws_document (path : Path) : Draws 0 (document path) (Parser.document path) Tree.anonymous Tree.stamps := by
  refine .lift fun leading => .lift fun text => .andThen (draws_valueWithin _ leading) fun value => ?_
  refine .lift fun eof => .lift fun rest => ?_
  cases rest with
  | nil => exact draws_node rfl (by simp [Form.children])
  | cons first others => exact .fail _

/-- The same trees are read, with open identifiers in the place of those that are drawn. -/
theorem parse_reads
    (source : Text)
    (path : Path)
    (next : Nat) :
    (parse source path next).map (fun drawn => drawn.1.anonymous) = Json.parse source path := by
  unfold parse Json.parse
  have same := (draws_document path).reads next source
  rw [<- same]
  cases document path next source <;> rfl

theorem parse_draws
    {source : Text}
    {path : Path}
    {next later : Nat}
    {tree : Tree}
    (parsed : parse source path next = .ok (tree, later)) :
    next ≤ later ∧ tree.stamps ≤ Stamp.drawn next later := by
  unfold parse at parsed
  split at parsed
  · next drawn rest read =>
      obtain rfl := Except.ok.inj parsed
      have areDrawn := (draws_document path).draws next source tree later rest read
      rwa [zero_add] at areDrawn
  · cases parsed

end Drawing
end Json
end Lossless
