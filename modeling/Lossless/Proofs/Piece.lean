import Lossless.Piece

/-!
# Lists of pieces

The spaces, the tokens and the starts of nodes of pieces that are printed one after the other.
-/

namespace Lossless

variable {π α : Type}

namespace Piece

/-- The identifiers of the nodes that are printed, each where its own text starts. -/
def starts (pieces : List (Piece π)) : List Stamp :=
  pieces.filterMap fun
    | start id _ => some id
    | _ => none

@[simp] theorem starts_nil : starts ([] : List (Piece π)) = [] := rfl

@[simp] theorem starts_append (pieces more : List (Piece π)) :
    starts (pieces ++ more) = starts pieces ++ starts more := by
  simp [starts]

theorem starts_flatMap
    (print : α -> List (Piece π))
    (list : List α) :
    starts (list.flatMap print) = list.flatMap fun element => starts (print element) := by
  rw [starts, List.filterMap_flatMap]
  rfl

@[simp] theorem starts_space
    (place : π)
    (content : Space)
    (pieces : List (Piece π)) :
    starts (.space place content :: pieces) = starts pieces := rfl

@[simp] theorem starts_token
    (text : Text)
    (pieces : List (Piece π)) :
    starts (.token text :: pieces) = starts pieces := rfl

@[simp] theorem starts_start
    (id : Stamp)
    (markers : Markers Space)
    (pieces : List (Piece π)) :
    starts (.start id markers :: pieces) = id :: starts pieces := rfl

@[simp] theorem starts_finish
    (id : Stamp)
    (pieces : List (Piece π)) :
    starts (.finish id :: pieces) = starts pieces := rfl

@[simp] theorem spaces_nil : spaces ([] : List (Piece π)) = [] := rfl

@[simp] theorem spaces_append (pieces more : List (Piece π)) :
    spaces (pieces ++ more) = spaces pieces ++ spaces more := by
  simp [spaces]

theorem spaces_flatMap
    (print : α -> List (Piece π))
    (list : List α) :
    spaces (list.flatMap print) = list.flatMap fun element => spaces (print element) := by
  rw [spaces, List.filterMap_flatMap]
  rfl

@[simp] theorem spaces_space
    (place : π)
    (content : Space)
    (pieces : List (Piece π)) :
    spaces (.space place content :: pieces) = (place, content) :: spaces pieces := rfl

@[simp] theorem spaces_token
    (text : Text)
    (pieces : List (Piece π)) :
    spaces (.token text :: pieces) = spaces pieces := rfl

@[simp] theorem spaces_start
    (id : Stamp)
    (markers : Markers Space)
    (pieces : List (Piece π)) :
    spaces (.start id markers :: pieces) = spaces pieces := rfl

@[simp] theorem spaces_finish
    (id : Stamp)
    (pieces : List (Piece π)) :
    spaces (.finish id :: pieces) = spaces pieces := rfl

theorem mem_spaces_iff
    {gap : π × Space}
    {pieces : List (Piece π)} :
    gap ∈ spaces pieces ↔ .space gap.1 gap.2 ∈ pieces := by
  induction pieces with
  | nil => simp [spaces]
  | cons first rest ih => cases first <;> simp [ih, Prod.ext_iff]

@[simp] theorem tokens_nil : tokens ([] : List (Piece π)) = [] := rfl

@[simp] theorem tokens_append (pieces more : List (Piece π)) :
    tokens (pieces ++ more) = tokens pieces ++ tokens more := by
  simp [tokens]

@[simp] theorem tokens_space
    (place : π)
    (content : Space)
    (pieces : List (Piece π)) :
    tokens (.space place content :: pieces) = tokens pieces := rfl

@[simp] theorem tokens_token
    (text : Text)
    (pieces : List (Piece π)) :
    tokens (.token text :: pieces) = text :: tokens pieces := rfl

@[simp] theorem tokens_start
    (id : Stamp)
    (markers : Markers Space)
    (pieces : List (Piece π)) :
    tokens (.start id markers :: pieces) = tokens pieces := rfl

@[simp] theorem tokens_finish
    (id : Stamp)
    (pieces : List (Piece π)) :
    tokens (.finish id :: pieces) = tokens pieces := rfl

theorem mem_tokens_iff
    {token : Text}
    {pieces : List (Piece π)} :
    token ∈ tokens pieces ↔ .token token ∈ pieces := by
  induction pieces with
  | nil => simp
  | cons first rest ih => cases first <;> simp [ih]

/-! ## Before a node -/

section Before

variable {id : Stamp} {pieces more before : List (Piece π)}

/-- A piece that does not start the node stands before it. -/
theorem beforeStart?_cons
    {piece : Piece π}
    (other : id ∉ starts [piece]) :
    beforeStart? id (piece :: pieces) = (beforeStart? id pieces).map (piece :: ·) := by
  cases piece with
  | start started markers =>
      exact if_neg fun same : started = id => other (same ▸ List.mem_singleton_self _)
  | _ => rfl

theorem beforeStart?_append_of_notMem (absent : id ∉ starts before) :
    beforeStart? id (before ++ pieces) = (beforeStart? id pieces).map (before ++ ·) := by
  induction before with
  | nil => exact Option.map_id'.symm
  | cons first rest ih =>
      rw [← List.singleton_append, starts_append, List.mem_append, not_or] at absent
      rw [List.cons_append, beforeStart?_cons absent.1, ih absent.2, Option.map_map]
      rfl

theorem beforeStart?_append_of_mem (present : id ∈ starts pieces) :
    beforeStart? id (pieces ++ more) = beforeStart? id pieces := by
  induction pieces with
  | nil => cases present
  | cons first rest ih =>
      by_cases here : id ∈ starts [first]
      · cases first with
        | start started markers =>
            obtain rfl := List.mem_singleton.1 here
            rw [List.cons_append, beforeStart?, beforeStart?, if_pos rfl, if_pos rfl]
        | _ => cases here
      · rw [← List.singleton_append, starts_append, List.mem_append] at present
        rw [List.cons_append, beforeStart?_cons here, beforeStart?_cons here, ih (present.resolve_left here)]

/-- The pieces before a node are the first ones. -/
theorem exists_behind (found : beforeStart? id pieces = some before) : ∃ behind, before ++ behind = pieces := by
  induction pieces generalizing before with
  | nil => cases found
  | cons first rest ih =>
      by_cases here : id ∈ starts [first]
      · cases first with
        | start started markers =>
            obtain rfl := List.mem_singleton.1 here
            rw [beforeStart?, if_pos rfl] at found
            obtain rfl := Option.some.inj found
            exact ⟨_, List.nil_append _⟩
        | _ => cases here
      · rw [beforeStart?_cons here, Option.map_eq_some_iff] at found
        obtain ⟨later, found, rfl⟩ := found
        obtain ⟨behind, rfl⟩ := ih found
        exact ⟨behind, rfl⟩

theorem isSome_beforeStart? : (beforeStart? id pieces).isSome = true ↔ id ∈ starts pieces := by
  induction pieces with
  | nil => simp [beforeStart?]
  | cons first rest ih =>
      by_cases here : id ∈ starts [first]
      · cases first with
        | start started markers =>
            obtain rfl := List.mem_singleton.1 here
            simp [beforeStart?]
        | _ => cases here
      · rw [beforeStart?_cons here, Option.isSome_map, ih, ← List.singleton_append, starts_append, List.mem_append]
        exact (or_iff_right here).symm

variable {delimiters : CommentDelimiters} {output : MarkerOutput}

/-- Behind pieces that do not start the node, their text is printed before it, too. -/
theorem textBefore?_append_of_notMem (absent : id ∉ starts before) :
    textBefore? delimiters output id (before ++ pieces) =
      (textBefore? delimiters output id pieces).map (renderAll delimiters output before ++ ·) := by
  rw [textBefore?, beforeStart?_append_of_notMem absent, textBefore?, Option.map_map, Option.map_map]
  refine congrArg (Option.map · _) (funext fun later => ?_)
  exact renderAll_append ..

/-- Where a part of the pieces is the only one that starts the node, what is printed before the part comes first. -/
theorem textBefore?_of_infix
    {whole after : List (Piece π)}
    (distinct : (starts whole).Nodup)
    (split : before ++ pieces ++ after = whole)
    (present : id ∈ starts pieces) :
    textBefore? delimiters output id whole =
      (textBefore? delimiters output id pieces).map (renderAll delimiters output before ++ ·) := by
  have absent : id ∉ starts before := by
    rw [← split, List.append_assoc, starts_append, starts_append] at distinct
    exact fun member => (List.nodup_append.1 distinct).2.2 id member id (List.mem_append_left _ present) rfl
  rw [← split, List.append_assoc, textBefore?_append_of_notMem absent, textBefore?, beforeStart?_append_of_mem present,
    textBefore?]

end Before

end Piece

end Lossless
