import Lossless.Files.Snapshot

/-!
# Files in memory as they are written

Writing over a file changes no way to any file. In a state where nothing is both a file and a directory, a path
under which a file stands can be written, at the place where the file stands.
-/

namespace Lossless
namespace Files
namespace Snapshot

/-! ## Ways -/

/-- The same ways lead to files and directories; only what files hold may differ. -/
structure SameWays (before after : Snapshot) : Prop where
  places : after.files.map Prod.fst = before.files.map Prod.fst
  directories : after.directories = before.directories
  current : after.current = before.current

/-- Nothing is both a file and a directory. -/
def IsTree (snapshot : Snapshot) : Prop :=
  forall place, (snapshot.file? place).isSome = true -> snapshot.isDirectoryAt place = false

section Ways

variable {before middle after : Snapshot} {place : Place} {path : Path}

theorem SameWays.refl (snapshot : Snapshot) : SameWays snapshot snapshot :=
  ⟨rfl, rfl, rfl⟩

theorem SameWays.trans
    (first : SameWays before middle)
    (second : SameWays middle after) :
    SameWays before after :=
  ⟨second.places.trans first.places, second.directories.trans first.directories,
    second.current.trans first.current⟩

theorem isSome_file?_iff : (before.file? place).isSome = true ↔ place ∈ before.files.map Prod.fst := by
  rw [file?, Option.isSome_iff_ne_none, ne_eq, List.lookup_eq_none_iff]
  simp

theorem SameWays.isSome_file?
    (same : SameWays before after)
    (place : Place) :
    (after.file? place).isSome = (before.file? place).isSome := by
  rw [Bool.eq_iff_iff, isSome_file?_iff, isSome_file?_iff, same.places]

theorem SameWays.isDirectoryAt
    (same : SameWays before after)
    (place : Place) :
    after.isDirectoryAt place = before.isDirectoryAt place := by
  have ways (snapshot : Snapshot) : snapshot.isDirectoryAt place =
      ((snapshot.current :: snapshot.directories).any place.isPrefixOf ||
        (snapshot.files.map Prod.fst).any fun way => place.isPrefixOf way.dropLast) := by
    rw [List.any_map]
    rfl
  rw [ways, ways, same.places, same.directories, same.current]

theorem SameWays.step (same : SameWays before after) : after.step = before.step := by
  funext place piece
  simp only [Snapshot.step, isOccupied, same.isSome_file?, same.isDirectoryAt]
  rfl

theorem SameWays.follow (same : SameWays before after) : after.follow = before.follow := by
  funext path pieces
  simp only [Snapshot.follow, start, same.step, same.current]

theorem SameWays.resolve (same : SameWays before after) : after.resolve = before.resolve := by
  funext path
  simp only [Snapshot.resolve, same.follow]

theorem SameWays.isTree
    (same : SameWays before after)
    (isTree : before.IsTree) :
    after.IsTree := by
  intro place isFile
  rw [same.isDirectoryAt]
  exact isTree place (same.isSome_file? place ▸ isFile)

end Ways

/-! ## Writing over a file -/

section Putting

variable {snapshot : Snapshot} {place : Place} {stored : StoredFile}

theorem put_of_file
    (isFile : snapshot.file? place = some stored)
    (bytes : List UInt8) :
    snapshot.put place bytes =
      { snapshot with
        files := snapshot.files.map fun (way, file) =>
          (way, if way = place then { file with bytes } else file) } := by
  rw [put, isFile]

theorem sameWays_put
    (isFile : snapshot.file? place = some stored)
    (bytes : List UInt8) :
    SameWays snapshot (snapshot.put place bytes) := by
  rw [put_of_file isFile]
  refine ⟨?_, rfl, rfl⟩
  rw [List.map_map]
  rfl

theorem lookup_mapAt
    {files : List (Place × StoredFile)}
    (change : StoredFile -> StoredFile)
    (place other : Place) :
    (files.map fun (way, file) => (way, if way = place then change file else file)).lookup other =
      (files.lookup other).map fun file => if other = place then change file else file := by
  induction files with
  | nil => rfl
  | cons first rest ih =>
      obtain ⟨way, file⟩ := first
      rw [List.map_cons, List.lookup_cons, List.lookup_cons]
      by_cases here : other = way
      · subst here
        simp
      · simp only [beq_eq_false_iff_ne.2 here]
        exact ih

theorem file?_put
    (isFile : snapshot.file? place = some stored)
    (bytes : List UInt8)
    (other : Place) :
    (snapshot.put place bytes).file? other =
      (snapshot.file? other).map fun file => if other = place then { file with bytes } else file := by
  rw [put_of_file isFile]
  exact lookup_mapAt (fun file => { file with bytes }) place other

theorem file?_put_same
    (isFile : snapshot.file? place = some stored)
    (bytes : List UInt8) :
    (snapshot.put place bytes).file? place = some { stored with bytes } := by
  rw [file?_put isFile, isFile, Option.map_some, if_pos rfl]

theorem file?_put_other
    {other : Place}
    (isFile : snapshot.file? place = some stored)
    (bytes : List UInt8)
    (differs : other ≠ place) :
    (snapshot.put place bytes).file? other = snapshot.file? other := by
  rw [file?_put isFile]
  simp only [if_neg differs, Option.map_id']

end Putting

/-! ## Where a path is written -/

section Targets

variable {snapshot : Snapshot} {path : Path} {place parent : Place} {piece : Text}

theorem isDirectoryAt_dropLast (isDirectory : snapshot.isDirectoryAt place = true) :
    snapshot.isDirectoryAt place.dropLast = true := by
  have up {way : Place} (below : place.isPrefixOf way = true) : place.dropLast.isPrefixOf way = true :=
    List.isPrefixOf_iff_prefix.2 ((List.dropLast_prefix place).trans (List.isPrefixOf_iff_prefix.1 below))
  unfold isDirectoryAt at isDirectory ⊢
  rw [Bool.or_eq_true, List.any_eq_true, List.any_eq_true] at isDirectory ⊢
  rcases isDirectory with ⟨way, member, below⟩ | ⟨file, member, below⟩
  · exact Or.inl ⟨way, member, up below⟩
  · exact Or.inr ⟨file, member, up below⟩

theorem isOccupied_iff :
    snapshot.isOccupied place = true ↔ (snapshot.file? place).isSome = true ∨ snapshot.isDirectoryAt place = true := by
  rw [isOccupied, Bool.or_eq_true]

/-- A step starts at a directory, and stays there, goes up or goes to what stands below. -/
theorem step_cases
    (occupied : snapshot.isOccupied parent = true)
    (steps : snapshot.step parent piece = .ok place) :
    snapshot.file? parent = none ∧ snapshot.isDirectoryAt parent = true ∧
      (place = parent ∨ place = parent.dropLast ∨
        (piece ∉ [[], ['.'], ['.', '.']] ∧ Text.byteLength piece ≤ longestName ∧
          snapshot.isOccupied place = true ∧ place = parent ++ [piece])) := by
  unfold step at steps
  split at steps
  · cases steps
  next noFile =>
  have none : snapshot.file? parent = none := by simpa using noFile
  have isDirectory : snapshot.isDirectoryAt parent = true := by simpa [isOccupied, none] using occupied
  refine ⟨none, isDirectory, ?_⟩
  split at steps
  · cases steps
    exact Or.inl rfl
  next differs =>
  split at steps
  · cases steps
    exact Or.inr (Or.inl rfl)
  next notUp =>
  split at steps
  · cases steps
  next short =>
  split at steps
  · next isThere =>
      cases steps
      have isName : piece ∉ [[], ['.'], ['.', '.']] := by
        simp only [Bool.or_eq_true, decide_eq_true_eq, not_or] at differs
        simp only [List.mem_cons, List.not_mem_nil, or_false, not_or]
        exact ⟨differs.1, differs.2, notUp⟩
      exact Or.inr (Or.inr ⟨isName, Nat.le_of_not_lt short, isThere, rfl⟩)
  · cases steps

theorem isOccupied_of_step
    (occupied : snapshot.isOccupied parent = true)
    (steps : snapshot.step parent piece = .ok place) :
    snapshot.isOccupied place = true := by
  obtain ⟨-, isDirectory, rfl | rfl | ⟨-, -, isThere, -⟩⟩ := step_cases occupied steps
  · exact occupied
  · exact isOccupied_iff.2 (Or.inr (isDirectoryAt_dropLast isDirectory))
  · exact isThere

theorem isOccupied_of_foldlM
    {pieces : List Text}
    (occupied : snapshot.isOccupied parent = true)
    (follows : pieces.foldlM snapshot.step parent = .ok place) :
    snapshot.isOccupied place = true := by
  induction pieces generalizing parent with
  | nil =>
      cases follows
      exact occupied
  | cons piece rest ih =>
      rw [List.foldlM_cons] at follows
      cases steps : snapshot.step parent piece with
      | error failure =>
          rw [steps] at follows
          cases follows
      | ok next =>
          rw [steps] at follows
          exact ih (isOccupied_of_step occupied steps) follows

theorem isOccupied_start (path : Path) : snapshot.isOccupied (snapshot.start path) = true := by
  have isDirectory : snapshot.isDirectoryAt (snapshot.start path) = true := by
    unfold isDirectoryAt start
    split <;> simp
  exact isOccupied_iff.2 (Or.inr isDirectory)

/-- A file is written where it stands. -/
theorem target_of_resolve
    {stored : StoredFile}
    (isTree : snapshot.IsTree)
    (resolves : snapshot.resolve path = .ok place)
    (isFile : snapshot.file? place = some stored) :
    snapshot.target path = .ok place := by
  unfold resolve at resolves
  split at resolves
  · cases resolves
  next notEmpty =>
  obtain ⟨pieces, last, split⟩ : exists pieces last, Text.splitAt '/' path.text = pieces ++ [last] :=
    ⟨_, _, (List.dropLast_concat_getLast (Text.splitAt_ne_nil '/' path.text)).symm⟩
  rw [split, follow, List.foldlM_append] at resolves
  cases follows : pieces.foldlM snapshot.step (snapshot.start path) with
  | error failure =>
      rw [follows] at resolves
      cases resolves
  | ok parent =>
      rw [follows] at resolves
      have steps : snapshot.step parent last = .ok place := (bind_pure (snapshot.step parent last)).symm.trans resolves
      have occupied := isOccupied_of_foldlM (isOccupied_start path) follows
      have noDirectory := isTree place (by rw [isFile]; rfl)
      obtain ⟨noFile, isDirectory, rfl | rfl | ⟨isName, short, -, rfl⟩⟩ := step_cases occupied steps
      · exact absurd isFile (by simp [noFile])
      · exact absurd (isDirectoryAt_dropLast isDirectory) (by simp [noDirectory])
      · have leads : snapshot.follow path (pieces ++ [last]).dropLast = .ok parent := by
          rw [List.dropLast_concat, follow, follows]
        have noDots : [[], ['.'], ['.', '.']].contains last = false := by
          rw [← Bool.not_eq_true, List.contains_iff_mem]
          exact isName
        unfold target
        simp only [if_neg notEmpty, split, leads, List.getLastD_concat, noDots, if_neg (Nat.not_lt.2 short)]
        change (if (snapshot.file? parent).isSome = true then _ else _) = _
        rw [noFile]
        rfl

/-- Writing under the path of a file puts the bytes where the file stands. -/
theorem write_of_resolve
    {stored : StoredFile}
    (isTree : snapshot.IsTree)
    (resolves : snapshot.resolve path = .ok place)
    (isFile : snapshot.file? place = some stored)
    (bytes : List UInt8) :
    snapshot.write path bytes = .ok (snapshot.put place bytes) := by
  have noDirectory : snapshot.isDirectoryAt place = false := isTree place (by rw [isFile]; rfl)
  rw [write, target_of_resolve isTree resolves isFile]
  change (if snapshot.isDirectoryAt place = true then _ else _) = _
  rw [noDirectory]
  rfl

theorem run_write
    {after : Snapshot}
    {bytes : List UInt8}
    (writes : snapshot.write path bytes = .ok after) :
    (Access.write path bytes : StateM Snapshot _).run snapshot = (.ok (), after) := by
  simp only [Access.write, StateT.run_bind, StateT.run_get, pure_bind, writes]
  rfl

end Targets

end Snapshot
end Files
end Lossless
