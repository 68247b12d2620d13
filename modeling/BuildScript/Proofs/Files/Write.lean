import BuildScript.Files
/-!
# What writing a file changes

A file is put at the place that its directory and its name make, and read at the place that its path
leads to. Where there is a file to read the two are the same, because a path is followed name by
name: first to the directory, then to the file in it.

Results:
* `lookup_put_eq`: putting a file changes what is found at its place and nowhere else.
* `follow_append`: a path can be followed in two stages.
* `writeText_of_place`: a file that is written over is changed in place.
-/
namespace BuildScript

namespace Path

theorem names_eq_concat {path : Path} (h : path.names ≠ []) :
    path.names = path.parent.names ++ [path.name] := by
  rw [name, List.getLastD_eq_getLast?, List.getLast?_eq_some_getLast h]
  exact (List.dropLast_concat_getLast h).symm

end Path

namespace FileTree

variable {tree later : FileTree} {path : Path} {names : List Text} {content : ByteArray}

/-! ## Putting a file -/

/-- Putting a file changes what is found at its place and nowhere else. -/
theorem lookup_put_eq (tree : FileTree) (names : List Text) (content : ByteArray)
    (other : List Text) :
    (tree.put names content).lookup other =
      if other = names then some content else tree.lookup other := by
  split
  · next h => rw [h, lookup_put]
  · next h =>
    have hkey : (other == names) = false := by simpa using h
    unfold put lookup
    split
    · induction tree.files with
      | nil => rfl
      | cons file files ih =>
        obtain ⟨key, old⟩ := file
        rw [List.map_cons]
        by_cases hfile : key = names
        · rw [if_pos hfile, hfile, List.lookup_cons, List.lookup_cons, hkey]
          exact ih
        · rw [if_neg hfile, List.lookup_cons, List.lookup_cons]
          exact congrArg _ (funext fun _ => ih)
    · simp [List.lookup_append, List.lookup_cons, hkey]

/-! ## Following a path -/


/-- A path can be followed in two stages, the first of which leads to a directory. -/
theorem follow_append {directory here : Option (List Text)} {front : List Text}
    (h : tree.follow directory front = tree.follow here []) (back : List Text) :
    tree.follow directory (front ++ back) = tree.follow here back := by
  induction front generalizing directory with
  | nil =>
    cases directory <;> cases here <;> cases h <;> rfl
  | cons name rest ih =>
    -- only at a file does it matter what stands behind, and no file leads to a directory
    rw [List.cons_append]
    cases directory with
    | none =>
      rw [follow] at h ⊢
      split at h
      · next hup =>
        rw [if_pos hup]
        exact ih h
      · split at h <;> cases here <;> cases h
    | some base =>
      rw [follow] at h ⊢
      split at h
      · cases here <;> cases h
      · next hshort =>
        rw [if_neg hshort]
        split at h
        · next hup =>
          rw [if_pos hup]
          exact ih h
        · next hdown =>
          rw [if_neg hdown]
          dsimp only at h ⊢
          split at h
          · split at h <;> cases here <;> cases h
          · split at h
            · next hdirectory =>
              rw [if_pos hdirectory]
              exact ih h
            · cases here <;> cases h

theorem follow_none_ne_file (rest : List Text) :
    tree.follow none rest ≠ .file names content := by
  induction rest with
  | nil => exact Place.noConfusion
  | cons name rest ih =>
    rw [follow]
    split
    · exact ih
    · split <;> exact Place.noConfusion

/-- One name leads from a directory to a file of that name in it. -/
theorem follow_singleton_eq_file {here : List Text} {name : Text}
    (h : tree.follow (some here) [name] = .file names content) :
    names = here ++ [name] ∧ tree.lookup names = some content := by
  rw [follow] at h
  split at h
  · cases h
  · split at h
    · split at h <;> cases h
    · dsimp only at h
      split at h
      · next hfound =>
        cases h
        exact ⟨rfl, hfound⟩
      · split at h <;> cases h

theorem follow_of_place {place : Place} (h : tree.place path = place) (hshort : place ≠ .tooLong) :
    tree.follow (if path.root = [] then some [] else none) path.names = place := by
  rw [FileTree.place] at h
  split at h
  · exact absurd h.symm hshort
  · exact h

/-! ## Writing over a file -/

theorem directory_of_checkDirectory {place : Place} (h : checkDirectory place = .ok ()) :
    (∃ here, place = .directory here) ∨ place = .outside := by
  cases place with
  | directory here => exact Or.inl ⟨here, rfl⟩
  | outside => exact Or.inr rfl
  | _ => cases h

theorem file_of_place (hplace : tree.place path = .file names content)
    (hdirectory : checkDirectory (tree.place path.parent) = .ok ()) (hnames : path.names ≠ []) :
    ∃ here, tree.place path.parent = .directory here ∧ names = here ++ [path.name] ∧
      tree.lookup names = some content := by
  have hfollow := follow_of_place hplace Place.noConfusion
  rw [Path.names_eq_concat hnames] at hfollow
  rcases directory_of_checkDirectory hdirectory with ⟨here, hparent⟩ | hparent
  · have hlast : _ = tree.follow (some here) [path.name] :=
      follow_append (follow_of_place hparent Place.noConfusion) _
    exact ⟨here, hparent, follow_singleton_eq_file (hlast.symm.trans hfollow)⟩
  · have hlast : _ = tree.follow none [path.name] :=
      follow_append (follow_of_place hparent Place.noConfusion) _
    exact absurd (hlast.symm.trans hfollow) (follow_none_ne_file _)

/-- A file that is written over is changed in place. -/
theorem writeText_of_place {text : Text} (hplace : tree.place path = .file names content)
    (h : tree.writeText path text = .ok later) :
    later = tree.put names (String.ofList text).toUTF8 := by
  unfold writeText at h
  simp only [bind, Except.bind] at h
  split at h
  · cases h
  · split at h
    · cases h
    · split at h
      · cases h
      · next hdirectory =>
        split at h
        · cases h
        · next hnamed =>
          have hnames : path.names ≠ [] := fun hnil => hnamed (by rw [hnil]; rfl)
          obtain ⟨here, hparent, rfl, hlookup⟩ := file_of_place hplace hdirectory hnames
          rw [hparent] at h
          dsimp only at h
          rw [hlookup] at h
          cases h
          rfl

end FileTree

end BuildScript
