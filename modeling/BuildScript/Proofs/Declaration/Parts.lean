import BuildScript.Proofs.Declaration.Coordinate
/-!
# Versions written one after the other

The version of a coordinate is its third part. Writing another one changes that part and keeps those
behind it, with one exception: an empty third part is taken for a missing one, so the version is put
in front of it and the empty part moves behind. Each time this happens the coordinate grows by a
colon.

**The third part.** `thirds` follows what stands as third part while versions are written, from the
first one on that puts a third part there; `refills` counts how often it was empty and was not left
so.

Results:
* `writeParts_eq`: the last version, as many empty parts as there were refills, and the parts behind
  the third one as they were.
* `refills_eq_zero_iff`: nothing is added just when no third part was empty.
* `fields_joinWith`: the parts that a coordinate is joined from are its parts.
-/
namespace BuildScript.Coordinate

open Text

/-- The parts behind the name with a version written. The version that is there is no change. -/
def writePart (parts : List Text) (version : Text) : List Text :=
  if parts.headD [] = version then parts else setPart parts version

/-- The parts behind the name with versions written one after the other. -/
def writeParts (parts versions : List Text) : List Text := versions.foldl writePart parts

/-- The texts that stand as third part of a coordinate while versions are written, from the first
one on that puts a third part there. -/
def thirds (parts versions : List Text) : List Text :=
  match parts with
  | [] => versions.dropWhile (· = [])
  | third :: _ => third :: versions

/-- How often an empty text is followed by one that is not. -/
def refills : List Text → Nat
  | a :: b :: rest => (if a = [] ∧ b ≠ [] then 1 else 0) + refills (b :: rest)
  | _ => 0

/-- Texts that do not end with an empty one have none of them refilled just when none is empty. -/
theorem refills_eq_zero_iff {texts : List Text} {last : Text} (hlast : texts.getLast? = some last)
    (hne : last ≠ []) : refills texts = 0 ↔ [] ∉ texts := by
  induction texts with
  | nil => cases hlast
  | cons a rest ih =>
    cases rest with
    | nil =>
      obtain rfl : a = last := Option.some.inj hlast
      simpa [refills] using Ne.symm hne
    | cons b rest =>
      rw [List.getLast?_cons_cons] at hlast
      rw [refills, Nat.add_eq_zero_iff, ih hlast, List.mem_cons]
      by_cases ha : a = []
      · by_cases hb : b = [] <;> simp [ha, hb]
      · simp [ha, Ne.symm ha]

/-- The version that is written last stands as third part in the end. -/
theorem getLast?_thirds {versions : List Text} {last : Text} (parts : List Text)
    (hlast : versions.getLast? = some last) (hne : last ≠ []) :
    (thirds parts versions).getLast? = some last := by
  cases parts with
  | cons third tail =>
    rw [thirds, List.getLast?_cons, hlast]
    rfl
  | nil =>
    rw [thirds]
    induction versions with
    | nil => cases hlast
    | cons v versions ih =>
      by_cases hv : v = []
      · cases versions with
        | nil => exact absurd ((Option.some.inj hlast).symm.trans hv) hne
        | cons w versions =>
          rw [List.getLast?_cons_cons] at hlast
          rw [List.dropWhile_cons_of_pos (by simpa using hv)]
          exact ih hlast
      · rw [List.dropWhile_cons_of_neg (by simpa using hv), hlast]

theorem writeParts_cons (third : Text) (tail versions : List Text) :
    writeParts (third :: tail) versions = versions.getLastD third ::
      (List.replicate (refills (third :: versions)) [] ++ tail) := by
  induction versions generalizing third tail with
  | nil => rfl
  | cons v versions ih =>
    have hstep : writeParts (third :: tail) (v :: versions) =
        writeParts (writePart (third :: tail) v) versions := rfl
    rw [hstep, writePart, List.headD_cons, refills, List.getLastD_cons]
    by_cases hsame : third = v
    · subst hsame
      rw [if_pos rfl, ih]
      simp
    · rw [if_neg hsame, setPart, List.headD_cons, List.tail_cons, ih]
      by_cases hempty : third = []
      · -- an empty part is kept behind the version that is written in front of it
        have hv : v ≠ [] := fun h => hsame (hempty.trans h.symm)
        rw [if_pos hempty, if_pos ⟨hempty, hv⟩, Nat.add_comm 1, List.replicate_succ', hempty]
        simp
      · rw [if_neg hempty, if_neg fun h => hempty h.1, Nat.zero_add]

/-- What becomes of the parts of a coordinate: each time a version is written over an empty third
part, that part moves behind the version. -/
theorem writeParts_eq {versions : List Text} {last : Text} (parts : List Text)
    (hlast : versions.getLast? = some last) (hne : last ≠ []) : writeParts parts versions =
      last :: (List.replicate (refills (thirds parts versions)) [] ++ parts.tail) := by
  have hlastD {versions : List Text} (third : Text) (h : versions.getLast? = some last) :
      versions.getLastD third = last := by rw [List.getLastD_eq_getLast?, h]; rfl
  cases parts with
  | cons third tail =>
    rw [writeParts_cons, hlastD third hlast]
    rfl
  | nil =>
    induction versions with
    | nil => cases hlast
    | cons v versions ih =>
      have hstep : writeParts [] (v :: versions) = writeParts (writePart [] v) versions := rfl
      by_cases hv : v = []
      · -- nothing is written as long as there is nothing to write
        subst hv
        cases versions with
        | nil => exact absurd (Option.some.inj hlast).symm hne
        | cons w versions => exact ih (by rwa [List.getLast?_cons_cons] at hlast)
      · have hfirst : writePart [] v = [v] := if_neg (Ne.symm hv)
        rw [List.getLast?_cons] at hlast
        rw [hstep, hfirst, writeParts_cons, List.getLastD_eq_getLast?, Option.some.inj hlast,
          thirds, List.dropWhile_cons_of_neg (by simpa using hv)]
        rfl

/-- What stands behind the name in the end stood there before or is one of the versions. -/
theorem mem_writeParts {parts versions : List Text} {f : Text} (h : f ∈ writeParts parts versions) :
    f ∈ parts ∨ f ∈ versions := by
  induction versions generalizing parts with
  | nil => exact Or.inl h
  | cons v versions ih =>
    have hrest : f ∈ writeParts (writePart parts v) versions := h
    rcases ih hrest with hf | hf
    · unfold writePart at hf
      split at hf
      · exact Or.inl hf
      · rcases mem_setPart hf with rfl | hf
        · exact Or.inr List.mem_cons_self
        · exact Or.inl hf
    · exact Or.inr (List.mem_cons_of_mem v hf)

/-! ## Parts without marks and colons -/

section
variable {parts : List Text} (h : ∀ f ∈ parts, ∀ c ∈ f, isQuote c = false ∧ c ≠ ':')
include h

theorem fields_joinWith (hne : parts ≠ []) : fields ':' (joinWith [':'] parts) = parts :=
  fields_intercalate hne fun f hf hcolon => (h f hf ':' hcolon).2 rfl

theorem not_isQuote_of_mem_joinWith : ∀ c ∈ joinWith [':'] parts, isQuote c = false := by
  intro c hc
  rcases mem_joinWith hc with hc | ⟨f, hf, hc⟩
  · rw [List.mem_singleton.1 hc]
    rfl
  · exact (h f hf c hc).1

end

end BuildScript.Coordinate
