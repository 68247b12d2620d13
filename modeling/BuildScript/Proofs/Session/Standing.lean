import BuildScript.Proofs.Session.Coherence
import BuildScript.Proofs.Index.Accuracy
/-!
# The text that stands for an entry

In the rendered script an entry stands as its pending replacement has it, or as it was parsed if
there is none. A session shows the last version or value that was set, and it renders the same,
with one exception: after a clear it still shows what was set before, and a request for that very
version or value changes nothing. The request is then carried out, yet nothing is pending and the
text as parsed stands.

**Since the last clear.** `revisedSince` lists the entries that a course of requests has given
another version, value or address since it last cleared. These are the ones that stand as shown.

Results:
* `written_afterAll`: an entry's text always carries the version or the value that it shows.
* `tracked_afterAll`: an entry in place has an update pending when it was revised since the last
  clear and does not show its parsed text.
* `standing_after_setting`: what is set stands in the script, unless the entry showed it from before
  a clear already and was parsed with something else.
-/
namespace BuildScript

open Text

/-! ## Written versions and values -/

/-- A text carries the coordinate of a dependency behind its mark. -/
def Dependency.WrittenAs (d : Dependency) (raw : Text) : Prop :=
  d.group ≠ [] ∧ ∃ mark tail, raw = mark :: (d.coordinate ++ tail)

/-- A text ends with the value of a property, bare or between two marks. -/
def Property.WrittenAs (p : Property) (raw : Text) : Prop :=
  ∃ kept, raw = kept ++ p.value ∨
    ∃ mark, isQuote mark = true ∧ raw = kept ++ mark :: p.value ++ [mark]

/-- A text carries the version or the value that a declaration shows. References to other projects
have no version. -/
def Declaration.WrittenAs (raw : Text) : Declaration → Prop
  | .property p => p.WrittenAs raw
  | .dependency d => d.isProjectReference = false → d.WrittenAs raw
  | _ => True

theorem Dependency.writtenAs_setVersion {d : Dependency} {raw : Text} (h : d.WrittenAs raw)
    (version : Text) : Dependency.WrittenAs { d with version, raw := d.setVersion raw version }
      (d.setVersion raw version) := by
  obtain ⟨hgroup, mark, tail, rfl⟩ := h
  refine ⟨hgroup, mark, ?_⟩
  have hlen : (mark :: d.group ++ ':' :: d.name).length =
      1 + d.group.length + 1 + d.name.length := by
    simp only [List.length_append, List.length_cons]
    omega
  unfold setVersion coordinate
  dsimp only
  rw [← hlen]
  by_cases hold : d.version = []
  · have hraw : mark :: (d.group ++ ':' :: d.name ++ [] ++ tail) =
        (mark :: d.group ++ ':' :: d.name) ++ tail := by simp
    rw [if_pos hold, if_pos hold, hraw, List.take_left, List.drop_left]
    by_cases hnew : version = []
    · exact ⟨':' :: tail, by simp [hnew]⟩
    · exact ⟨tail, by simp [hnew]⟩
  · have hraw : mark :: (d.group ++ ':' :: d.name ++ ':' :: d.version ++ tail) =
        (mark :: d.group ++ ':' :: d.name ++ [':']) ++ d.version ++ tail := by simp
    have hcolon : (mark :: d.group ++ ':' :: d.name).length + 1 =
        (mark :: d.group ++ ':' :: d.name ++ [':']).length := by
      rw [List.length_append, List.length_append, List.length_append]
      rfl
    rw [if_neg hold, if_neg hold, hraw, hcolon, ← List.length_append, List.drop_left]
    generalize hfront : mark :: d.group ++ ':' :: d.name ++ [':'] = front
    rw [List.append_assoc front, List.take_left, ← hfront]
    by_cases hnew : version = []
    · exact ⟨':' :: tail, by simp [hnew]⟩
    · exact ⟨tail, by simp [hnew]⟩

theorem Property.writtenAs_setValue (p : Property) (raw value : Text) :
    Property.WrittenAs { p with value } (setValue raw value) := by
  unfold setValue
  dsimp only
  generalize trim ((raw.dropWhile (· != '=')).drop 1) = current
  split
  · next mark rest =>
    split
    · next hliteral =>
      exact ⟨_, Or.inr ⟨mark, (Bool.and_eq_true_iff.1 hliteral).1, rfl⟩⟩
    · exact ⟨_, Or.inl rfl⟩
  · exact ⟨_, Or.inl rfl⟩

theorem Declaration.writtenAs_of_find? {kind : Kind} {line : Text} {found : Found Declaration}
    (h : find? kind line = some found) : found.value.WrittenAs (found.text line) := by
  cases kind with
  | property =>
    obtain ⟨a, ha, rfl⟩ := Option.map_eq_some_iff.1 h
    obtain ⟨u, front, value, v, rfl, -, -, -, hfound⟩ := Property.find?_spec ha
    have htext : a.text (u ++ front ++ value ++ v) = front ++ value := by
      rw [List.append_assoc u]
      exact Found.text_eq (by rw [hfound]) (by rw [hfound, List.append_assoc])
    have hvalue : a.value.value = Property.unquote value := by rw [hfound]
    show a.value.WrittenAs (a.text _)
    rw [htext]
    refine ⟨front, ?_⟩
    rw [hvalue]
    cases hliteral : isLiteral value with
    | true =>
      obtain ⟨mark, hmark, hbody⟩ := Property.unquote_of_isLiteral hliteral
      exact Or.inr ⟨mark, hmark, by rw [List.append_assoc, ← hbody]⟩
    | false =>
      left
      rw [Property.unquote, hliteral, if_neg Bool.false_ne_true]
  | dependency =>
    obtain ⟨a, ha, rfl⟩ := Option.map_eq_some_iff.1 h
    intro hown
    obtain ⟨u, mark, body, v, c, rfl, hquotes, -, hfound⟩ := Dependency.find?_spec ha hown
    have htext : a.text (u ++ mark :: (body ++ [mark]) ++ v) = mark :: (body ++ [mark]) :=
      Found.text_eq (by rw [hfound]) (by rw [hfound]; simp)
    obtain ⟨parts, hbody, hgroup, -, hversion, -⟩ := hquotes.fields_eq
    refine ⟨by rw [hfound]; exact hgroup, mark, ?_⟩
    show ∃ tail, a.text _ = mark :: (a.value.coordinate ++ tail)
    rw [htext, hbody, Coordinate.intercalate_cons_eq, hfound, Dependency.coordinate]
    dsimp only
    rw [hversion]
    cases parts with
    | nil => exact ⟨[mark], by simp⟩
    | cons f fs =>
      cases f with
      | nil => exact ⟨[':'] ++ fs.flatMap (':' :: ·) ++ [mark], by simp⟩
      | cons x f => exact ⟨fs.flatMap (':' :: ·) ++ [mark], by simp⟩
  | plugin =>
    obtain ⟨a, -, rfl⟩ := Option.map_eq_some_iff.1 h
    exact trivial
  | repository =>
    obtain ⟨a, -, rfl⟩ := Option.map_eq_some_iff.1 h
    exact trivial
  | task =>
    obtain ⟨a, -, rfl⟩ := Option.map_eq_some_iff.1 h
    exact trivial

theorem Index.writtenAs_of_mem_parse {kinds : List Kind} {skipComments : Bool} {text : Text}
    {e : Entry} (h : e ∈ (parse ⟨kinds.map Recognizer.ofKind, skipComments⟩ text).entries) :
    e.declaration.WrittenAs e.rawText := by
  obtain ⟨found, u, v, -, hfound, hd, hstart, hstop⟩ := exists_find?_of_mem_parse h
  have hwritten := Declaration.writtenAs_of_find? hfound
  rwa [Found.text_eq hstart hstop, ← hd] at hwritten

theorem Index.textOf_of_covers {index : Index} {r : Region} {k : Nat} {u m v : Text}
    (h : r.Covers index.text k u m v) : index.textOf r = m := by
  have hstart := h.start_eq
  have hstop := h.stop_eq
  obtain ⟨w, hw⟩ := h.text_eq
  have hlen := h.length_front
  have htext := congrArg List.length hw
  rw [List.length_append, List.length_append, hlen] at htext
  unfold textOf
  rw [if_neg (by omega), h.slice_eq]

/-! ## Revisions -/

namespace Request

/-- Whether a request is to set a version, a value or an address. -/
def isSetting : Request → Bool
  | setDependencyVersion _ _ _ _ => true
  | setPluginVersion _ _ => true
  | setProperty _ _ => true
  | setRepositoryUrl _ _ => true
  | _ => false

/-- A declaration has the version, the value or the address that a request is to set, and a version
or a value is written in its text. -/
def Met (raw : Text) (declaration : Declaration) : Request → Prop
  | setDependencyVersion group name version _ => ∃ d : Dependency, declaration = .dependency d ∧
      d.group = group ∧ d.name = name ∧ d.version = version ∧ d.WrittenAs raw
  | setPluginVersion id version =>
    ∃ p : Plugin, declaration = .plugin p ∧ p.id = id ∧ p.version = version
  | setProperty key value => ∃ p : Property, declaration = .property p ∧ p.key = key ∧
      p.value = value ∧ p.WrittenAs raw
  | setRepositoryUrl name url =>
    ∃ r : Repository, declaration = .repository r ∧ r.name = name ∧ r.url = url
  | _ => False

theorem Met.writtenAs {r : Request} {raw : Text} {declaration : Declaration}
    (h : r.Met raw declaration) : declaration.WrittenAs raw := by
  cases r with
  | setDependencyVersion =>
    obtain ⟨d, rfl, -, -, -, hd⟩ := h
    exact fun _ => hd
  | setPluginVersion =>
    obtain ⟨p, rfl, -⟩ := h
    exact trivial
  | setProperty =>
    obtain ⟨p, rfl, -, -, hp⟩ := h
    exact hp
  | setRepositoryUrl =>
    obtain ⟨r, rfl, -⟩ := h
    exact trivial
  | addDependency => cases h
  | addPlugin => cases h
  | addRepository => cases h
  | removeDependency => cases h
  | clear => cases h

end Request

namespace Session

/-- The entry that a request selects to set its version, value or address. -/
def selects? (s : Session) : Request → Option Nat
  | .setDependencyVersion group name _ scope =>
    (s.selectDependency group name scope).1.toOption.map (·.2.2)
  | .setPluginVersion id _ => (s.select? fun d => d.plugin?.filter (·.id = id)).map (·.2.2)
  | .setProperty key _ => (s.select? fun d => d.property?.filter (·.key = key)).map (·.2.2)
  | .setRepositoryUrl name _ =>
    (s.select? fun d => d.repository?.filter fun r => r.name = name && r.url != []).map (·.2.2)
  | _ => none

/-- What a request comes to that selects an entry: either it leaves the entry, because it is refused
or because the entry is as the request asks for, or it gives the entry another declaration. -/
inductive Revises (s : Session) (r : Request) (i : Nat) : Attempt → Prop
  | kept {e : Entry} (h : (e, i) ∈ s.remaining) (fault : Option Fault) (warnings : List Text)
      (hmet : fault = none → e.declaration.WrittenAs e.rawText → r.Met e.rawText e.declaration) :
      Revises s r i { session := s, fault, warnings }
  | revised {e : Entry} (h : (e, i) ∈ s.remaining) (value : Declaration)
      (newText description : Text) (warnings : List Text) (hne : value ≠ e.declaration)
      (hmet : e.declaration.WrittenAs e.rawText → r.Met newText value) :
      Revises s r i { session := s.record i e value newText description, warnings }

variable {s : Session} {e : Entry} {r : Request} {i : Nat}

theorem revises_setDependencyVersion {group name version : Text} {scope : Option Text}
    (h : s.selects? (.setDependencyVersion group name version scope) = some i) :
    Revises s (.setDependencyVersion group name version scope) i
      (s.setDependencyVersion group name version scope) := by
  rw [selects?] at h
  unfold setDependencyVersion
  split
  · next hsel =>
    rw [hsel] at h
    cases h
  · next e d j warnings hsel =>
    rw [hsel] at h
    cases h
    obtain ⟨hmem, hd, hgroup, hname, hown⟩ := selectDependency_spec (congrArg Prod.fst hsel)
    split
    · next hsame =>
      refine .kept hmem none warnings fun _ hwritten => ⟨d, hd, hgroup, hname, hsame, ?_⟩
      rw [hd] at hwritten
      exact hwritten hown
    · next hsame =>
      refine .revised hmem _ _ _ warnings (fun heq => ?_) fun hwritten => ?_
      · rw [hd] at heq
        exact hsame (congrArg Dependency.version (Declaration.dependency.inj heq)).symm
      · rw [hd] at hwritten
        exact ⟨_, rfl, hgroup, hname, rfl, Dependency.writtenAs_setVersion (hwritten hown) version⟩

theorem revises_setPluginVersion {id version : Text}
    (h : s.selects? (.setPluginVersion id version) = some i) :
    Revises s (.setPluginVersion id version) i (s.setPluginVersion id version) := by
  rw [selects?] at h
  unfold setPluginVersion
  split
  · next hsel =>
    rw [hsel] at h
    cases h
  · next e p j hsel =>
    rw [hsel] at h
    cases h
    obtain ⟨hmem, hp⟩ := select?_spec hsel
    obtain ⟨hp, hid⟩ := Option.filter_eq_some_iff.1 hp
    have hd := Declaration.eq_of_plugin? hp
    split
    · next hsame =>
      exact .kept hmem none [] fun _ _ => ⟨p, hd, of_decide_eq_true hid, hsame⟩
    · next hsame =>
      split
      · exact .kept hmem _ [] fun hnone => by cases hnone
      · refine .revised hmem _ _ _ [] (fun heq => ?_) fun _ =>
          ⟨_, rfl, of_decide_eq_true hid, rfl⟩
        rw [hd] at heq
        exact hsame (congrArg Plugin.version (Declaration.plugin.inj heq)).symm

theorem revises_setProperty {key value : Text} (h : s.selects? (.setProperty key value) = some i) :
    Revises s (.setProperty key value) i (s.setProperty key value) := by
  rw [selects?] at h
  unfold setProperty
  split
  · next hsel =>
    rw [hsel] at h
    cases h
  · next e p j hsel =>
    rw [hsel] at h
    cases h
    obtain ⟨hmem, hp⟩ := select?_spec hsel
    obtain ⟨hp, hkey⟩ := Option.filter_eq_some_iff.1 hp
    have hd := Declaration.eq_of_property? hp
    split
    · next hsame =>
      refine .kept hmem none [] fun _ hwritten => ⟨p, hd, of_decide_eq_true hkey, hsame, ?_⟩
      rw [hd] at hwritten
      exact hwritten
    · next hsame =>
      refine .revised hmem _ _ _ [] (fun heq => ?_) fun _ =>
        ⟨_, rfl, of_decide_eq_true hkey, rfl, p.writtenAs_setValue e.rawText value⟩
      rw [hd] at heq
      exact hsame (congrArg Property.value (Declaration.property.inj heq)).symm

theorem revises_setRepositoryUrl {name url : Text}
    (h : s.selects? (.setRepositoryUrl name url) = some i) :
    Revises s (.setRepositoryUrl name url) i (s.setRepositoryUrl name url) := by
  rw [selects?] at h
  unfold setRepositoryUrl
  split
  · next hsel =>
    rw [hsel] at h
    cases h
  · next e r j hsel =>
    rw [hsel] at h
    cases h
    obtain ⟨hmem, hr⟩ := select?_spec hsel
    obtain ⟨hr, hfits⟩ := Option.filter_eq_some_iff.1 hr
    have hname : r.name = name := of_decide_eq_true (Bool.and_eq_true_iff.1 hfits).1
    have hd := Declaration.eq_of_repository? hr
    split
    · next hsame => exact .kept hmem none [] fun _ _ => ⟨r, hd, hname, hsame⟩
    · next hsame =>
      refine .revised hmem _ _ _ [] (fun heq => ?_) fun _ => ⟨_, rfl, hname, rfl⟩
      rw [hd] at heq
      exact hsame (congrArg Repository.url (Declaration.repository.inj heq)).symm

theorem revises_attempt (h : s.selects? r = some i) : Revises s r i (s.attempt r) := by
  cases r with
  | setDependencyVersion => exact revises_setDependencyVersion h
  | setPluginVersion => exact revises_setPluginVersion h
  | setProperty => exact revises_setProperty h
  | setRepositoryUrl => exact revises_setRepositoryUrl h
  | addDependency => cases h
  | addPlugin => cases h
  | addRepository => cases h
  | removeDependency => cases h
  | clear => cases h

theorem refused_of_selects? (h : s.selects? r = none) (hsetting : r.isSetting = true) :
    s.after r = s ∧ (s.attempt r).fault ≠ none := by
  cases r with
  | setDependencyVersion group name version scope =>
    rw [selects?] at h
    show (s.setDependencyVersion group name version scope).session = s ∧
      (s.setDependencyVersion group name version scope).fault ≠ none
    unfold setDependencyVersion
    split
    · exact ⟨rfl, Option.some_ne_none _⟩
    · next hsel =>
      rw [hsel] at h
      cases h
  | setPluginVersion id version =>
    have h := Option.map_eq_none_iff.1 h
    show (s.setPluginVersion id version).session = s ∧
      (s.setPluginVersion id version).fault ≠ none
    unfold setPluginVersion
    rw [h]
    exact ⟨rfl, Option.some_ne_none _⟩
  | setProperty key value =>
    have h := Option.map_eq_none_iff.1 h
    show (s.setProperty key value).session = s ∧ (s.setProperty key value).fault ≠ none
    unfold setProperty
    rw [h]
    exact ⟨rfl, Option.some_ne_none _⟩
  | setRepositoryUrl name url =>
    have h := Option.map_eq_none_iff.1 h
    show (s.setRepositoryUrl name url).session = s ∧ (s.setRepositoryUrl name url).fault ≠ none
    unfold setRepositoryUrl
    rw [h]
    exact ⟨rfl, Option.some_ne_none _⟩
  | addDependency => cases hsetting
  | addPlugin => cases hsetting
  | addRepository => cases hsetting
  | removeDependency => cases hsetting
  | clear => cases hsetting

/-! ## Pending updates -/

/-- Whether a new text is pending for an entry. -/
def isUpdated (s : Session) (i : Nat) : Bool := s.changes.any (·.updates i)

theorem any_updates_filter (changes : List Change) (i j : Nat) :
    (changes.filter fun c => !c.updates i).any (·.updates j) =
      (decide (j ≠ i) && changes.any (·.updates j)) := by
  rw [List.any_filter]
  by_cases hji : j = i
  · subst hji
    simp
  · rw [decide_eq_true hji, Bool.true_and]
    refine congrArg (changes.any ·) (funext fun c => ?_)
    cases c with
    | update k edit => by_cases hk : k = j <;> simp [Change.updates, hk, hji]
    | insertion => rfl
    | removal => rfl

@[simp] theorem isUpdated_record (s : Session) (i : Nat) (e : Entry) (value : Declaration)
    (newText description : Text) (j : Nat) :
    (s.record i e value newText description).isUpdated j =
      if j = i then decide (newText ≠ s.parsedText i) else s.isUpdated j := by
  unfold isUpdated
  by_cases hsame : newText = s.parsedText i
  · rw [changes_record_of_eq hsame, any_updates_filter]
    by_cases hji : j = i <;> simp [hji, hsame]
  · rw [changes_record_of_ne hsame, List.any_append, any_updates_filter]
    by_cases hji : j = i
    · simp [hji, hsame, Change.updates]
    · simp [hji, Ne.symm hji, Change.updates]

@[simp] theorem isUpdated_recordRemoval (s : Session) (i : Nat) (edit : Edit) (j : Nat) :
    (s.recordRemoval i edit).isUpdated j = (decide (j ≠ i) && s.isUpdated j) := by
  show (List.filter _ _ ++ [_]).any _ = _
  rw [List.any_append, any_updates_filter]
  exact Bool.or_false _

@[simp] theorem isUpdated_recordInsertion (s : Session) (edit : Edit) (j : Nat) :
    (s.recordInsertion edit).isUpdated j = s.isUpdated j := by
  show (s.changes ++ [_]).any _ = _
  rw [List.any_append]
  exact Bool.or_false _

/-- A request that records no new text leaves the entries as they are, and their pending updates,
unless it clears or removes them. -/
structure KeepsTexts (s : Session) (r : Request) : Prop where
  index : (s.after r).index = s.index
  parsedTexts : (s.after r).parsedTexts = s.parsedTexts
  pending : r ≠ .clear → ∀ j, (s.after r).isRemoved j = false →
    s.isRemoved j = false ∧ (s.after r).isUpdated j = s.isUpdated j

theorem KeepsTexts.of_eq (h : s.after r = s) : s.KeepsTexts r :=
  ⟨by rw [h], by rw [h], fun _ j hj => by rw [h] at hj ⊢; exact ⟨hj, rfl⟩⟩

theorem keepsTexts_of_block? {block : Text} (h : r.block? = some block) : s.KeepsTexts r := by
  obtain ⟨declaration, description, hafter⟩ := s.after_of_block? h
  rw [insertInto] at hafter
  split at hafter
  · exact .of_eq hafter
  · refine ⟨by rw [hafter]; rfl, by rw [hafter]; rfl, fun _ j hj => ?_⟩
    rw [hafter] at hj ⊢
    exact ⟨by rwa [isRemoved_recordInsertion] at hj, isUpdated_recordInsertion s _ j⟩

theorem keepsTexts_removeDependency (s : Session) (group name : Text) (scope : Option Text) :
    s.KeepsTexts (.removeDependency group name scope) := by
  have hafter : s.after (.removeDependency group name scope) =
      (s.removeDependency group name scope).session := rfl
  unfold removeDependency at hafter
  split at hafter
  · exact .of_eq hafter
  · split at hafter
    · refine ⟨by rw [hafter]; rfl, by rw [hafter]; rfl, fun _ j hj => ?_⟩
      rw [hafter] at hj ⊢
      rw [isRemoved_recordRemoval, Bool.or_eq_false_iff, decide_eq_false_iff_not] at hj
      rw [isUpdated_recordRemoval, decide_eq_true (Ne.symm hj.2)]
      exact ⟨hj.1, Bool.true_and _⟩
    · exact .of_eq hafter

theorem keepsTexts_of_selects? (h : s.selects? r = none) : s.KeepsTexts r := by
  cases hsetting : r.isSetting with
  | true => exact .of_eq (refused_of_selects? h hsetting).1
  | false =>
    cases hblock : r.block? with
    | some block => exact keepsTexts_of_block? hblock
    | none =>
      cases r with
      | removeDependency group name scope => exact s.keepsTexts_removeDependency group name scope
      | clear => exact ⟨rfl, rfl, fun hclear => absurd rfl hclear⟩
      | setDependencyVersion => cases hsetting
      | setPluginVersion => cases hsetting
      | setProperty => cases hsetting
      | setRepositoryUrl => cases hsetting
      | addDependency => cases hblock
      | addPlugin => cases hblock
      | addRepository => cases hblock

theorem getElem?_record (he : s.index.entries[i]? = some e) (value : Declaration)
    (newText description : Text) :
    (s.record i e value newText description).index.entries[i]? =
      some { e with declaration := value, rawText := newText } :=
  List.getElem?_set_self (List.getElem?_eq_some_iff.1 he).1

/-- The entry that a request gives another version, value or address. -/
def revises? (s : Session) (r : Request) : Option Nat :=
  (s.selects? r).filter fun i =>
    (s.after r).index.entries[i]?.map (·.declaration) ≠ s.index.entries[i]?.map (·.declaration)

/-- The entries revised since the last clear in a course of requests, given those revised
before it. -/
def revisedSince (s : Session) (revised : List Nat) : List Request → List Nat
  | [] => revised
  | r :: rs =>
    revisedSince (s.after r) (if r = .clear then [] else revised ++ (s.revises? r).toList) rs

/-- A request that revises an entry records a new text for it, and any other request records
none. -/
theorem revises?_cases (s : Session) (r : Request) :
    (∃ i e value newText description, s.revises? r = some i ∧ (e, i) ∈ s.remaining ∧
      s.after r = s.record i e value newText description ∧
      (e.declaration.WrittenAs e.rawText → value.WrittenAs newText)) ∨
    (s.revises? r = none ∧ s.KeepsTexts r) := by
  cases hsel : s.selects? r with
  | none =>
    right
    refine ⟨?_, keepsTexts_of_selects? hsel⟩
    rw [revises?, hsel]
    rfl
  | some i =>
    have hrevises := revises_attempt hsel
    have hafter : s.after r = (s.attempt r).session := rfl
    rw [revises?, hsel, Option.filter_some]
    generalize s.attempt r = a at hrevises hafter
    cases hrevises with
    | kept hmem fault warnings hmet =>
      right
      refine ⟨?_, .of_eq hafter⟩
      rw [hafter]
      simp
    | @revised e hmem value newText description warnings hne hmet =>
      left
      refine ⟨i, e, value, newText, description, ?_, hmem, hafter, fun h => (hmet h).writtenAs⟩
      have he := (mem_remaining hmem).1
      rw [hafter, getElem?_record he, he]
      simp [hne]

/-! ## Written sessions -/

/-- Every entry of a session is written as it shows. -/
def Written (s : Session) : Prop := ∀ e ∈ s.index.entries, e.declaration.WrittenAs e.rawText

theorem written_after (h : s.Written) (r : Request) : (s.after r).Written := by
  rcases s.revises?_cases r with ⟨i, e, value, newText, description, -, hmem, hafter, hwritten⟩ |
    ⟨-, hkeeps⟩
  · rw [hafter]
    intro e' he'
    rcases List.mem_or_eq_of_mem_set he' with he' | rfl
    · exact h e' he'
    · exact hwritten (h e (List.mem_of_getElem? (mem_remaining hmem).1))
  · rw [Written, hkeeps.index]
    exact h

/-- Behind every course of requests the entries are written as they show. -/
theorem written_afterAll (h : s.Written) (requests : List Request) :
    (s.afterAll requests).Written := by
  induction requests generalizing s with
  | nil => exact h
  | cons r requests ih => exact ih (written_after h r)

/-! ## Revisions since the last clear -/

/-- An entry in place has an update pending when it is among the revised ones and does not show its
parsed text. -/
def Tracked (revised : List Nat) (s : Session) : Prop :=
  ∀ (i : Nat) (e : Entry), s.index.entries[i]? = some e → s.isRemoved i = false →
    (s.isUpdated i = true ↔ i ∈ revised ∧ e.rawText ≠ s.parsedText i)

theorem tracked_after {revised : List Nat} (h : s.Tracked revised) (r : Request) :
    (s.after r).Tracked (if r = .clear then [] else revised ++ (s.revises? r).toList) := by
  intro j e' he' hplace
  by_cases hclear : r = .clear
  · subst hclear
    simp [after, attempt, clear, isUpdated]
  rw [if_neg hclear]
  rcases s.revises?_cases r with ⟨i, e, value, newText, description, hr, hmem, hafter, -⟩ |
    ⟨hr, hkeeps⟩
  · rw [hafter] at he' hplace ⊢
    have hi := (List.getElem?_eq_some_iff.1 (mem_remaining hmem).1).1
    rw [isRemoved_record] at hplace
    rw [hr, Option.toList_some, isUpdated_record, List.mem_append, List.mem_singleton]
    rcases (getElem?_record_iff hi).1 he' with ⟨rfl, rfl⟩ | ⟨hji, he'⟩
    · rw [if_pos rfl, decide_eq_true_eq]
      exact (and_iff_right (Or.inr rfl)).symm
    · rw [if_neg hji, or_iff_left hji]
      exact h j e' he' hplace
  · obtain ⟨hplace, hpending⟩ := hkeeps.pending hclear j hplace
    rw [hkeeps.index] at he'
    rw [hr, Option.toList_none, List.append_nil, hpending, parsedText, hkeeps.parsedTexts]
    exact h j e' he' hplace

/-- An entry in place has an update pending when it was revised since the last clear and does not
show its parsed text. -/
theorem tracked_afterAll {revised : List Nat} (h : s.Tracked revised) (requests : List Request) :
    (s.afterAll requests).Tracked (s.revisedSince revised requests) := by
  induction requests generalizing s revised with
  | nil => exact h
  | cons r requests ih => exact ih (tracked_after h r)

/-- While nothing is cleared, an entry that does not show its parsed text has been revised. -/
theorem mem_revisedSince {revised : List Nat} {requests : List Request}
    (h : ∀ (i : Nat) (e : Entry), s.index.entries[i]? = some e → e.rawText ≠ s.parsedText i →
      i ∈ revised)
    (hclear : .clear ∉ requests) {i : Nat} {e : Entry}
    (he : (s.afterAll requests).index.entries[i]? = some e)
    (hne : e.rawText ≠ (s.afterAll requests).parsedText i) :
    i ∈ s.revisedSince revised requests := by
  induction requests generalizing s revised with
  | nil => exact h i e he hne
  | cons r requests ih =>
    rw [List.mem_cons, not_or] at hclear
    refine ih (fun j e' he' hne' => ?_) hclear.2 he hne
    rw [if_neg (Ne.symm hclear.1)]
    rcases s.revises?_cases r with ⟨l, e₀, value, newText, description, hr, hmem, hafter, -⟩ |
      ⟨-, hkeeps⟩
    · rw [hafter] at he' hne'
      have hl := (List.getElem?_eq_some_iff.1 (mem_remaining hmem).1).1
      rw [hr, Option.toList_some, List.mem_append, List.mem_singleton]
      rcases (getElem?_record_iff hl).1 he' with ⟨rfl, -⟩ | ⟨-, he'⟩
      · exact Or.inr rfl
      · exact Or.inl (h j e' he' hne')
    · rw [hkeeps.index] at he'
      rw [parsedText, hkeeps.parsedTexts] at hne'
      exact List.mem_append_left _ (h j e' he' hne')

/-! ## Standing texts -/

/-- The text that stands for a region in the rendered script: what its pending replacement puts
there, or what the script holds there if there is none. -/
def standing (s : Session) (region : Region) : Text :=
  match s.edits.find? fun edit => edit.kind = .replace ∧ edit.region = region with
  | some edit => edit.newText
  | none => s.index.textOf region

theorem Coherent.textOf_eq {options : ParseOptions} {text : Text}
    (h : Coherent (Index.parse options text) s) (he : s.index.entries[i]? = some e) :
    s.index.textOf e.region = s.parsedText i := by
  obtain ⟨u, v, hcov⟩ := h.covers he
  rw [show text = s.index.text from h.text.symm] at hcov
  exact Index.textOf_of_covers hcov

/-- An entry stands as it shows if an update of it is pending, and else as it was parsed. -/
theorem Coherent.standing_eq {options : ParseOptions} {text : Text}
    (h : Coherent (Index.parse options text) s) (he : s.index.entries[i]? = some e) :
    s.standing e.region = if s.isUpdated i then e.rawText else s.parsedText i := by
  have hfits : ∀ edit : Edit, decide (edit.kind = .replace ∧ edit.region = e.region) = true →
      edit ∈ s.edits → s.isUpdated i = true ∧ edit.newText = e.rawText := by
    intro edit hfit hedit
    obtain ⟨hkind, hregion⟩ := of_decide_eq_true hfit
    obtain ⟨c, hc, rfl⟩ := List.mem_map.1 hedit
    obtain ⟨j, e', hj, hremoves, he', -, hregion', -, hnew⟩ := h.update_of_replace hc hkind
    obtain rfl : i = j :=
      h.index_of_line he he' (by rw [Entry.line, Entry.line, ← hregion, hregion'])
    obtain rfl := Option.some.inj (he.symm.trans he')
    refine ⟨List.any_eq_true.2 ⟨c, hc, ?_⟩, hnew⟩
    rcases Change.subject?_eq_some_iff.1 hj with hupdates | hremoves'
    · exact hupdates
    · rw [hremoves] at hremoves'
      cases hremoves'
  unfold standing
  split
  · next edit hfind =>
    have hfit := List.find?_some hfind
    obtain ⟨hupdated, hnew⟩ := hfits edit hfit (List.mem_of_find?_eq_some hfind)
    rw [hupdated, hnew, if_pos rfl]
  · next hfind =>
    have hnone : s.isUpdated i = false := by
      refine List.any_eq_false.2 fun c hc hupdates => ?_
      have hcarries := h.carries c hc
      cases c with
      | update j edit =>
        obtain ⟨e', description, he', -, hedit⟩ := hcarries
        obtain rfl : j = i := of_decide_eq_true hupdates
        obtain rfl := Option.some.inj (he.symm.trans he')
        refine List.find?_eq_none.1 hfind edit (List.mem_map.2 ⟨_, hc, rfl⟩) ?_
        rw [hedit]
        exact decide_eq_true ⟨rfl, rfl⟩
      | insertion => cases hupdates
      | removal => cases hupdates
    rw [hnone, if_neg Bool.false_ne_true, h.textOf_eq he]

/-- A request that is to set something and is carried out has an entry in place as it asks for. -/
theorem met_of_accepted (h : s.Written) (hsetting : r.isSetting = true)
    (hfault : (s.attempt r).fault = none) : ∃ i e, s.selects? r = some i ∧
      (s.after r).index.entries[i]? = some e ∧ (s.after r).isRemoved i = false ∧
      r.Met e.rawText e.declaration := by
  cases hsel : s.selects? r with
  | none => exact absurd hfault (refused_of_selects? hsel hsetting).2
  | some i =>
    have hrevises := revises_attempt hsel
    unfold after
    generalize s.attempt r = a at hrevises hfault
    cases hrevises with
    | @kept e hmem fault warnings hmet =>
      obtain ⟨he, hplace⟩ := mem_remaining hmem
      exact ⟨i, e, rfl, he, hplace, hmet hfault (h e (List.mem_of_getElem? he))⟩
    | @revised e hmem value newText description warnings hne hmet =>
      obtain ⟨he, hplace⟩ := mem_remaining hmem
      refine ⟨i, _, rfl, getElem?_record he value newText description, ?_,
        hmet (h e (List.mem_of_getElem? he))⟩
      rw [isRemoved_record, hplace]

/-- Behind a request that sets a version, a value or an address and is carried out, the entry that
it selected is as asked for. It stands so in the rendered script when its text is as parsed or was
set since the last clear, and so always if nothing was cleared. -/
theorem standing_after_setting (kinds : List Kind) (enabled : Option (List Kind))
    (skipComments : Bool) (editor : EditorOptions) (text : Text) (requests : List Request)
    (r : Request) (hsetting : r.isSetting = true)
    (hfault : (((start (Index.parse (.builtIn kinds enabled skipComments) text) editor).afterAll
      requests).attempt r).fault = none) :
    let base := start (Index.parse (.builtIn kinds enabled skipComments) text) editor
    let s := (base.afterAll requests).after r
    ∃ i e, (base.afterAll requests).selects? r = some i ∧ s.index.entries[i]? = some e ∧
      r.Met e.rawText e.declaration ∧
      (s.standing e.region = e.rawText ↔
        e.rawText = s.index.textOf e.region ∨ i ∈ base.revisedSince [] (requests ++ [r])) ∧
      (.clear ∉ requests → s.standing e.region = e.rawText) := by
  intro base s
  have hwritten : base.Written := by
    obtain ⟨used, hused⟩ := ParseOptions.exists_builtIn_eq kinds enabled skipComments
    intro e he
    have he : e ∈ (Index.parse (.builtIn kinds enabled skipComments) text).entries := he
    rw [hused] at he
    exact Index.writtenAs_of_mem_parse he
  obtain ⟨i, e, hsel, he, hplace, hmet⟩ :=
    met_of_accepted (written_afterAll hwritten requests) hsetting hfault
  have hs : base.afterAll (requests ++ [r]) = s := List.foldl_append
  have hcoherent : Coherent (Index.parse (.builtIn kinds enabled skipComments) text) s :=
    hs ▸ coherent_afterAll _ editor (requests ++ [r])
  have htracked : base.Tracked [] := fun _ _ _ _ => by simp [isUpdated, base, start]
  have hupdated := tracked_afterAll htracked (requests ++ [r])
  rw [hs] at hupdated
  have hstanding : s.standing e.region = e.rawText ↔
      e.rawText = s.index.textOf e.region ∨ i ∈ base.revisedSince [] (requests ++ [r]) := by
    rw [hcoherent.standing_eq he, hcoherent.textOf_eq he]
    by_cases hsame : e.rawText = s.parsedText i
    · simp [hsame]
    · have hpending := hupdated i e he hplace
      rw [and_iff_left hsame] at hpending
      rw [or_iff_right hsame, ← hpending]
      cases s.isUpdated i <;> simp [Ne.symm hsame]
  refine ⟨i, e, hsel, he, hmet, hstanding, fun hclear => hstanding.2 ?_⟩
  rw [or_iff_not_imp_left, hcoherent.textOf_eq he]
  refine fun hne => mem_revisedSince (fun j e' he' hne' => ?_) ?_ (by rw [hs]; exact he)
    (by rw [hs]; exact hne)
  · exact absurd (parsedText_start he' editor).symm hne'
  · rw [List.mem_append, List.mem_singleton, not_or]
    refine ⟨hclear, ?_⟩
    rintro rfl
    cases hsetting

/-- A script with a version that is set, dropped by a clear and set once more. -/
def heldScript : Text := "implementation 'a:b:1'".toList

/-- The version that the session still shows when it is set once more does not stand in the
script. -/
theorem standing_heldVersion :
    let set : Request := .setDependencyVersion "a".toList "b".toList "2".toList none
    let base := start (Index.parse {} heldScript) {}
    let s := (base.afterAll [set, .clear]).after set
    ((base.afterAll [set, .clear]).attempt set).fault = none ∧
      (base.afterAll [set, .clear]).selects? set = some 0 ∧
      s.index.entries.map (·.rawText) = ["'a:b:2'".toList] ∧
      s.index.entries.map (fun e => s.standing e.region) = ["'a:b:1'".toList] ∧
      s.edits = [] ∧ s.render = ⟨.ok heldScript, []⟩ :=
  ⟨by decide, by decide, by decide, by decide, by decide, rfl⟩

/-- Another version stands in the script, clear or not. -/
theorem standing_newVersion :
    let set (version : String) : Request :=
      .setDependencyVersion "a".toList "b".toList version.toList none
    let base := start (Index.parse (.builtIn Kind.all none true) heldScript) {}
    let s := (base.afterAll [set "2", .clear]).after (set "3")
    (set "3").isSetting = true ∧
      ((base.afterAll [set "2", .clear]).attempt (set "3")).fault = none ∧
      ∃ i e, (base.afterAll [set "2", .clear]).selects? (set "3") = some i ∧
        s.index.entries[i]? = some e ∧ (set "3").Met e.rawText e.declaration ∧
        (s.standing e.region = e.rawText ↔ e.rawText = s.index.textOf e.region ∨
          i ∈ base.revisedSince [] ([set "2", .clear] ++ [set "3"])) ∧
        (.clear ∉ [set "2", .clear] → s.standing e.region = e.rawText) :=
  ⟨rfl, by decide, standing_after_setting Kind.all none true {} heldScript _ _ rfl (by decide)⟩

end Session

end BuildScript
