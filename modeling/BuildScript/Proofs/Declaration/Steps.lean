import BuildScript.Proofs.Text.Search
import BuildScript.Proofs.Declaration.Coordinate
/-!
# The steps of the readers

What each reader of a declaration takes, step by step: the words and marks that it needs, the names
and quoted texts between them, and what it leaves. A reader succeeds exactly if there are steps to
take, and its value is put together from what they come to.

Results:
* one equivalence for each reader, as `readId?_eq_some_iff` or `readReference?_eq_some_iff`.
* `readCallTail?_eq_some_iff`: the call form of a task, with and without a type argument.
-/
namespace BuildScript

open Text

/-! ## Plugins -/

namespace Plugin

variable {before : Option Char} {s r : Text}

theorem readId?_eq_some_iff {mark : Char} {name : Text} :
    readId? before s = some ((mark, name), r) ↔ (startsWord before = true ∧ name ≠ []) ∧
      ∃ u, after? "id".toList s = some u ∧ readArgument? u = some (mark, name, r) := by
  unfold readId?
  cases startsWord before with
  | false => simp
  | true =>
    constructor
    · intro h
      obtain ⟨u, hu, h⟩ := Option.bind_eq_some_iff.1 h
      obtain ⟨⟨mark', name', r'⟩, hq, h⟩ := Option.bind_eq_some_iff.1 h
      dsimp only at h
      split at h
      · cases h
      · next hname =>
        cases h
        exact ⟨⟨rfl, hname⟩, u, hu, hq⟩
    · rintro ⟨⟨-, hname⟩, u, hu, hq⟩
      exact Option.bind_eq_some_iff.2 ⟨u, hu, Option.bind_eq_some_iff.2 ⟨_, hq, if_neg hname⟩⟩

theorem readIdCall?_eq_some_iff {a : Char × Text} : readIdCall? before s = some (a, r) ↔
    ∃ u, readId? before s = some (a, u) ∧ skipCallClosing u = r := by
  unfold readIdCall?
  rw [Option.map_eq_some_iff]
  constructor
  · rintro ⟨⟨a', u⟩, hu, h⟩
    cases h
    exact ⟨u, hu, rfl⟩
  · rintro ⟨u, hu, rfl⟩
    exact ⟨(a, u), hu, rfl⟩

theorem readVersion?_eq_some_iff {version : Text} : readVersion? s = some (version, r) ↔
    ∃ c u, s = c :: u ∧ isBlank c = true ∧ ∃ q,
      (∃ v, after? "version".toList (trimLeft u) = some v ∧
        ∃ mark, readArgument? v = some (mark, version, q)) ∧ skipCallClosing q = r := by
  cases s with
  | nil => simp [readVersion?]
  | cons c u =>
    rw [readVersion?]
    constructor
    · intro h
      split at h
      · next hc =>
        obtain ⟨v, hv, h⟩ := Option.bind_eq_some_iff.1 h
        obtain ⟨⟨mark, version', q⟩, hq, h⟩ := Option.bind_eq_some_iff.1 h
        cases h
        exact ⟨c, u, rfl, hc, q, ⟨v, hv, mark, hq⟩, rfl⟩
      · cases h
    · rintro ⟨c', u', hcu, hc, q, ⟨v, hv, mark, hq⟩, rfl⟩
      obtain ⟨rfl, rfl⟩ := List.cons.inj hcu
      rw [if_pos hc]
      exact Option.bind_eq_some_iff.2 ⟨v, hv, Option.bind_eq_some_iff.2 ⟨_, hq, rfl⟩⟩

theorem readDeclaration?_eq_some_iff {p : Plugin} : readDeclaration? before s = some (p, r) ↔
    ∃ a u, readIdCall? before s = some (a, u) ∧
      ((∃ version, readVersion? u = some (version, r) ∧ p = ⟨a.2, version, true⟩) ∨
        (readVersion? u = none ∧ u = r ∧ p = ⟨a.2, [], true⟩)) := by
  constructor
  · intro h
    obtain ⟨⟨a, u⟩, hu, h⟩ := Option.bind_eq_some_iff.1 h
    refine ⟨a, u, hu, ?_⟩
    dsimp only at h
    split at h
    · next version r' hv =>
      cases h
      exact Or.inl ⟨version, hv, rfl⟩
    · next hv =>
      cases h
      exact Or.inr ⟨hv, rfl, rfl⟩
  · rintro ⟨a, u, hu, ⟨version, hv, rfl⟩ | ⟨hv, rfl, rfl⟩⟩ <;>
    · refine Option.bind_eq_some_iff.2 ⟨(a, u), hu, ?_⟩
      dsimp only
      rw [hv]

theorem readApplication?_eq_some_iff {p : Plugin} : readApplication? before s = some (p, r) ↔
    startsWord before = true ∧ ∃ u, after? "apply".toList s = some u ∧
      ∃ c v, u = c :: v ∧ isBlank c = true ∧ ∃ w, after? "plugin".toList (trimLeft v) = some w ∧
        ∃ x, after? [':'] (trimLeft w) = some x ∧ ∃ mark name,
          (name ≠ [] ∧ p = ⟨name, [], true⟩) ∧ readQuoted? (trimLeft x) = some (mark, name, r) := by
  unfold readApplication?
  cases startsWord before with
  | false => simp
  | true =>
    constructor
    · intro h
      obtain ⟨u, hu, h⟩ := Option.bind_eq_some_iff.1 h
      split at h
      · cases h
      · next c v =>
        refine ⟨rfl, _, hu, c, v, rfl, ?_⟩
        cases hc : isBlank c with
        | false => simp [hc] at h
        | true =>
          rw [hc] at h
          obtain ⟨w, hw, h⟩ := Option.bind_eq_some_iff.1 h
          refine ⟨rfl, w, hw, ?_⟩
          split at h
          · next x hx =>
            obtain ⟨⟨mark, name, r'⟩, hq, h⟩ := Option.bind_eq_some_iff.1 h
            dsimp only at h
            split at h
            · cases h
            · next hname =>
              cases h
              exact ⟨x, by rw [hx]; rfl, mark, name, ⟨hname, rfl⟩, hq⟩
          · cases h
    · rintro ⟨-, u, hu, c, v, rfl, hc, w, hw, x, hx, mark, name, ⟨hname, rfl⟩, hq⟩
      refine Option.bind_eq_some_iff.2 ⟨_, hu, ?_⟩
      dsimp only
      rw [hc]
      refine Option.bind_eq_some_iff.2 ⟨w, hw, ?_⟩
      rw [eq_append_of_after? hx]
      exact Option.bind_eq_some_iff.2 ⟨_, hq, if_neg hname⟩

end Plugin

/-! ## Repositories -/

namespace Repository

variable {before : Option Char} {s r : Text}

theorem readEmptyCall?_eq_some_iff : readEmptyCall? s = some r ↔
    ∃ u, after? ['('] s = some u ∧ after? [')'] (trimLeft u) = some r := by
  simp only [after?_eq_some_iff, List.singleton_append]
  unfold readEmptyCall?
  constructor
  · intro h
    split at h
    · next u =>
      split at h
      · next e =>
        cases h
        exact ⟨u, rfl, e⟩
      · cases h
    · cases h
  · rintro ⟨u, rfl, hr⟩
    simp only [hr]

theorem readWellKnown?_eq (before : Option Char) (s : Text) : readWellKnown? before s =
    if startsWord before then
      wellKnown.findSome? fun name => ((after? name s).bind readEmptyCall?).map fun rest =>
        (⟨name, "maven".toList, []⟩, rest)
    else none := by
  unfold readWellKnown?
  cases startsWord before with
  | false => rfl
  | true =>
    have hmap := List.map_findSome? (l := wellKnown)
      (f := fun name => ((after? name s).bind readEmptyCall?).map fun rest => (name, rest))
      (g := fun a => ((⟨a.1, "maven".toList, []⟩, a.2) : Repository × Text))
    simp only [Function.comp_def, Option.map_map] at hmap
    rw [if_pos rfl, ← hmap, Option.map_eq_bind]
    rfl

theorem map_readEmptyCall?_eq_some_iff {name : Text} {repository : Repository} :
    (((after? name s).bind readEmptyCall?).map fun rest =>
      ((⟨name, "maven".toList, []⟩ : Repository), rest)) = some (repository, r) ↔
      ⟨name, "maven".toList, []⟩ = repository ∧
        ∃ u, after? name s = some u ∧ readEmptyCall? u = some r := by
  simp only [Option.map_eq_some_iff, Option.bind_eq_some_iff, Prod.mk.injEq]
  constructor
  · rintro ⟨q, hq, h, rfl⟩
    exact ⟨h, hq⟩
  · rintro ⟨h, hq⟩
    exact ⟨r, hq, h, rfl⟩

theorem readUrl?_eq_some_iff {repository : Repository} :
    readUrl? before s = some (repository, r) ↔ startsWord before = true ∧ ∃ q,
      (∃ u, after? "url".toList s = some u ∧ ∃ mark url,
        (isAddress url = true ∧ repository = ⟨nameOfUrl url, "maven".toList, url⟩) ∧
          readQuoted? (skipUriOpening (skipEquals (trimLeft u))) = some (mark, url, q)) ∧
        skipCallClosing q = r := by
  unfold readUrl?
  cases startsWord before with
  | false => simp
  | true =>
    constructor
    · intro h
      obtain ⟨u, hu, h⟩ := Option.bind_eq_some_iff.1 h
      obtain ⟨⟨mark, url, q⟩, hq, h⟩ := Option.bind_eq_some_iff.1 h
      dsimp only at h
      split at h
      · next haddress =>
        cases h
        exact ⟨rfl, q, ⟨u, hu, mark, url, ⟨haddress, rfl⟩, hq⟩, rfl⟩
      · cases h
    · rintro ⟨-, q, ⟨u, hu, mark, url, ⟨haddress, rfl⟩, hq⟩, rfl⟩
      exact Option.bind_eq_some_iff.2 ⟨u, hu, Option.bind_eq_some_iff.2 ⟨_, hq, if_pos haddress⟩⟩

end Repository

/-! ## Tasks -/

namespace Task

variable {before : Option Char} {s r : Text}

theorem readMark?_eq (mark : Char) (s : Text) : readMark? mark s = after? [mark] (trimLeft s) := by
  unfold readMark?
  cases trimLeft s with
  | nil => rfl
  | cons c u =>
    by_cases h : c = mark
    · simp [after?, h]
    · simp [after?, h, Ne.symm h]

theorem readTypeClause?_eq_some_iff {type : Text} : readTypeClause? s = some (type, r) ↔
    ∃ u, readMark? '(' s = some u ∧ ∃ v, after? "type".toList (trimLeft u) = some v ∧
      ∃ w, readMark? ':' v = some w ∧ (type ≠ [] ∧ ((trimLeft w).takeWhile isDotted = type ∧
        readMark? ')' ((trimLeft w).dropWhile isDotted) = some r)) := by
  constructor
  · intro h
    obtain ⟨u, hu, h⟩ := Option.bind_eq_some_iff.1 h
    obtain ⟨v, hv, h⟩ := Option.bind_eq_some_iff.1 h
    obtain ⟨w, hw, h⟩ := Option.bind_eq_some_iff.1 h
    obtain ⟨q, hq, h⟩ := Option.bind_eq_some_iff.1 h
    split at h
    · cases h
    · next hne =>
      cases h
      exact ⟨u, hu, v, hv, w, hw, hne, rfl, hq⟩
  · rintro ⟨u, hu, v, hv, w, hw, hne, rfl, hq⟩
    refine Option.bind_eq_some_iff.2 ⟨u, hu, Option.bind_eq_some_iff.2 ⟨v, hv,
      Option.bind_eq_some_iff.2 ⟨w, hw, Option.bind_eq_some_iff.2 ⟨r, hq, ?_⟩⟩⟩⟩
    split
    · next e => exact absurd e hne
    · rfl

theorem readKeyword?_eq_some_iff {task : Task} : readKeyword? before s = some (task, r) ↔
    ∃ name u, (startsName before = true ∧ ∃ v, after? "task".toList s = some v ∧
      ∃ blank w, v = blank :: w ∧ isBlank blank = true ∧
        ∃ c x, trimLeft w = c :: x ∧ isIdentifierStart c = true ∧ c :: x.takeWhile isWord = name ∧
          x.dropWhile isWord = u) ∧
      ((∃ type, readTypeClause? u = some (type, r) ∧ task = ⟨name, type⟩) ∨
        (readTypeClause? u = none ∧ u = r ∧ task = ⟨name, []⟩)) := by
  unfold readKeyword?
  cases startsName before with
  | false => simp
  | true =>
    constructor
    · intro h
      obtain ⟨v, hv, h⟩ := Option.bind_eq_some_iff.1 h
      split at h
      · cases h
      · next blank w =>
        cases hblank : isBlank blank with
        | false => simp [hblank] at h
        | true =>
          rw [hblank] at h
          split at h
          · cases h
          · next c x hw =>
            cases hc : isIdentifierStart c with
            | false => simp [hc] at h
            | true =>
              simp only [hc, Bool.not_true, Bool.false_eq_true, if_false] at h
              refine ⟨_, _, ⟨rfl, _, hv, blank, w, rfl, hblank, c, x, hw, hc, rfl, rfl⟩, ?_⟩
              split at h
              · next type rest htype =>
                cases h
                exact Or.inl ⟨type, htype, rfl⟩
              · next hnone =>
                cases h
                exact Or.inr ⟨hnone, rfl, rfl⟩
    · rintro ⟨name, u, ⟨-, v, hv, blank, w, rfl, hblank, c, x, hw, hc, rfl, rfl⟩, h⟩
      refine Option.bind_eq_some_iff.2 ⟨_, hv, ?_⟩
      dsimp only
      rw [hblank, hw]
      dsimp only
      rw [hc]
      rcases h with ⟨type, htype, rfl⟩ | ⟨hnone, rfl, rfl⟩
      · rw [htype]
        rfl
      · rw [hnone]
        rfl

theorem isDotted_of_capital {c : Char} (h : 'A' ≤ c ∧ c ≤ 'Z') : isDotted c = true := by
  have hstart : isIdentifierStart c = true := by
    have hlow : 65 ≤ c.toNat := h.1
    have hhigh : c.toNat ≤ 90 := h.2
    simp [isIdentifierStart, hlow, hhigh]
  simp [isDotted, isWord_of_isIdentifierStart hstart]

theorem readClassAndClosing?_eq_some_iff {name : Text} :
    readClassAndClosing? s = some (name, r) ↔
      (name = [] ∧ readMark? ')' s = some r) ∨ ∃ u, readMark? ',' s = some u ∧
        ((name.head?.any fun c => decide ('A' ≤ c ∧ c ≤ 'Z')) = true ∧
          ((trimLeft u).takeWhile isDotted = name ∧
            readMark? ')' (skipClassSuffix ((trimLeft u).dropWhile isDotted)) = some r)) := by
  unfold readClassAndClosing?
  cases hcomma : readMark? ',' s with
  | none =>
    simp only [Option.map_eq_some_iff, Prod.mk.injEq]
    constructor
    · rintro ⟨q, hq, rfl, rfl⟩
      exact Or.inl ⟨rfl, hq⟩
    · rintro (⟨rfl, hr⟩ | ⟨u, hu, -⟩)
      · exact ⟨r, hr, rfl, rfl⟩
      · cases hu
  | some u =>
    have hclosing : readMark? ')' s = none := by
      rw [readMark?_eq] at hcomma ⊢
      rw [eq_append_of_after? hcomma]
      rfl
    rw [hclosing]
    dsimp only
    constructor
    · intro h
      split at h
      · cases h
      · next c t htrim =>
        split at h
        · next hc =>
          obtain ⟨q, hq, hqr⟩ := Option.map_eq_some_iff.1 h
          cases hqr
          have hdotted := isDotted_of_capital hc
          refine Or.inr ⟨u, rfl, ?_, ?_, ?_⟩
          · simp [hc]
          · rw [htrim, List.takeWhile_cons_of_pos hdotted]
          · rwa [htrim, List.dropWhile_cons_of_pos hdotted]
        · cases h
    · rintro (⟨-, hr⟩ | ⟨u', hu, hname, rfl, hr⟩)
      · cases hr
      · cases hu
        cases htrim : trimLeft u with
        | nil =>
          rw [htrim] at hname
          cases hname
        | cons c t =>
          rw [htrim] at hname hr
          have hdotted : isDotted c = true := by
            by_contra hno
            rw [List.takeWhile_cons_of_neg hno] at hname
            cases hname
          rw [List.takeWhile_cons_of_pos hdotted] at hname ⊢
          rw [List.dropWhile_cons_of_pos hdotted] at hr
          have hc : 'A' ≤ c ∧ c ≤ 'Z' := of_decide_eq_true hname
          dsimp only
          rw [if_pos hc, hr]
          rfl

theorem readTypeArgument_cases (s : Text) :
    readTypeArgument s = ([], s) ∨ ∃ argument u v, readTypeArgument s = (argument, v) ∧
      after? ['<'] s = some u ∧ argument ≠ [] ∧ u.takeWhile isDotted = argument ∧
        after? ['>'] (u.dropWhile isDotted) = some v := by
  unfold readTypeArgument
  split
  · next u =>
    split
    · next c cs rest htake hdrop =>
      refine Or.inr ⟨_, u, _, rfl, rfl, List.cons_ne_nil c cs, htake, ?_⟩
      rw [hdrop]
      rfl
    · exact Or.inl rfl
  · exact Or.inl rfl

/-- What a call has behind its type argument, if it has one. -/
def CallBehind (argument : Text) (task : Task) (s r : Text) : Prop :=
  ∃ u, after? ['('] s = some u ∧ ∃ mark name, name ≠ [] ∧
    ∃ v, readQuoted? (trimLeft u) = some (mark, name, v) ∧ ∃ className,
      task = ⟨name, if argument = [] then className else argument⟩ ∧
        readClassAndClosing? v = some (className, r)

theorem callBehind_iff {argument : Text} {task : Task} : CallBehind argument task s r ↔
    ((after? ['('] s).bind fun u => (readQuoted? (trimLeft u)).bind fun q =>
      if q.2.1 = [] then none
      else (readClassAndClosing? q.2.2).bind fun c =>
        some ((⟨q.2.1, if argument = [] then c.1 else argument⟩ : Task), c.2)) =
      some (task, r) := by
  constructor
  · rintro ⟨u, hu, mark, name, hname, v, hv, className, rfl, hc⟩
    refine Option.bind_eq_some_iff.2 ⟨u, hu, Option.bind_eq_some_iff.2 ⟨_, hv, ?_⟩⟩
    rw [if_neg hname]
    exact Option.bind_eq_some_iff.2 ⟨_, hc, rfl⟩
  · intro h
    obtain ⟨u, hu, h⟩ := Option.bind_eq_some_iff.1 h
    obtain ⟨⟨mark, name, v⟩, hv, h⟩ := Option.bind_eq_some_iff.1 h
    dsimp only at h
    split at h
    · cases h
    · next hname =>
      obtain ⟨⟨className, q⟩, hc, h⟩ := Option.bind_eq_some_iff.1 h
      cases h
      exact ⟨u, hu, mark, name, hname, v, hv, className, rfl, hc⟩

theorem readCallTail?_eq_some_iff {task : Task} : readCallTail? s = some (task, r) ↔
    CallBehind [] task s r ∨ ∃ argument u, after? ['<'] s = some u ∧ (argument ≠ [] ∧
      (u.takeWhile isDotted = argument ∧ ∃ v, after? ['>'] (u.dropWhile isDotted) = some v ∧
        CallBehind argument task v r)) := by
  have hread (argument v : Text) (h : readTypeArgument s = (argument, v)) :
      readCallTail? s = some (task, r) ↔ CallBehind argument task v r := by
    rw [callBehind_iff, readCallTail?, h]
    rfl
  constructor
  · intro h
    rcases readTypeArgument_cases s with hs | ⟨argument, u, v, hs, hu, hne, htake, hv⟩
    · exact Or.inl ((hread _ _ hs).1 h)
    · exact Or.inr ⟨argument, u, hu, hne, htake, v, hv, (hread _ _ hs).1 h⟩
  · rintro (h | ⟨argument, u, hu, hne, htake, v, hv, h⟩)
    · obtain ⟨u, hu, -⟩ := id h
      refine (hread [] s ?_).2 h
      rw [eq_append_of_after? hu]
      rfl
    · refine (hread argument v ?_).2 h
      obtain ⟨c, cs, hcs⟩ := List.exists_cons_of_ne_nil hne
      rw [eq_append_of_after? hu]
      simp only [readTypeArgument, List.singleton_append, htake, eq_append_of_after? hv, hcs]

end Task

/-! ## Dependencies -/

namespace Coordinate

variable {s r body : Text}

theorem readBody?_iff_steps : readBody? s = some (body, r) ↔
    ∃ mark, isQuote mark = true ∧ ∃ u, after? [mark] s = some u ∧ ∃ group name,
      (group ≠ [] ∧ name ≠ [] ∧ body = group ++ ':' :: name) ∧
        (u.takeWhile isGroupChar = group ∧ ∃ v, after? [':'] (u.dropWhile isGroupChar) = some v ∧
          (v.takeWhile isNameChar = name ∧ after? [mark] (v.dropWhile isNameChar) = some r)) := by
  simp only [after?_eq_some_iff, List.singleton_append]
  cases s with
  | nil => simp [readBody?]
  | cons mark s =>
    rw [readBody?_eq_some_iff]
    constructor
    · rintro ⟨hmark, v, hv, hr, hgroup, hname, hbody⟩
      exact ⟨mark, hmark, s, rfl, _, _, ⟨hgroup, hname, hbody⟩, rfl, v, hv, rfl, hr⟩
    · rintro ⟨mark', hmark, u, hu, group, name, ⟨hgroup, hname, hbody⟩, rfl, v, hv, rfl, hr⟩
      obtain ⟨rfl, rfl⟩ := List.cons.inj hu
      exact ⟨hmark, v, hv, hr, hgroup, hname, hbody⟩

end Coordinate

namespace Dependency

variable {s r : Text}

theorem readReference?_eq_some_iff {name : Text} : readReference? s = some (name, r) ↔
    ∃ u, after? "project(".toList s = some u ∧ ∃ mark, isQuote mark = true ∧
      ∃ v, after? [mark, ':'] (skipPathLabel (trimLeft u)) = some v ∧
        (v.takeWhile (!isQuote ·) = name ∧ ∃ mark', isQuote mark' = true ∧
          ∃ w, after? [mark'] (v.dropWhile (!isQuote ·)) = some w ∧
            after? [')'] (trimLeft w) = some r) := by
  constructor
  · intro h
    obtain ⟨u, hu, h⟩ := Option.bind_eq_some_iff.1 h
    refine ⟨u, hu, ?_⟩
    split at h
    · next mark v hv =>
      split at h
      · next hmark =>
        split at h
        · next mark' w hw =>
          split at h
          · next hr =>
            cases h
            have hmark' : isQuote mark' = true := by
              have := List.head?_dropWhile_not (!isQuote ·) v
              rw [hw] at this
              simpa using this
            refine ⟨mark, hmark, v, by rw [hv]; simp [after?], rfl, mark', hmark', w, ?_, ?_⟩
            · rw [hw]
              simp [after?]
            · rw [hr]
              simp [after?]
          · cases h
        · cases h
      · cases h
    · cases h
  · rintro ⟨u, hu, mark, hmark, v, hv, rfl, mark', -, w, hw, hr⟩
    refine Option.bind_eq_some_iff.2 ⟨u, hu, ?_⟩
    simp only [eq_append_of_after? hv, List.cons_append, List.nil_append, if_pos hmark,
      eq_append_of_after? hw, eq_append_of_after? hr]

theorem find?_eq (line : Text) : find? line =
    ((Coordinate.find? line).map fun found => found.map fun _ =>
        (⟨found.value.group, found.value.name, found.value.version, scopeOf line,
          found.text line⟩ : Dependency)).or
      ((searchIn (fun _ s => readReference? s) line).map fun found => found.map fun _ =>
        ⟨[], found.value, [], scopeOf line, found.text line⟩) := by
  unfold find?
  cases Coordinate.find? line with
  | some found => rfl
  | none => cases searchIn (fun _ s => readReference? s) line <;> rfl

end Dependency

end BuildScript
