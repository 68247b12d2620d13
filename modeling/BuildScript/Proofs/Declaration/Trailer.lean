import BuildScript.Proofs.Text.Trailer
import BuildScript.Proofs.Declaration.Assignment
import BuildScript.Proofs.Declaration.Steps
/-!
# Declarations and what stands behind the code

A line may end in a carriage return, and it may have a comment behind its code. A property is read
the same with and without either. The other declarations are looked for in all of the line, comment
included; but one that is found in front of the comment is found there without it, and a carriage
return is never part of one.

Results:
* `Declaration.find?_cut`, `Declaration.find?_return`: what is found in front of a trailer.
* `Property.find?_append_trailer`: a property is the same without the trailer.
* `Recognizer.firstSighting?_cut`, `Recognizer.firstSighting?_return`: what a line is seen as.
-/
namespace BuildScript

open Text

/-- The blanks beyond ASCII. -/
def Text.wideBlanks : List Nat :=
  [0x85, 0xA0, 0x1680, 0x2000, 0x2001, 0x2002, 0x2003, 0x2004, 0x2005, 0x2006, 0x2007, 0x2008,
    0x2009, 0x200A, 0x2028, 0x2029, 0x202F, 0x205F, 0x3000]

theorem Text.not_isBlank_of_isWord {c : Char} (h : isWord c = true) : isBlank c = false := by
  by_cases hc : c.toNat < 128
  · exact not_isBlank_of_isWord_ascii hc h
  · have hblanks : ∀ n ∈ wideBlanks, inRanges alphanumericRanges n = false := by decide +kernel
    refine Bool.eq_false_iff.2 fun hb => ?_
    have hmem : c.toNat ∈ wideBlanks := by
      simp [isBlank] at hb
      simp [wideBlanks]
      omega
    rw [isWord, if_neg hc, hblanks _ hmem] at h
    cases h

/-! ## Plugins -/

namespace Plugin

variable {before : Option Char} {s r : Text}

theorem steady_readId (before : Option Char) (a : Char × Text) :
    Steady fun s r => readId? before s = some (a, r) :=
  (Steady.and fun _ => (steady_after _ rfl).comp (steady_readArgument a.1 a.2)).congr
    fun _ _ => readId?_eq_some_iff

theorem steady_readIdCall (before : Option Char) (a : Char × Text) :
    Steady fun s r => readIdCall? before s = some (a, r) :=
  (steady_readId before a).closing.congr fun _ _ => readIdCall?_eq_some_iff

theorem steady_readVersion (version : Text) :
    Steady fun s r => readVersion? s = some (version, r) :=
  ((steady_after "version".toList rfl).comp
    (Steady.exists fun mark => steady_readArgument mark version)).closing.blank.congr
      fun _ _ => readVersion?_eq_some_iff

/-- In front of a trailer a version clause may run into it, so a declaration is only settled. -/
theorem settled_readDeclaration (before : Option Char) : Settled (readDeclaration? before) :=
  Settled.optional (steady_readIdCall before) steady_readVersion readDeclaration?_eq_some_iff

theorem steady_readApplication (before : Option Char) (p : Plugin) :
    Steady fun s r => readApplication? before s = some (p, r) := by
  have hname (mark : Char) (name : Text) : Steady fun s r =>
      (name ≠ [] ∧ p = ⟨name, [], true⟩) ∧ readQuoted? (trimLeft s) = some (mark, name, r) :=
    Steady.and fun _ => (steady_readQuoted mark name).skip skips_trimLeft
  have hcolon := ((steady_after [':'] rfl).comp
    (Steady.exists fun mark => Steady.exists (hname mark))).skip skips_trimLeft
  have hplugin := ((steady_after "plugin".toList rfl).comp hcolon).blank
  exact (Steady.and fun _ => (steady_after _ rfl).comp hplugin).congr
    fun _ _ => readApplication?_eq_some_iff

theorem kept_find : Kept find? :=
  (Settled.kept settled_readDeclaration).or
    (Settled.kept fun before => Settled.of_steady (steady_readApplication before))

end Plugin

/-! ## Repositories -/

namespace Repository

variable {before : Option Char} {s r : Text}

theorem steady_readEmptyCall : Steady fun s r => readEmptyCall? s = some r :=
  ((steady_after ['('] rfl).comp
    ((steady_after [')'] rfl).skip skips_trimLeft)).congr
      fun _ _ => readEmptyCall?_eq_some_iff

theorem settled_readWellKnown (before : Option Char) : Settled (readWellKnown? before) := by
  have hword : ∀ name ∈ wellKnown, name.getLast?.any (!isBlank ·) = true := by decide
  have hread : ∀ name ∈ wellKnown, Settled fun s =>
      ((after? name s).bind readEmptyCall?).map fun rest =>
        ((⟨name, "maven".toList, []⟩, rest) : Repository × Text) := by
    refine fun name hname => Settled.of_steady fun repository => ?_
    exact (Steady.and fun _ => (steady_after _ (hword name hname)).comp steady_readEmptyCall).congr
      fun _ _ => map_readEmptyCall?_eq_some_iff
  have heq : readWellKnown? before = fun s => if startsWord before then wellKnown.findSome?
      fun name => ((after? name s).bind readEmptyCall?).map fun rest =>
        (⟨name, "maven".toList, []⟩, rest) else none := funext (readWellKnown?_eq before)
  rw [heq]
  exact (Settled.findSome hread).guard _

theorem skipEquals_eq (s : Text) : skipEquals s = ((after? ['='] s).map trimLeft).getD s := by
  unfold skipEquals
  split
  · rfl
  · next hne =>
    cases ha : after? ['='] s with
    | none => rfl
    | some r => exact absurd (eq_append_of_after? ha) (hne r)

theorem skips_skipEquals : Skips skipEquals := by
  have hskip := skips_trimLeft.optional suffix_of_after?
    fun ht => ht.after?_append ['='] (by decide) (by decide)
  rw [funext skipEquals_eq]
  exact hskip

theorem skipUriOpening_eq (s : Text) :
    skipUriOpening s = ((after? "uri(".toList s).map trimLeft).getD s := by
  unfold skipUriOpening
  split
  · next e => rw [e]; rfl
  · next e => rw [e]; rfl

theorem skips_skipUriOpening : Skips skipUriOpening := by
  have hskip := skips_trimLeft.optional suffix_of_after?
    fun ht => ht.after?_append "uri(".toList (by decide) (by decide)
  rw [funext skipUriOpening_eq]
  exact hskip

theorem steady_readUrl (before : Option Char) (repository : Repository) :
    Steady fun s r => readUrl? before s = some (repository, r) := by
  have hskip := (skips_skipUriOpening.comp skips_skipEquals).comp skips_trimLeft
  have hurl (mark : Char) (url : Text) : Steady fun s r =>
      (isAddress url = true ∧ repository = ⟨nameOfUrl url, "maven".toList, url⟩) ∧
        readQuoted? (skipUriOpening (skipEquals (trimLeft s))) = some (mark, url, r) :=
    Steady.and fun _ => (steady_readQuoted mark url).skip hskip
  have hclause := ((steady_after "url".toList rfl).comp
    (Steady.exists fun mark => Steady.exists (hurl mark))).closing
  exact (Steady.and fun _ => hclause).congr fun _ _ => readUrl?_eq_some_iff

theorem kept_find : Kept find? :=
  (Settled.kept settled_readWellKnown).or
    (Settled.kept fun before => Settled.of_steady (steady_readUrl before))

end Repository

/-! ## Tasks -/

namespace Task

variable {before : Option Char} {s r : Text}

theorem steady_mark (mark : Char) (hmark : [mark].getLast?.any (!isBlank ·) = true) :
    Steady fun s r => readMark? mark s = some r := by
  simp only [readMark?_eq]
  exact (steady_after _ hmark).skip skips_trimLeft

theorem steady_readTypeClause (type : Text) :
    Steady fun s r => readTypeClause? s = some (type, r) := by
  have hname : Steady fun s r => type ≠ [] ∧ ((trimLeft s).takeWhile isDotted = type ∧
      readMark? ')' ((trimLeft s).dropWhile isDotted) = some r) :=
    Steady.and fun _ => ((steady_mark _ rfl).span isDotted type).skip skips_trimLeft
  have htype := ((steady_after "type".toList rfl).comp
    ((steady_mark ':' rfl).comp hname)).skip skips_trimLeft
  exact ((steady_mark _ rfl).comp htype).congr fun _ _ => readTypeClause?_eq_some_iff

theorem steady_name (name : Text) : Steady fun s r =>
    ∃ c u, s = c :: u ∧ isIdentifierStart c = true ∧ c :: u.takeWhile isWord = name ∧
      u.dropWhile isWord = r where
  taken := by
    rintro s r ⟨c, u, rfl, hc, -, rfl⟩
    rcases List.eq_nil_or_concat (u.takeWhile isWord) with hnil | ⟨m, d, hm⟩
    · refine ⟨[], c, ?_, not_isBlank_of_isIdentifierStart hc⟩
      rw [List.nil_append]
      have := List.takeWhile_append_dropWhile (p := isWord) (l := u)
      rw [hnil, List.nil_append] at this
      rw [this]
    · have hu := List.takeWhile_append_dropWhile (p := isWord) (l := u)
      rw [List.concat_eq_append] at hm
      rw [hm] at hu
      have hd : isWord d = true := by
        refine List.all_eq_true.1 (List.all_takeWhile (p := isWord) (l := u)) d ?_
        rw [hm]
        simp
      refine ⟨c :: m, d, ?_, not_isBlank_of_isWord hd⟩
      conv_lhs => rw [← hu]
      simp
  append := by
    rintro s r t ht ⟨c, u, rfl, hc, rfl, rfl⟩
    have hreturn : isWord '\r' = false := by decide
    have hslash : isWord '/' = false := by decide
    exact ⟨c, u ++ t, rfl, hc, by rw [ht.takeWhile_append hreturn hslash],
      ht.dropWhile_append hreturn hslash u⟩
  cut := by
    rintro s r t ht ⟨c, u, hs, hc, rfl, hr⟩
    have hreturn : isWord '\r' = false := by decide
    have hslash : isWord '/' = false := by decide
    cases s with
    | nil =>
      rw [List.nil_append] at hs
      have hlen := (List.dropWhile_suffix isWord (l := u)).length_le
      rw [hr, hs, List.length_append, List.length_cons] at hlen
      omega
    | cons d w =>
      obtain ⟨rfl, rfl⟩ := List.cons.inj hs
      refine ⟨d, w, rfl, hc, ?_, ?_⟩
      · rw [← ht.takeWhile_append hreturn hslash w]
        rfl
      · exact List.append_cancel_right ((ht.dropWhile_append hreturn hslash w).symm.trans hr)

theorem settled_readKeyword (before : Option Char) : Settled (readKeyword? before) := by
  refine Settled.optional (fun name => Steady.and fun _ => ?_) steady_readTypeClause
    readKeyword?_eq_some_iff
  exact (steady_after "task".toList rfl).comp (steady_name name).blank

theorem skips_skipClassSuffix : Skips skipClassSuffix := by
  have hjava := skips_id.optional suffix_of_after?
    fun ht => ht.after?_append ".java".toList (by decide) (by decide)
  have hclass := hjava.optional suffix_of_after?
    fun ht => ht.after?_append "::class".toList (by decide) (by decide)
  have heq : skipClassSuffix = fun s => ((after? "::class".toList s).map fun s =>
      ((after? ".java".toList s).map fun s => s).getD s).getD s := by
    funext s
    unfold skipClassSuffix
    split
    · next r e =>
      rw [e, Option.map_some, Option.getD_some]
      cases after? ".java".toList r <;> rfl
    · next e => rw [e]; rfl
  rw [heq]
  exact hclass

theorem steady_readClassAndClosing (name : Text) :
    Steady fun s r => readClassAndClosing? s = some (name, r) := by
  have hclosing : Steady fun s r => readMark? ')' (skipClassSuffix s) = some r :=
    (steady_mark _ rfl).skip skips_skipClassSuffix
  have hname := Steady.and (p := (name.head?.any fun c => decide ('A' ≤ c ∧ c ≤ 'Z')) = true)
    fun _ => (hclosing.span isDotted name).skip skips_trimLeft
  exact (Steady.or (Steady.and fun _ => steady_mark _ rfl) ((steady_mark _ rfl).comp hname)).congr
    fun _ _ => readClassAndClosing?_eq_some_iff

theorem steady_callBehind (argument : Text) (task : Task) : Steady (CallBehind argument task) := by
  refine (steady_after _ rfl).comp (Steady.exists fun mark => Steady.exists fun name =>
    Steady.and fun _ => ?_)
  refine ((steady_readQuoted mark name).skip skips_trimLeft).comp
    (Steady.exists fun className => Steady.and fun _ => steady_readClassAndClosing className)

theorem steady_readCallTail (task : Task) :
    Steady fun s r => readCallTail? s = some (task, r) := by
  have hargument (argument : Text) : Steady fun s r => ∃ u, after? ['<'] s = some u ∧
      (argument ≠ [] ∧ (u.takeWhile isDotted = argument ∧ ∃ v,
        after? ['>'] (u.dropWhile isDotted) = some v ∧ CallBehind argument task v r)) := by
    refine (steady_after _ rfl).comp (Steady.and fun _ => ?_)
    exact ((steady_after _ rfl).comp (steady_callBehind argument task)).span isDotted argument
  exact ((steady_callBehind [] task).or (Steady.exists hargument)).congr
    fun _ _ => readCallTail?_eq_some_iff

theorem settled_readCall (before : Option Char) : Settled (readCall? before) := by
  have hword : ∀ function ∈ functions, function.getLast?.any (!isBlank ·) = true := by decide
  have hread : ∀ function ∈ functions, Settled fun s =>
      (after? function s).bind readCallTail? := fun function hfunction =>
    Settled.of_steady fun task => ((steady_after _ (hword function hfunction)).comp
      (steady_readCallTail task)).congr fun _ _ => Option.bind_eq_some_iff
  exact (Settled.findSome hread).guard _

theorem kept_find : Kept find? := by
  have hkeyword : Kept fun line => if startsWith "task ".toList (trimLeft line) then
      searchIn readKeyword? line else none := by
    refine (Settled.kept settled_readKeyword).filter fun ht s => ?_
    rw [startsWith, ht.after?_trimLeft (by decide) (by decide) (by decide), Option.isSome_map]
    rfl
  exact hkeyword.or (Settled.kept settled_readCall)

end Task

/-! ## Dependencies -/

namespace Coordinate

variable {s r t body : Text}

theorem steady_readBody (body : Text) : Steady fun s r => readBody? s = some (body, r) := by
  refine (Steady.exists fun mark => Steady.and fun hmark => ?_).congr fun _ _ => readBody?_iff_steps
  have hword := steady_after _ (getLast?_any_of_isQuote hmark)
  refine hword.comp (Steady.exists fun group => Steady.exists fun name => Steady.and fun _ => ?_)
  exact ((steady_after _ rfl).comp (hword.span isNameChar name)).span isGroupChar group

/-- A body that runs into the trailer leaves no mark in front of it. -/
theorem not_isQuote_of_readBody? {c : Char} (h : readBody? (c :: (s ++ t)) = some (body, r))
    (hlen : r.length < t.length) : ∀ x ∈ s, isQuote x = false := by
  obtain ⟨-, hsplit, hbody⟩ := readBody?_spec h
  have hs : s <+: body := by
    refine List.prefix_of_prefix_length_le (List.prefix_append s t) ⟨c :: r, hsplit.symm⟩ ?_
    have := congrArg List.length hsplit
    simp only [List.length_append, List.length_cons] at this
    omega
  intro x hx
  have := hbody x (hs.subset hx)
  simp only [isNameChar, Bool.and_eq_true, Bool.not_eq_true'] at this
  exact this.1

theorem findFrom?_cut (ht : IsTrailer t) {skip offset : Nat} {found : Found Coordinate}
    (h : findFrom? skip offset (s ++ t) = some found) (hstop : found.stop ≤ offset + s.length) :
    findFrom? skip offset s = some found := by
  induction s generalizing skip offset with
  | nil =>
    have hstart := le_start_of_findFrom? h
    have hlt := (findFrom?_bounds h).1
    simp only [List.length_nil] at hstop
    omega
  | cons c s ih =>
    have hrest {skip : Nat} (h : findFrom? skip (offset + 1) (s ++ t) = some found) :
        findFrom? skip (offset + 1) s = some found := by
      refine ih h ?_
      simp only [List.length_cons] at hstop
      omega
    cases skip with
    | succ skip => exact hrest h
    | zero =>
      rw [List.cons_append, findFrom?] at h
      rw [findFrom?]
      split at h
      · next hr =>
        have hnone : readBody? (c :: s) = none :=
          (Settled.of_steady steady_readBody).none_of_append (s := c :: s) ht hr
        rw [hnone]
        exact hrest h
      · next body rest hr =>
        by_cases hlen : t.length ≤ rest.length
        · -- the body ends in front of the trailer
          obtain ⟨r, rfl⟩ :=
            exists_append_of_suffix (s := c :: s) ((steady_readBody body).suffix hr) hlen
          rw [(steady_readBody body).cut (s := c :: s) ht hr]
          dsimp only
          split at h
          · cases h
            simp only [List.length_append, Option.some.injEq, Found.mk.injEq, and_true, true_and]
            omega
          · have hskip : (s ++ t).length - (r ++ t).length = s.length - r.length := by
              simp only [List.length_append]
              omega
            rw [hskip] at h
            exact hrest h
        · -- the body runs into the trailer, so whatever is found lies behind the text
          rw [Nat.not_le] at hlen
          split at h
          · cases h
            simp only [List.length_append, List.length_cons] at hstop
            omega
          · have hstart := le_start_of_findFrom? h
            have hlt := (findFrom?_bounds h).1
            simp only [List.length_append, List.length_cons] at hstart hstop
            omega

theorem findFrom?_grow (ht : IsTrailer t) {skip offset : Nat}
    (h : (findFrom? skip offset s).isSome) : (findFrom? skip offset (s ++ t)).isSome := by
  induction s generalizing skip offset with
  | nil => cases h
  | cons c s ih =>
    cases skip with
    | succ skip => exact ih h
    | zero =>
      rw [findFrom?] at h
      rw [List.cons_append, findFrom?]
      split at h
      · next hr =>
        split
        · exact ih h
        · next body rest hr' =>
          split
          · rfl
          · -- the body runs into the trailer, and nothing is found without a mark
            have hlen : rest.length < t.length := by
              refine Nat.lt_of_not_le fun hlen => ?_
              obtain ⟨r, rfl⟩ :=
                exists_append_of_suffix (s := c :: s) ((steady_readBody body).suffix hr') hlen
              rw [(steady_readBody body).cut (s := c :: s) ht hr'] at hr
              cases hr
            obtain ⟨found, hfound⟩ := Option.isSome_iff_exists.1 h
            obtain ⟨w, mark, body', v, rfl, hquotes, -⟩ := findFrom?_spec hfound
            have := not_isQuote_of_readBody? hr' hlen mark (by simp)
            rw [hquotes.quote] at this
            cases this
      · next body rest hr =>
        have hr' : readBody? (c :: (s ++ t)) = some (body, rest ++ t) :=
          (steady_readBody body).append (s := c :: s) ht hr
        rw [hr']
        dsimp only
        split at h
        · rfl
        · have hskip : (s ++ t).length - (rest ++ t).length = s.length - rest.length := by
            simp only [List.length_append]
            omega
          rw [hskip]
          exact ih h

theorem kept_find : Kept Coordinate.find? where
  taken := by
    intro s found h
    obtain ⟨w, mark, body, v, rfl, hquotes, -, hstop⟩ := findFrom?_spec h
    refine ⟨w ++ mark :: body, mark, v, by simp, not_isBlank_of_isQuote hquotes.quote, ?_⟩
    simp only [hstop, List.length_append, List.length_cons, List.length_nil]
    omega
  cut ht h hstop := findFrom?_cut ht h (by omega)
  grow ht h := findFrom?_grow ht h

end Coordinate

namespace Dependency

variable {s r t : Text}

theorem skipPathLabel_eq (s : Text) : skipPathLabel s =
    (((after? "path".toList s).bind fun u => after? [':'] (trimLeft u)).map trimLeft).getD s := by
  unfold skipPathLabel
  cases after? "path".toList s with
  | none => rfl
  | some u =>
    rw [Option.map_some, Option.bind_some]
    split
    · next r e =>
      rw [Option.some.inj e]
      rfl
    · next hne =>
      cases hr : after? [':'] (trimLeft u) with
      | none => rfl
      | some r => exact absurd (congrArg some (eq_append_of_after? hr)) (hne r)

theorem skips_skipPathLabel : Skips skipPathLabel := by
  have hskip := skips_trimLeft.optional
    (h := fun s => (after? "path".toList s).bind fun u => after? [':'] (trimLeft u))
    (fun h => by
      obtain ⟨u, hu, hr⟩ := Option.bind_eq_some_iff.1 h
      exact ((suffix_of_after? hr).trans (List.dropWhile_suffix isBlank)).trans
        (suffix_of_after? hu))
    (fun ht s => by
      rw [ht.after?_append _ (by decide) (by decide)]
      cases after? "path".toList s with
      | none => rfl
      | some u => exact ht.after?_trimLeft (by decide) (by decide) (by decide) u)
  rw [funext skipPathLabel_eq]
  exact hskip

theorem steady_readReference (name : Text) :
    Steady fun s r => readReference? s = some (name, r) := by
  have hclosing : Steady fun s r => ∃ mark', isQuote mark' = true ∧
      ∃ w, after? [mark'] s = some w ∧ after? [')'] (trimLeft w) = some r :=
    Steady.exists fun mark' => Steady.and fun hmark' =>
      (steady_after _ (getLast?_any_of_isQuote hmark')).comp
        ((steady_after _ rfl).skip skips_trimLeft)
  refine ((steady_after _ rfl).comp (Steady.exists fun mark => Steady.and fun _ => ?_)).congr
    fun _ _ => readReference?_eq_some_iff
  have hbody := (steady_after [mark, ':'] rfl).comp (hclosing.span (!isQuote ·) name)
  exact (hbody.skip skips_skipPathLabel).skip skips_trimLeft

theorem scopeOf_append_trailer (ht : IsTrailer t) (s : Text) : scopeOf (s ++ t) = scopeOf s := by
  unfold scopeOf
  cases hs : trimLeft s with
  | nil =>
    rw [trimLeft_append_of_nil hs]
    rcases ht.trimLeft_cases with h | ⟨r, h⟩
    · rw [h]
    · rw [h]
      rfl
  | cons c u =>
    rw [trimLeft_append_of_cons hs]
    dsimp only
    rw [ht.takeWhile_append (by decide) (by decide)]

theorem kept_find : Kept find? := by
  have hreference := Settled.kept fun _ : Option Char => Settled.of_steady steady_readReference
  have htext {α : Type} {s t : Text} {found : Found α} (hstop : found.stop ≤ s.length) :
      found.text (s ++ t) = found.text s := by
    rw [Found.text, Found.text, List.take_append_of_le_length hstop]
  rw [show find? = _ from funext find?_eq]
  refine (Coordinate.kept_find.map fun ht hstop => ?_).or (hreference.map fun ht hstop => ?_) <;>
    rw [scopeOf_append_trailer ht, htext hstop]

end Dependency

/-! ## Properties -/

namespace Property

variable {key front s t rest : Text}

theorem Opens.plain (h : Opens key front) : ∀ x ∈ front, isQuote x = false ∧ x ≠ '/' := by
  obtain ⟨c, w, b, rfl, hc, -, hw, hb⟩ := h
  have hdotted {x : Char} (hx : isDotted x = true) : isQuote x = false ∧ x ≠ '/' := by
    refine ⟨Bool.eq_false_iff.2 fun hq => ?_, ?_⟩
    · rcases isQuote_cases hq with rfl | rfl <;> exact absurd hx (by decide)
    · rintro rfl
      exact absurd hx (by decide)
  intro x hx
  simp only [List.mem_append, List.mem_cons] at hx
  rcases hx with (rfl | hx) | rfl | hx
  · exact hdotted (by simp [isDotted, isWord_of_isIdentifierStart hc])
  · rw [← List.takeWhile_append_dropWhile (p := isDotted) (l := w)] at hx
    rcases List.mem_append.1 hx with hx | hx
    · exact hdotted (List.all_eq_true.1 List.all_takeWhile _ hx)
    · exact plain_of_isBlank (List.dropWhile_eq_nil_iff.1 hw _ hx)
  · decide
  · exact plain_of_isBlank (hb x hx)


theorem readAssignment?_append (ht : IsTrailer t) (s : Text) : readAssignment? (s ++ t) =
    (readAssignment? s).map fun a => (a.1, trimLeft (a.2 ++ t)) := by
  obtain ⟨c, r, hcons, hc⟩ := ht.exists_cons
  have hequals : c ≠ '=' := by rcases hc with rfl | rfl <;> decide
  cases s with
  | nil =>
    have hstart : isIdentifierStart c = false := by rcases hc with rfl | rfl <;> decide
    rw [List.nil_append, hcons]
    simp [readAssignment?, hstart]
  | cons a s =>
    rw [List.cons_append, readAssignment?, readAssignment?]
    split
    · rw [ht.dropWhile_append (by decide) (by decide), ht.takeWhile_append (by decide) (by decide)]
      cases hd : trimLeft (s.dropWhile isDotted) with
      | nil =>
        rw [trimLeft_append_of_nil hd]
        rcases ht.trimLeft_cases with h | ⟨u, h⟩ <;> rw [h] <;> rfl
      | cons e u =>
        rw [trimLeft_append_of_cons hd]
        by_cases he : e = '='
        · subst he
          cases u with
          | nil =>
            rw [List.nil_append, hcons]
            simp [hequals, trimLeft]
          | cons e u =>
            have htrim : trimLeft (e :: (u ++ t)) = trimLeft (trimLeft (e :: u) ++ t) :=
              (trimLeft_trimLeft_append (e :: u) t).symm
            by_cases he : e = '='
            · subst he
              rfl
            · simp [he, htrim]
        · simp [he]
    · rfl

theorem valueOf?_append (h : IsTrailerOf rest t) : valueOf? (rest ++ t) = valueOf? rest := by
  rcases h with rfl | ⟨hlf, hcomment⟩
  · have htrim : trimRight (rest ++ ['\r']) = trimRight rest :=
      trimRight_append_of_blank (by simp [isBlank]) rest
    rw [valueOf?, valueOf?, htrim]
  · obtain ⟨r, rfl⟩ := exists_comment hcomment
    obtain ⟨hcomment, hnone⟩ := commentStart_slashes hcomment
    have htrim := trimRight_append_comment rest r
    have hbefore := beforeComment_append (hcomment (trimRight r))
    have hbefore' : beforeComment (trimRight rest) = trimRight rest :=
      beforeComment_of_none (hnone _ (prefix_trimRight rest))
    have hlf' : '\n' ∉ rest ++ '/' :: '/' :: trimRight r := by
      rw [← htrim]
      exact fun hmem => hlf ((prefix_trimRight _).subset hmem)
    have hlf'' : '\n' ∉ trimRight rest := fun hmem =>
      hlf (List.mem_append_left _ ((prefix_trimRight _).subset hmem))
    unfold valueOf?
    dsimp only
    rw [htrim, if_neg hlf', if_neg hlf'', hbefore, hbefore', trimRight_trimRight]

theorem find?_append_trailer (h : IsTrailerOf s t) : find? (s ++ t) = find? s := by
  have ht := h.isTrailer
  rw [find?_eq, find?_eq]
  cases hs : trimLeft s with
  | nil =>
    rw [trimLeft_append_of_nil hs]
    rcases ht.trimLeft_cases with hr | ⟨r, hr⟩ <;> rw [hr] <;> rfl
  | cons c u =>
    have hline : s.takeWhile isBlank ++ c :: u = s := by
      rw [← hs]
      exact List.takeWhile_append_dropWhile
    rw [trimLeft_append_of_cons hs, ← List.cons_append, readAssignment?_append ht]
    cases hread : readAssignment? (c :: u) with
    | none => rfl
    | some a =>
      obtain ⟨key, rest⟩ := a
      obtain ⟨front, hfront, hopens, htrim⟩ := readAssignment?_spec hread
      rw [Option.map_some, Option.bind_some, Option.bind_some]
      have hplain : ∀ x ∈ s.takeWhile isBlank ++ front, isQuote x = false ∧ x ≠ '/' := by
        intro x hx
        rcases List.mem_append.1 hx with hx | hx
        · exact plain_of_isBlank (List.all_eq_true.1 List.all_takeWhile _ hx)
        · exact hopens.plain x hx
      have hrest : IsTrailerOf rest t := by
        refine IsTrailerOf.of_append_plain hplain ?_
        rw [List.append_assoc, ← hfront, hline]
        exact h
      dsimp only
      cases rest with
      | nil =>
        have hnone : valueOf? (trimLeft ([] ++ t)) = none := by
          rcases hrest with rfl | hcomment
          · rfl
          · obtain ⟨r, rfl⟩ := exists_comment hcomment.2
            exact valueOf?_append (Or.inr hcomment)
        rw [hnone]
        rfl
      | cons d v =>
        have hd := not_isBlank_of_trimLeft htrim
        have hfull : trimLeft (d :: v ++ t) = d :: v ++ t := trimLeft_cons_of_not_blank hd _
        have hlen₁ : (s ++ t).length - (c :: u ++ t).length = s.length - (c :: u).length := by
          simp only [List.length_append]
          omega
        have hlen₂ : (s ++ t).length - (d :: v ++ t).length = s.length - (d :: v).length := by
          simp only [List.length_append]
          omega
        rw [hfull, valueOf?_append hrest, hlen₁, hlen₂]

end Property

/-! ## Declarations and sightings -/

namespace Declaration

variable {kind : Kind} {s t : Text} {found : Found Declaration}

theorem kept_map {α : Type} {find : Text → Option (Found α)} (h : Kept find) (f : α → Declaration) :
    Kept fun line => (find line).map (·.map f) :=
  h.map (g := fun _ found => f found.value) fun _ _ => rfl

theorem kept_find (hkind : kind ≠ .property) : Kept (find? kind) := by
  cases kind with
  | property => exact absurd rfl hkind
  | dependency => exact kept_map Dependency.kept_find dependency
  | plugin => exact kept_map Plugin.kept_find plugin
  | repository => exact kept_map Repository.kept_find repository
  | task => exact kept_map Task.kept_find task

theorem find?_property_append (h : IsTrailerOf s t) :
    find? .property (s ++ t) = find? .property s := by
  rw [find?, find?, Property.find?_append_trailer h]

theorem find?_cut (h : IsTrailerOf s t) (hfound : find? kind (s ++ t) = some found)
    (hstop : found.stop ≤ s.length) : find? kind s = some found := by
  by_cases hkind : kind = .property
  · subst hkind
    rwa [find?_property_append h] at hfound
  · exact (kept_find hkind).cut h.isTrailer hfound hstop

theorem find?_none_of_append (h : IsTrailerOf s t) (hnone : find? kind (s ++ t) = none) :
    find? kind s = none := by
  by_cases hkind : kind = .property
  · subst hkind
    rwa [find?_property_append h] at hnone
  · exact (kept_find hkind).none_of_append h.isTrailer hnone

theorem find?_return (kind : Kind) (s : Text) : find? kind (s ++ ['\r']) = find? kind s := by
  by_cases hkind : kind = .property
  · subst hkind
    exact find?_property_append (Or.inl rfl)
  · exact (kept_find hkind).return_eq s

end Declaration

theorem Found.text_append {α : Type} {found : Found α} {s : Text} (hstop : found.stop ≤ s.length)
    (t : Text) : found.text (s ++ t) = found.text s := by
  rw [Found.text, Found.text, List.take_append_of_le_length hstop]

namespace Recognizer

variable {kinds : List Kind} {s t : Text} {sighting : Sighting}

theorem sight?_cut {kind : Kind} (h : IsTrailerOf s t)
    (hs : (ofKind kind).sight? (s ++ t) = some sighting) (hstop : sighting.stop ≤ s.length) :
    (ofKind kind).sight? s = some sighting := by
  obtain ⟨found, hfound, rfl⟩ := Option.map_eq_some_iff.1 hs
  have hle : found.stop ≤ s.length := Int.ofNat_le.1 hstop
  refine Option.map_eq_some_iff.2 ⟨found, Declaration.find?_cut h hfound hle, ?_⟩
  rw [Found.text_append hle]

/-- A sighting in front of a trailer is made without it. -/
theorem firstSighting?_cut (h : IsTrailerOf s t)
    (hs : firstSighting? (kinds.map ofKind) (s ++ t) = some sighting)
    (hstop : sighting.stop ≤ s.length) :
    firstSighting? (kinds.map ofKind) s = some sighting := by
  obtain ⟨before, r, after, hsplit, hr, hnone⟩ := List.findSome?_eq_some_iff.1 hs
  have hkind : ∀ r ∈ kinds.map ofKind, ∃ kind, r = ofKind kind := by
    intro r hr
    obtain ⟨kind, -, rfl⟩ := List.mem_map.1 hr
    exact ⟨kind, rfl⟩
  refine List.findSome?_eq_some_iff.2 ⟨before, r, after, hsplit, ?_, fun r' hr' => ?_⟩
  · obtain ⟨kind, rfl⟩ := hkind r (by rw [hsplit]; simp)
    exact sight?_cut h hr hstop
  · obtain ⟨kind, rfl⟩ := hkind r' (by rw [hsplit]; exact List.mem_append_left _ hr')
    have hfull := Option.map_eq_none_iff.1 (hnone _ hr')
    exact Option.map_eq_none_iff.2 (Declaration.find?_none_of_append h hfull)

theorem sight?_return (kind : Kind) (s : Text) :
    (ofKind kind).sight? (s ++ ['\r']) = (ofKind kind).sight? s := by
  show (Declaration.find? kind (s ++ ['\r'])).map _ = (Declaration.find? kind s).map _
  rw [Declaration.find?_return]
  refine Option.map_congr fun found hfound => ?_
  rw [Found.text_append (Declaration.bounds_of_find? hfound).2]

theorem firstSighting?_return (kinds : List Kind) (s : Text) :
    firstSighting? (kinds.map ofKind) (s ++ ['\r']) = firstSighting? (kinds.map ofKind) s := by
  simp only [firstSighting?, List.findSome?_map, Function.comp_def, sight?_return]

end Recognizer

end BuildScript
