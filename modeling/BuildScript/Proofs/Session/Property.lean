import BuildScript.Proofs.Declaration.Assignment
import BuildScript.Proofs.Session.Refusal
import BuildScript.Proofs.Session.Setting
/-!
# Setting a property twice

When a property is set, the clause is cut where the trimmed old value would begin if it ended the
clause, and the new value is written there, between the marks of the old one if that is a literal.
The second of two values is therefore written as if the first had never been there, provided the
first stands in the clause as the parsed value did: as a literal if that was one and bare if it was,
and without blanks at its ends. Otherwise the first one shows through. A value with a blank behind
it moves the place where the next one is written, and a bare value that is quoted itself hands its
marks on.

Results:
* `Index.first_of_findProperty?`, `Index.clause_of_property`: the property that a key finds, and the
  clause that it was read from.
* `Shows.setProperty`: what setting a property does.
* `setProperty_twice_iff`: when the second of two values leaves nothing of the first.
* `setProperty_twice_bareScript`: a first value with a blank behind it.
-/
namespace BuildScript

open Text

/-! ## The clause of a property -/

namespace Index

/-- A property that a key finds is the first with that key. -/
theorem first_of_findProperty? {index : Index} {key : Text} {e : Entry}
    (h : index.findProperty? key = some e) : ∃ (i : Nat) (p : Property),
      index.entries[i]? = some e ∧ e.declaration = .property p ∧ p.key = key ∧
      ∀ j < i, ∀ (e' : Entry) (p' : Property), index.entries[j]? = some e' →
        e'.declaration = .property p' → p'.key ≠ key := by
  obtain ⟨hkey, i, hi, rfl, hfirst⟩ := List.find?_eq_some_iff_getElem.1 h
  obtain ⟨p, hp, hkey⟩ := (Option.any_eq_true _ _).1 hkey
  refine ⟨i, p, List.getElem?_eq_getElem hi, Declaration.eq_of_property? hp,
    of_decide_eq_true hkey, fun j hj e' p' he' hp' hkey' => ?_⟩
  obtain ⟨hj', rfl⟩ := List.getElem?_eq_some_iff.1 he'
  have hother := hfirst j hj
  rw [hp'] at hother
  simp [Declaration.property?, hkey'] at hother

theorem clause_of_property {kinds : List Kind} {skipComments : Bool} {text : Text} {e : Entry}
    {p : Property} (h : e ∈ (parse ⟨kinds.map Recognizer.ofKind, skipComments⟩ text).entries)
    (hp : e.declaration = .property p) : ∃ front value, e.rawText = front ++ value ∧
      Property.Opens p.key front ∧ trim value = value ∧ p.value = Property.unquote value := by
  obtain ⟨found, u, v, -, hfind, hd, hstart, hstop⟩ := exists_find?_of_mem_parse h
  rw [Entry.kind, hp] at hfind
  obtain ⟨a, ha, rfl⟩ := Option.map_eq_some_iff.1 hfind
  obtain rfl : p = a.value := Declaration.property.inj (hp.symm.trans hd)
  obtain ⟨u', front, value, v', hline, hframes, -, htrim, hfound⟩ := Property.find?_spec ha
  have hu : u.length = u'.length := hstart.symm.trans (by rw [hfound]; rfl)
  have huraw : (u ++ e.rawText).length = (u' ++ front ++ value).length :=
    hstop.symm.trans (by rw [hfound]; rfl)
  obtain ⟨hcut, -⟩ := List.append_inj hline huraw
  rw [List.append_assoc] at hcut
  exact ⟨front, value, (List.append_inj hcut hu).2, hframes.opens, htrim, by rw [hfound]⟩

end Index

/-! ## Setting the value -/

namespace Session

/-- Setting a property gives it the value and writes it, unless it has the value. -/
theorem Shows.setProperty {base : Index} {i : Nat} {e : Entry} {p : Property} {raw : Text}
    {s : Session} (h : Shows base i e (.property p) raw s) (he : base.entries[i]? = some e)
    (hfirst : ∀ j < i, ∀ e' p', base.entries[j]? = some e' → e'.declaration = .property p' →
      p'.key ≠ p.key) (value : Text) :
    (s.attempt (.setProperty p.key value)).fault = none ∧
      Shows base i e (.property { p with value })
        (if p.value = value then raw else Property.setValue raw value)
        (s.after (.setProperty p.key value)) := by
  have hread : (Declaration.property p).property?.filter (·.key = p.key) = some p := by
    simp [Declaration.property?]
  have hnone : ∀ j < i, ∀ e', base.entries[j]? = some e' →
      e'.declaration.property?.filter (·.key = p.key) = none := by
    intro j hj e' he'
    cases hd : e'.declaration with
    | property p' => simp [Declaration.property?, hfirst j hj e' p' he' hd]
    | _ => rfl
  have hsel : s.select? (fun d => d.property?.filter (·.key = p.key)) =
      some ({ e with declaration := .property p, rawText := raw }, p, i) :=
    h.select? he hread hnone
  have hattempt : s.attempt (.setProperty p.key value) = s.setProperty p.key value := rfl
  rw [after, hattempt, Session.setProperty, hsel]
  dsimp only
  split
  · next hsame =>
    subst hsame
    exact ⟨rfl, h⟩
  · exact ⟨rfl, h.record he _ _ _⟩

/-- Two values set one after the other for a property that a key finds, in a session without
changes. Both are accepted, and the first leaves no trace behind the second just when it changes
nothing, when the second is no other, or when it is written as the parsed value was. -/
theorem setProperty_twice_iff (kinds : List Kind) (enabled : Option (List Kind))
    (skipComments : Bool) (editor : EditorOptions) (text key first second : Text) {e : Entry}
    (hkey : (Index.parse (.builtIn kinds enabled skipComments) text).findProperty? key = some e) :
    let base := start (Index.parse (.builtIn kinds enabled skipComments) text) editor
    let twice := [Request.setProperty key first, .setProperty key second]
    let once := [Request.setProperty key second]
    (∀ a ∈ base.attempts twice ++ base.attempts once, a.fault = none) ∧
    ((base.afterAll twice).index = (base.afterAll once).index ∧
      (base.afterAll twice).edits.map Edit.bare = (base.afterAll once).edits.map Edit.bare ↔
        e.declaration = .property ⟨key, first⟩ ∨ second = first ∨
          Property.keepsClause e.rawText first = true) := by
  obtain ⟨used, hused⟩ := ParseOptions.exists_builtIn_eq kinds enabled skipComments
  rw [hused] at hkey ⊢
  intro base twice once
  obtain ⟨i, p, he, hp, rfl, hfirst⟩ := Index.first_of_findProperty? hkey
  obtain ⟨front, value, hraw, hopens, htrim, hvalue⟩ :=
    Index.clause_of_property (List.mem_of_getElem? he) hp
  have hstart : Shows _ i e (.property p) e.rawText base := hp ▸ Shows.start he editor
  obtain ⟨hfault, hshows⟩ := hstart.setProperty he hfirst first
  obtain ⟨hfault', htwice⟩ := hshows.setProperty (p := { p with value := first }) he hfirst second
  obtain ⟨hfault'', honce⟩ := hstart.setProperty he hfirst second
  refine ⟨?_, ?_⟩
  · simp only [twice, once, attempts, List.cons_append, List.nil_append, List.forall_mem_cons]
    exact ⟨hfault, hfault', hfault'', fun a ha => absurd ha List.not_mem_nil⟩
  -- setting the value that is there is no request, yet it would write the same clause
  have hsame : Property.setValue e.rawText p.value = e.rawText := by
    rw [hraw, hopens.setValue_trimmed htrim, hvalue, Property.rewritten_unquote]
  have hwritten (new : Text) : (if p.value = new then e.rawText else
      Property.setValue e.rawText new) = Property.setValue e.rawText new := by
    split
    · next h => rw [← h, hsame]
    · rfl
  rw [hwritten] at honce htwice
  have hdeclared : e.declaration = .property ⟨p.key, first⟩ ↔ p.value = first := by
    rw [hp, Declaration.property.injEq]
    exact ⟨fun h => congrArg Property.value h, fun h => h ▸ rfl⟩
  rw [hdeclared]
  refine (htwice.agree_iff honce he).trans ?_
  dsimp only
  by_cases hsecond : first = second
  · rw [if_pos hsecond, hsecond]
    exact iff_of_true rfl (Or.inr (Or.inl rfl))
  · rw [if_neg hsecond, or_iff_right (Ne.symm hsecond)]
    by_cases hkept : p.value = first
    · rw [← hkept, hsame]
      exact iff_of_true rfl (Or.inl rfl)
    · rw [or_iff_right hkept, hraw]
      exact hopens.setValue_setValue_iff htrim first second

/-- A script with a quoted value. -/
def quotedScript : Text := "version = '1' // first".toList

/-- There a value leaves nothing behind once another one is set. -/
theorem setProperty_twice_quotedScript :
    let index := Index.parse (.builtIn Kind.all none true) quotedScript
    let base := start index {}
    let twice := base.afterAll
      [.setProperty "version".toList "2 ".toList, .setProperty "version".toList "3".toList]
    let once := base.afterAll [.setProperty "version".toList "3".toList]
    ∃ e, index.findProperty? "version".toList = some e ∧
      Property.keepsClause e.rawText "2 ".toList = true ∧
      twice.index = once.index ∧ twice.edits.map Edit.bare = once.edits.map Edit.bare := by
  intro index base twice once
  obtain ⟨e, hkey, hkeeps⟩ : ∃ e, index.findProperty? "version".toList = some e ∧
      Property.keepsClause e.rawText "2 ".toList = true := ⟨_, rfl, rfl⟩
  have h := setProperty_twice_iff Kind.all none true {} quotedScript "version".toList "2 ".toList
    "3".toList hkey
  exact ⟨e, hkey, hkeeps, h.2.2 (Or.inr (Or.inr hkeeps))⟩

/-- A script with a bare value. -/
def bareScript : Text := "version = x".toList

/-- There the next value is written behind the digit of a value that ends with a blank. -/
theorem setProperty_twice_bareScript :
    let index := Index.parse (.builtIn Kind.all none true) bareScript
    let base := start index {}
    let twice := base.afterAll
      [.setProperty "version".toList "1 ".toList, .setProperty "version".toList "2".toList]
    let once := base.afterAll [.setProperty "version".toList "2".toList]
    ∃ e, index.findProperty? "version".toList = some e ∧
      twice.edits.map Edit.bare =
        [⟨.replace, e.region, bareScript, "version = 12".toList, []⟩] ∧
      once.edits.map Edit.bare =
        [⟨.replace, e.region, bareScript, "version = 2".toList, []⟩] :=
  ⟨_, rfl, rfl, rfl⟩

end Session

end BuildScript
