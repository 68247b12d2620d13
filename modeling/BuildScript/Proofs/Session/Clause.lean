import BuildScript.Proofs.Declaration.Clause
import BuildScript.Proofs.Session.OneLine
import BuildScript.Proofs.Session.Setting
import BuildScript.Proofs.Session.Version
/-!
# A clause added where there was one

Setting the version of a plugin changes one line of the script, by as much as it changes the text
of the declaration. On a line that has the word `version` in its code at most once, this should
still hold of the line that is rendered, since a clause is for declarations that have none.

It does where the declaration has a clause of its own and where the line has no such word. But a
clause that is not quoted, or stands behind a method call, is seen neither by the reader of the
declaration nor by the search in its text, and the clause that is added then is the second.

The declaration is taken to stand in the code of its line or in its comment, with no backslash in
its texts, so that what is quoted is a literal.

Results:
* `Region.Covers.result_replay_replace`, `Region.Covers.lines_joinWith_set`: a replacement on a line
  rewrites that line, and no other.
* `setPluginVersion_cases`, `render_record_start`: what a request for the version of a plugin comes
  to, and what is rendered then.
* `clauseCount_setPluginVersion_iff`: when the word still stands on the line at most once.
-/
namespace BuildScript

open Text Plugin

namespace Index

variable {kinds : List Kind} {skipComments : Bool} {text : Text} {e : Entry} {p : Plugin}

theorem form_of_plugin
    (h : e ∈ (parse ⟨kinds.map Recognizer.ofKind, skipComments⟩ text).entries)
    (hp : e.declaration = .plugin p) : Form e.rawText p := by
  obtain ⟨q, before, rest, hq, hread⟩ :=
    exists_read_of_plugin h (show e.declaration.kind = _ by rw [hp]; rfl)
  obtain rfl : q = p := Declaration.plugin.inj (hq.symm.trans hp)
  exact hread.elim form_of_readDeclaration? form_of_readApplication?

theorem version_of_rawText
    (h : e ∈ (parse ⟨kinds.map Recognizer.ofKind, skipComments⟩ text).entries)
    (hp : e.declaration = .plugin p) {d : Versioned} (hraw : e.rawText = d.text) :
    p.version = d.version.body := by
  have hd := plugin_of_rawText h (show e.declaration.kind = _ by rw [hp]; rfl) hraw
  rw [hp, Declaration.plugin.injEq] at hd
  rw [hd]

end Index

/-! ## One line rewritten -/

namespace Region.Covers

variable {text : Text} {r : Region} {k : Nat} {u m v : Text}

/-- A script with another text in the part that a region covers is the join of its lines, that line
rewritten. -/
theorem exists_joinWith_set (h : r.Covers text k u m v) :
    ∃ w, text = terminated ((lines text).take k) ++ u ++ m ++ w ∧
      ∀ new, joinWith ['\n'] ((lines text).set k (u ++ new ++ v)) =
        terminated ((lines text).take k) ++ u ++ new ++ w := by
  have hset : ∀ line, (lines text).set k line =
      (lines text).take k ++ [line] ++ (lines text).drop (k + 1) := by
    intro line
    rw [List.set_eq_take_append_cons_drop, if_pos h.lt, List.append_assoc]
    rfl
  have hsame : (lines text).set k (u ++ m ++ v) = lines text := by
    obtain ⟨hk, hline⟩ := List.getElem?_eq_some_iff.1 h.line
    rw [← hline, List.set_getElem_self]
  obtain ⟨w, hw⟩ : ∃ w, ∀ new, joinWith ['\n'] ((lines text).set k (u ++ new ++ v)) =
      terminated ((lines text).take k) ++ u ++ new ++ w := by
    by_cases hlast : (lines text).drop (k + 1) = []
    · refine ⟨v, fun new => ?_⟩
      rw [hset, hlast, List.append_nil, joinWith_concat]
      simp only [List.append_assoc]
    · refine ⟨v ++ '\n' :: joinWith ['\n'] ((lines text).drop (k + 1)), fun new => ?_⟩
      rw [hset, joinWith_append _ hlast, terminated_append, terminated_cons, terminated_nil]
      simp only [List.append_assoc, List.cons_append, List.nil_append]
  exact ⟨w, by rw [← hw m, hsame, joinWith_lines], hw⟩

/-- A replacement of the part that a region covers rewrites one line. -/
theorem result_replay_replace (h : r.Covers text k u m v) (new description : Text) :
    (replay text [⟨.replace, r, m, new, description⟩]).result =
      .ok (joinWith ['\n'] ((lines text).set k (u ++ new ++ v))) := by
  obtain ⟨w, htext, hset⟩ := h.exists_joinWith_set
  have hlength := h.length_front
  rw [hset]
  refine result_replay_single htext ?_ ?_
  · rw [hlength]
    exact h.start_eq
  · rw [hlength]
    exact h.stop_eq

theorem lines_joinWith_set (h : r.Covers text k u m v) {new : Text} (hnew : '\n' ∉ new) :
    lines (joinWith ['\n'] ((lines text).set k (u ++ new ++ v))) =
      (lines text).set k (u ++ new ++ v) := by
  refine lines_joinWith (fun hnil => lines_ne_nil text ?_) fun l hl => ?_
  · exact (List.set_eq_nil_iff _ _).1 hnil
  · rcases List.mem_or_eq_of_mem_set hl with hmem | rfl
    · exact not_mem_of_mem_lines hmem
    · have hline := not_mem_of_mem_lines (List.mem_of_getElem? h.line)
      simp only [List.mem_append, not_or] at hline ⊢
      exact ⟨⟨hline.1.1, hnew⟩, hline.2⟩

end Region.Covers

namespace Session

variable {base : Index} {i : Nat} {e : Entry} {p : Plugin} {value : Text}

/-- What a request for the version of the first plugin of its name comes to in a session without
changes. -/
theorem setPluginVersion_cases (he : base.entries[i]? = some e)
    (hp : e.declaration = .plugin p)
    (hfirst : ∀ j < i, ∀ e' p', base.entries[j]? = some e' → e'.declaration = .plugin p' →
      p'.id ≠ p.id) (editor : EditorOptions)
    (h : ((start base editor).setPluginVersion p.id value).fault = none) :
    (p.version = value ∧
      (start base editor).setPluginVersion p.id value = { session := start base editor }) ∨
    ∃ new description, p.version ≠ value ∧ setVersion? e.rawText value = some new ∧
      ((start base editor).setPluginVersion p.id value).session =
        (start base editor).record i e (.plugin { p with version := value }) new description := by
  rw [setPluginVersion, select?_plugin_start he hp hfirst] at h ⊢
  dsimp only at h ⊢
  split at h
  · next hsame => exact .inl ⟨hsame, if_pos hsame⟩
  · next hne =>
    rw [if_neg hne]
    cases hset : setVersion? e.rawText value with
    | none =>
      rw [hset] at h
      cases h
    | some new => exact .inr ⟨new, _, hne, rfl, rfl⟩

/-- Another text recorded for an entry of a script as it was parsed rewrites its line. -/
theorem render_record_start {text : Text} {k : Nat} {u v : Text} (htext : base.text = text)
    (he : base.entries[i]? = some e) (hcovers : e.region.Covers text k u e.rawText v)
    (editor : EditorOptions) (d : Declaration) (new description : Text) :
    ((start base editor).record i e d new description).render.result =
      .ok (joinWith ['\n'] ((lines text).set k (u ++ new ++ v))) := by
  subst htext
  obtain ⟨_, hchanges⟩ := ((Shows.start he editor).record he d new description).changes
  rw [render, edits, hchanges]
  split
  · next hsame =>
    obtain ⟨w, htext, hset⟩ := hcovers.exists_joinWith_set
    rw [hsame, hset, ← htext]
    rfl
  · exact hcovers.result_replay_replace new _

/-- A plugin in the code of its line or in the comment, the first of its name, in a session without
changes, on a line with the word `version` in its code at most once. If another version is accepted
for it, the script is rendered with this line rewritten, and the line still has the word at most
once just when the plugin stands in the comment, or the word was not in the code at all, or the
plugin has a quoted version clause; if that is overlooked for the name, the new version must not
hold the word twice. -/
theorem clauseCount_setPluginVersion_iff (kinds : List Kind) (enabled : Option (List Kind))
    (skipComments : Bool) (editor : EditorOptions) (text : Text) {i : Nat} {e : Entry} {p : Plugin}
    (he : (Index.parse (.builtIn kinds enabled skipComments) text).entries[i]? = some e)
    (hp : e.declaration = .plugin p)
    (hfirst : ∀ j < i, ∀ e' p', (Index.parse (.builtIn kinds enabled skipComments)
      text).entries[j]? = some e' → e'.declaration = .plugin p' → p'.id ≠ p.id)
    {k : Nat} {front back : Text} (hcovers : e.region.Covers text k front e.rawText back)
    (hplace : EndsInCode front ∨ (commentStart front).isSome = true)
    (honce : clauseCount (front ++ e.rawText ++ back) ≤ 1)
    {value : Text} (hne : value ≠ []) (hvalue : ∀ c ∈ value, isQuote c = false ∧ c ≠ '\n')
    (hplain : ∀ t ∈ [p.id, p.version, value], '\\' ∉ t) :
    let base := start (Index.parse (.builtIn kinds enabled skipComments) text) editor
    let request := Request.setPluginVersion p.id value
    (base.attempt request).fault = none →
    ∃ line new, (base.after request).render.result = .ok new ∧
      lines new = (lines text).set k line ∧
      (clauseCount line ≤ 1 ↔ (commentStart front).isSome = true ∨
        clauseCount (front ++ e.rawText ++ back) = 0 ∨
        ∃ d : Versioned, e.rawText = d.text ∧
          (d.Mistaken → value = d.version.body ∨ clauseCount value ≤ 1)) := by
  obtain ⟨used, hused⟩ := ParseOptions.exists_builtIn_eq kinds enabled skipComments
  rw [hused] at he hfirst ⊢
  intro base request haccepted
  have hmem := List.mem_of_getElem? he
  rcases setPluginVersion_cases he hp hfirst editor haccepted with
    ⟨hsame, hafter⟩ | ⟨new, description, hother, hset, hafter⟩
  · -- nothing is recorded, which needs a version of the plugin
    refine ⟨front ++ e.rawText ++ back, text, ?_, ?_, iff_of_true honce ?_⟩
    · rw [after, show base.attempt request = _ from hafter]
      rfl
    · obtain ⟨hk, hline⟩ := List.getElem?_eq_some_iff.1 hcovers.line
      rw [← hline, List.set_getElem_self]
    · obtain ⟨d, hd⟩ := Index.exists_versioned_of_version hmem hp (hsame ▸ hne)
      have hbody := Index.version_of_rawText hmem hp hd
      exact .inr (.inr ⟨d, hd, fun _ => .inl (hsame.symm.trans hbody)⟩)
  · have hline := not_mem_of_mem_lines (List.mem_of_getElem? hcovers.line)
    simp only [List.mem_append, not_or] at hline
    have hnew : '\n' ∉ new :=
      not_mem_setVersion? hset hline.1.2 fun hlf => (hvalue _ hlf).2 rfl
    refine ⟨front ++ new ++ back, _, ?_, hcovers.lines_joinWith_set hnew, ?_⟩
    · rw [after, show (base.attempt request).session = _ from hafter]
      exact render_record_start rfl he hcovers editor _ new description
    · rcases hplace with hcode | hcomment
      · -- the version is another one, so the clause is not as it was
        have hbody : ∀ d : Versioned, e.rawText = d.text → value ≠ d.version.body :=
          fun d hd hsame => hother ((Index.version_of_rawText hmem hp hd).trans hsame.symm)
        have hform := Index.form_of_plugin hmem hp
        rw [clauseCount_setVersion?_iff hform hset hcode hline.1.1 (fun c hc => (hvalue c hc).1)
          hplain honce, hcode.commentStart_eq_none]
        constructor
        · rintro (hzero | ⟨d, hd, hcount⟩)
          · exact .inr (.inl hzero)
          · exact .inr (.inr ⟨d, hd, fun hmistaken => .inr (hcount hmistaken)⟩)
        · rintro (hsome | hzero | ⟨d, hd, hcount⟩)
          · cases hsome
          · exact .inl hzero
          · exact .inr ⟨d, hd, fun hmistaken => (hcount hmistaken).resolve_left (hbody d hd)⟩
      · -- nothing behind the beginning of the comment is code
        refine iff_of_true ?_ (.inl hcomment)
        rw [List.append_assoc, clauseCount_append_of_isSome hcomment] at honce ⊢
        exact honce

/-- A script with a method call behind the version clause of a plugin. -/
def clausedScript : Text := "plugins \x7b\n  id 'com.acme' version '1.0' apply false\n\x7d".toList

/-- The version goes into the clause. -/
theorem clauseCount_clausedScript :
    let base := Index.parse (.builtIn Kind.all none true) clausedScript
    let request := Request.setPluginVersion "com.acme".toList "2.0".toList
    ∃ e, base.entries[0]? = some e ∧
      e.declaration = .plugin ⟨"com.acme".toList, "1.0".toList, true⟩ ∧
      e.region.Covers clausedScript 1 "  ".toList e.rawText " apply false".toList ∧
      EndsInCode "  ".toList ∧ clauseCount ("  ".toList ++ e.rawText ++ " apply false".toList) ≤ 1 ∧
      ((start base {}).attempt request).fault = none ∧
      ∃ line new, ((start base {}).after request).render.result = .ok new ∧
        lines new = (lines clausedScript).set 1 line ∧ clauseCount line ≤ 1 := by
  intro base request
  obtain ⟨e, he, hp, hraw, hcovers⟩ : ∃ e, base.entries[0]? = some e ∧
      e.declaration = .plugin ⟨"com.acme".toList, "1.0".toList, true⟩ ∧
      e.rawText = "id 'com.acme' version '1.0'".toList ∧
      e.region.Covers clausedScript 1 "  ".toList e.rawText " apply false".toList :=
    ⟨_, rfl, rfl, rfl, rfl, rfl⟩
  have hfront : EndsInCode "  ".toList := by decide
  have honce : clauseCount ("  ".toList ++ e.rawText ++ " apply false".toList) ≤ 1 := by
    rw [hraw]
    decide
  have hvalue : ∀ c ∈ "2.0".toList, isQuote c = false ∧ c ≠ '\n' := fun c hc =>
    ⟨isQuote_eq_false_of_any rfl c hc, ne_of_mem_of_not_mem hc (by decide)⟩
  have haccepted : ((start base {}).attempt request).fault = none := rfl
  obtain ⟨line, new, hrender, hlines, hiff⟩ :=
    clauseCount_setPluginVersion_iff Kind.all none true {}
    clausedScript he hp (fun j hj => absurd hj (Nat.not_lt_zero j)) hcovers (.inl hfront) honce
    (by decide) hvalue (by decide) haccepted
  have hversion : "1.0".toList ≠ [] := by decide
  obtain ⟨d, hd⟩ := Index.exists_versioned_of_version (List.mem_of_getElem? he) hp hversion
  exact ⟨e, he, hp, hcovers, hfront, honce, haccepted, line, new, hrender, hlines,
    hiff.2 (.inr (.inr ⟨d, hd, fun _ => .inr (by decide)⟩))⟩

/-- A script in which the version of a plugin is a variable. -/
def variableScript : Text := "plugins \x7b\n  id 'com.acme' version acmeVersion\n\x7d".toList

/-- The clause that is added is the second on its line. -/
theorem clauseCount_variableScript :
    let base := Index.parse (.builtIn Kind.all none true) variableScript
    let request := Request.setPluginVersion "com.acme".toList "2.0".toList
    ∃ e new, base.entries[0]? = some e ∧
      e.declaration = .plugin ⟨"com.acme".toList, [], true⟩ ∧
      clauseCount "  id 'com.acme' version acmeVersion".toList = 1 ∧
      ((start base {}).attempt request).fault = none ∧
      ((start base {}).after request).render.result = .ok new ∧
      lines new = (lines variableScript).set 1
        "  id 'com.acme' version '2.0' version acmeVersion".toList ∧
      clauseCount "  id 'com.acme' version '2.0' version acmeVersion".toList = 2 :=
  ⟨_, _, rfl, rfl, by decide, rfl, rfl, by decide, by decide⟩

end Session

end BuildScript
