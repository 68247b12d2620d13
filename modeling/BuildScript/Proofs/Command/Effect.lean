import BuildScript.Command.Arguments
import BuildScript.Command.Run
import BuildScript.Proofs.Files.Write
import BuildScript.Proofs.Session.Once
/-!
# What a command does to the files

A command that changes a script comes to a point where its request has been carried out and only the
result is left to be shown or written. `Draft` is what it has in hand there, and `drafted?` says
whether it gets there: the arguments may not fit, the settings may not load, the script may not be
there or not be a text, and the request may be refused. From a draft on nothing is refused but the
writing itself.

**Hosts.** How the arguments are read and what makes settings is up to the host, so what is proved
here is proved for every host.

**Frame.** Only a draft that holds edits and is to be written changes a file, and then the script is
the only one that changes.

Results:
* `execute_cases`: a command that changes a script finishes a draft or writes nothing.
* `accepted_after_start`: a draft passes its review and can be made.
* `effect_runArguments`: what a command leaves behind.
-/
namespace BuildScript

namespace Command

/-- A change to a script when it only remains to show or write it. -/
structure Draft where
  path : Path
  write : Bool
  /-- The text of the script as it was read. -/
  script : Text
  /-- The session behind the request. -/
  session : Session

section
variable (host : Host)

/-- The settings that a command works with, unless they cannot be used. -/
def settings? (config : Except FileFault (Option ByteArray)) : Option Settings := do
  let settings ← (host.load (← config.toOption)).toOption
  let _ ← settings.levelNumber.toOption
  return settings

/-- The draft that a request leads to, given the contents of the two files. -/
def draft? (config : Except FileFault (Option ByteArray)) (script : Except FileFault (Option Text))
    (path : Path) (request : Request) (write : Bool) : Option Draft := do
  let settings ← settings? host config
  let text ← (← script.toOption)
  let attempt :=
    (Session.start (Index.parse settings.parser.options text) settings.editor).attempt request
  if attempt.fault.isSome then none else some ⟨path, write, text, attempt.session⟩

/-- The draft that the arguments of the command line lead to. -/
def drafted? (files : FileTree) (args : List Text) : Option Draft :=
  match host.arguments args with
  | .invocation invocation =>
    match invocation.call.action? with
    | some (.change request write) =>
      draft? host (configOf files invocation) (scriptOf files invocation)
        (.ofText invocation.file) request write
    | _ => none
  | .ended _ _ => none

end

/-- Neither of the two faults that are looked for once a request has been carried out is there. -/
structure Draft.Accepted (d : Draft) : Prop where
  text : d.session.index.text = d.script
  review : Edit.review d.session.index.text d.session.edits = []
  rendered : ∃ new, d.session.render.result = .ok new

/-- What a command leaves behind, given the draft that it came to, if it came to one. -/
structure Effect (host : Host) (files : FileTree) (draft : Option Draft) (outcome : Outcome) :
    Prop where
  finished : ∀ d ∈ draft, outcome = commit files d.path (finish host d.path d.write d.session)
  accepted : ∀ d ∈ draft, d.Accepted
  unchanged : (∀ d ∈ draft, d.write = true → outcome.result.exitCode = 0 → d.session.edits = []) →
    outcome.files = files
  changed : ∀ d ∈ draft, d.write = true → outcome.result.exitCode = 0 → d.session.edits ≠ [] →
    ∃ names content new, files.place d.path = .file names content ∧
      (String.fromUTF8? content).map String.toList = some d.script ∧
      (replay d.script d.session.edits).result = .ok new ∧
      ∀ other, outcome.files.lookup other =
        if other = names then some (String.ofList new).toUTF8 else files.lookup other

variable {host : Host} {files : FileTree} {path : Path}

/-! ## Drafts -/

theorem withSettings_cases (host : Host) (config : Except FileFault (Option ByteArray))
    (next : Settings → Result) :
    (∃ settings, settings? host config = some settings ∧
      withSettings host config next = next settings) ∨
      settings? host config = none ∧ (withSettings host config next).written = none := by
  cases config with
  | error fault => exact .inr ⟨rfl, rfl⟩
  | ok content =>
    cases hload : host.load content with
    | error fault =>
      refine .inr ⟨by simp [settings?, hload, Except.toOption], ?_⟩
      simp only [withSettings, hload]
      split <;> rfl
    | ok settings =>
      cases hlevel : settings.levelNumber with
      | error fault =>
        refine .inr ⟨by simp [settings?, hload, hlevel, Except.toOption], ?_⟩
        simp only [withSettings, hload, hlevel]
        rfl
      | ok level =>
        refine .inl ⟨settings, by simp [settings?, hload, hlevel, Except.toOption], ?_⟩
        simp only [withSettings, hload, hlevel]

/-- What is pending behind one request passes a review and can be made. -/
theorem accepted_after_start (path : Path) (write : Bool) (options : ParseOptions)
    (editor : EditorOptions) (script : Text) (request : Request) :
    Draft.Accepted ⟨path, write, script,
      (Session.start (Index.parse options script) editor).after request⟩ := by
  have hcoherent := Session.coherent_step
    (Session.coherent_start (Index.parse options script) editor) (Session.step_after _ request)
  exact ⟨hcoherent.text, hcoherent.review,
    Session.result_render_after_start options editor script request⟩

/-- A command that changes a script finishes a draft or writes nothing. -/
theorem execute_cases (host : Host) (config : Except FileFault (Option ByteArray))
    (script : Except FileFault (Option Text)) (path : Path) (request : Request) (write : Bool) :
    (∃ d, draft? host config script path request write = some d ∧ d.path = path ∧ d.Accepted ∧
      script = .ok (some d.script) ∧
      execute host config script path (.change request write) =
        finish host d.path d.write d.session) ∨
    draft? host config script path request write = none ∧
      (execute host config script path (.change request write)).written = none := by
  rw [execute, draft?]
  rcases withSettings_cases host config _ with ⟨settings, hsettings, hnext⟩ | ⟨hsettings, hwritten⟩
  · rw [hnext, hsettings]
    cases script with
    | error fault => exact .inr ⟨rfl, rfl⟩
    | ok found =>
      cases found with
      | none => exact .inr ⟨rfl, rfl⟩
      | some text =>
        have haccepted := accepted_after_start path write settings.parser.options settings.editor
          text request
        simp only [change, Except.toOption]
        cases hfault : ((Session.start (Index.parse settings.parser.options text)
          settings.editor).attempt request).fault with
        | some fault => exact .inr ⟨by simp [hfault], rfl⟩
        | none => exact .inl ⟨_, by simp [hfault]; rfl, rfl, haccepted, rfl, rfl⟩
  · refine .inr ⟨?_, hwritten⟩
    rw [hsettings]
    rfl

/-! ## Finishing -/

/-- A draft that is finished is a success, and written if it is to be and holds edits. -/
theorem finish_of_accepted (host : Host) {d : Draft} (h : d.Accepted) {new : Text}
    (hnew : d.session.render.result = .ok new) :
    (finish host d.path d.write d.session).exitCode = 0 ∧
      (finish host d.path d.write d.session).written =
        if d.write = true ∧ d.session.edits ≠ [] then some new else none := by
  unfold finish
  by_cases hedits : d.session.edits = []
  · rw [if_pos hedits, if_neg fun hboth => hboth.2 hedits]
    exact ⟨rfl, rfl⟩
  · rw [if_neg hedits, h.review]
    dsimp only
    rw [hnew]
    cases d.write <;> simp [hedits, Result.printing]

theorem commit_of_not_written {result : Result} (h : result.written = none) :
    commit files path result = ⟨result, files⟩ := by
  rw [commit, h]

/-- Writing succeeds and puts the text in the place of the file, or it fails and changes nothing. -/
theorem commit_of_written {result : Result} {new : Text} (h : result.written = some new)
    {names : List Text} {content : ByteArray} (hplace : files.place path = .file names content) :
    commit files path result = ⟨result, files.put names (String.ofList new).toUTF8⟩ ∨
      ∃ fault, commit files path result = ⟨.failing (.file fault), files⟩ := by
  rw [commit, h]
  dsimp only
  cases hwritten : files.writeText path new with
  | ok later => exact .inl (by rw [FileTree.writeText_of_place hplace hwritten])
  | error fault => exact .inr ⟨fault, rfl⟩

theorem eq_ok_of_readPresent {α : Type} {read : Path → Except FileFault α} {content : α}
    (h : readPresent files path read = .ok (some content)) : read path = .ok content := by
  rw [readPresent] at h
  cases hpresent : files.isPresent path with
  | error fault =>
    rw [hpresent] at h
    cases h
  | ok present =>
    rw [hpresent] at h
    cases present with
    | false => cases h
    | true =>
      cases hread : read path with
      | error fault =>
        rw [hread] at h
        cases h
      | ok found =>
        rw [hread] at h
        cases h
        rfl

theorem place_of_readBytes {content : ByteArray} (h : files.readBytes path = .ok content) :
    ∃ names, files.place path = .file names content := by
  unfold FileTree.readBytes at h
  split at h
  · cases h
  · split at h
    · next names found hplace =>
      cases h
      exact ⟨names, hplace⟩
    all_goals cases h

theorem place_of_readText {text : Text} (h : files.readText path = .ok text) :
    ∃ names content, files.place path = .file names content ∧
      (String.fromUTF8? content).map String.toList = some text := by
  rw [FileTree.readText] at h
  cases hbytes : files.readBytes path with
  | error fault =>
    rw [hbytes] at h
    cases h
  | ok content =>
    rw [hbytes, Except.bind, FileTree.decodeText] at h
    obtain ⟨names, hplace⟩ := place_of_readBytes hbytes
    refine ⟨names, content, hplace, ?_⟩
    split at h
    · next s hdecoded =>
      cases h
      rw [hdecoded]
      rfl
    · cases h

/-- Finishing a draft changes the script, if it is to be written and holds edits, or nothing. -/
theorem effect_of_accepted {d : Draft} (h : d.Accepted)
    (hread : readPresent files d.path files.readText = .ok (some d.script)) :
    Effect host files (some d) (commit files d.path (finish host d.path d.write d.session)) := by
  obtain ⟨new, hnew⟩ := h.rendered
  obtain ⟨hexit, hwritten⟩ := finish_of_accepted host h hnew
  obtain ⟨names, content, hplace, hdecoded⟩ := place_of_readText (eq_ok_of_readPresent hread)
  refine ⟨?_, ?_, fun hunless => ?_, ?_⟩
  · rintro _ ⟨⟩
    rfl
  · rintro _ ⟨⟩
    exact h
  · by_cases hwrites : d.write = true ∧ d.session.edits ≠ []
    · rw [if_pos hwrites] at hwritten
      rcases commit_of_written hwritten hplace with hcommit | ⟨fault, hcommit⟩
      · -- the writing was a success, which is ruled out unless there is nothing to write
        exact absurd (hunless d rfl hwrites.1 (by rw [hcommit, hexit])) hwrites.2
      · rw [hcommit]
    · rw [if_neg hwrites] at hwritten
      rw [commit_of_not_written hwritten]
  · rintro _ ⟨⟩ hwrite hcode hedits
    rw [if_pos ⟨hwrite, hedits⟩] at hwritten
    rcases commit_of_written hwritten hplace with hcommit | ⟨fault, hcommit⟩
    · refine ⟨names, content, new, hplace, hdecoded, ?_, fun other => ?_⟩
      · rw [← h.text]
        exact hnew
      · rw [hcommit, FileTree.lookup_put_eq]
    · rw [hcommit] at hcode
      cases hcode

theorem effect_none {outcome : Outcome} (h : outcome.files = files) :
    Effect host files none outcome := by
  refine ⟨?_, ?_, fun _ => h, ?_⟩ <;> exact fun d hd => absurd hd (Option.not_mem_none d)

theorem effect_run_change (host : Host) (files : FileTree) {invocation : Invocation}
    {request : Request} {write : Bool}
    (haction : invocation.call.action? = some (.change request write)) :
    Effect host files (draft? host (configOf files invocation) (scriptOf files invocation)
      (.ofText invocation.file) request write) (run host files invocation) := by
  rw [run, answer, haction]
  dsimp only
  rcases execute_cases host (configOf files invocation) (scriptOf files invocation)
    (.ofText invocation.file) request write with
    ⟨d, hdraft, hpath, haccepted, hscript, hexecute⟩ | ⟨hdraft, hwritten⟩
  · rw [scriptOf, ← hpath] at hscript
    rw [hdraft, hexecute, ← hpath]
    exact effect_of_accepted haccepted hscript
  · rw [hdraft]
    exact effect_none (by rw [commit_of_not_written hwritten])

/-- What a command leaves behind, whatever the host, the arguments and the files: the files as they
were, or the new text of the script in the place of the one that was read. -/
theorem effect_runArguments (host : Host) (files : FileTree) (args : List Text) :
    Effect host files (drafted? host files args) (runArguments host files args) := by
  rw [drafted?, runArguments]
  cases host.arguments args with
  | ended exitCode output => exact effect_none rfl
  | invocation invocation =>
    dsimp only
    cases haction : invocation.call.action? with
    | none =>
      rw [run, answer, haction]
      exact effect_none rfl
    | some action =>
      cases action with
      | list asJson =>
        rw [run, answer, haction]
        exact effect_none (congrArg Outcome.files
          (commit_of_not_written (written_execute_list host _ _ _ asJson)))
      | change request write => exact effect_run_change host files haction

/-- A property set in a script with a carriage return at the end of its line. -/
example :
    (runArguments standardHost
      ⟨[(["build".toList], "a = '1'\r\n".toUTF8), (["b".toList], "a = '1'".toUTF8)]⟩
      (["set-property", "build", "a", "2", "--write"].map String.toList)).files.files =
      [(["build".toList], "a = '2'\r\n".toUTF8), (["b".toList], "a = '1'".toUTF8)] := by
  decide +kernel

end Command

end BuildScript
