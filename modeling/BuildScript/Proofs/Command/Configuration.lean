import BuildScript.Proofs.Command.Effect
/-!
# Settings that cannot be used

Every command that asks for an action reads the settings before anything else, and there are four
places where they can fail: the file is not well-formed, it holds no mapping, the fields do not fit,
or the log level that they set has no name. `Misconfigured` says so of the content of a file,
whatever the command is.

**Report.** A fault that is met while the settings are loaded is printed as a line, the exit code is
one, and nothing is read or written any more. The log level is looked up behind that, where a fault
ends the command and nothing is printed.

**Hosts.** The host decides what is well-formed, which fields fit and how the arguments are read,
and its words go into the message. Where a fault is reported does not depend on it.

Results:
* `misconfigured_iff`: the four places are all there are.
* `reported_iff_of_misconfigured`: of which faults the message is printed; no file is changed.
* `not_reported_loudFiles`: a log level without a name.
-/
namespace BuildScript

namespace Command

/-- The content of a settings file makes a fault of its author's. -/
inductive Misconfigured (loader : Settings.Loader) :
    (content : Option ByteArray) → SettingsFault → Prop
  | malformed {bytes : ByteArray} {details : Text}
      (h : loader.document bytes = .error (.malformed details)) :
      Misconfigured loader (some bytes) (.malformed details)
  | notMapping {bytes : ByteArray} {value : Value} (h : loader.document bytes = .ok value)
      (hfilled : value.isEmpty = false) (hother : ∀ fields, value ≠ .mapping fields) :
      Misconfigured loader (some bytes) .notMapping
  | invalid {content : Option ByteArray} {fields : Fields} {refusal : Refusal}
      (hfields : loader.loadFields content = .ok fields)
      (h : loader.validate fields = .error refusal) :
      Misconfigured loader content (.invalid refusal)
  | unknownLevel {content : Option ByteArray} {settings : Settings}
      (hload : loader.load content = .ok settings)
      (h : LoggingSettings.levelNumber? settings.logging.level = none) :
      Misconfigured loader content (.unknownLevel settings.logging.level)

/-- A command ends in the message of a fault and nothing else. -/
structure Reported (host : Host) (fault : SettingsFault) (result : Result) : Prop where
  exitCode : result.exitCode = 1
  output : result.output = host.print [fault.message]
  failure : result.failure = none
  written : result.written = none

variable {loader : Settings.Loader} {host : Host} {content : Option ByteArray}
  {fault : SettingsFault}

/-! ## Where settings fail -/

theorem loadFields_eq_error_iff : loader.loadFields content = .error fault ↔
    ∃ bytes, content = some bytes ∧
      ((∃ f, loader.document bytes = .error f ∧ fault = .ofDocument f) ∨
        ∃ value, loader.document bytes = .ok value ∧ value.isEmpty = false ∧
          (∀ fields, value ≠ .mapping fields) ∧ fault = .notMapping) := by
  constructor
  · intro h
    unfold Settings.Loader.loadFields at h
    split at h
    · cases h
    · next bytes =>
      refine ⟨bytes, rfl, ?_⟩
      split at h
      · next f hread =>
        cases h
        exact .inl ⟨f, hread, rfl⟩
      · next value hread =>
        split at h
        · cases h
        · next hempty =>
          split at h
          · cases h
          · next hother =>
            cases h
            exact .inr ⟨value, hread, Bool.eq_false_iff.2 hempty, hother, rfl⟩
  · rintro ⟨bytes, rfl, ⟨f, hread, rfl⟩ | ⟨value, hread, hempty, hother, rfl⟩⟩
    · rw [Settings.Loader.loadFields, hread]
    · rw [Settings.Loader.loadFields, hread]
      dsimp only
      rw [hempty, if_neg Bool.false_ne_true]
      cases value with
      | mapping fields => exact absurd rfl (hother fields)
      | _ => rfl

theorem load_eq_error_iff : loader.load content = .error fault ↔
    loader.loadFields content = .error fault ∨
      ∃ fields refusal, loader.loadFields content = .ok fields ∧
        loader.validate fields = .error refusal ∧ fault = .invalid refusal := by
  unfold Settings.Loader.load
  cases loader.loadFields content with
  | error f => simp [bind, Except.bind]
  | ok fields =>
    simp only [bind, Except.bind]
    cases hfields : loader.validate fields <;> simp [Except.mapError, hfields, eq_comm]

/-- The four places are all there are: a fault is reported when the settings are loaded, or it is
one of the log level that they set. -/
theorem misconfigured_iff : Misconfigured loader content fault ↔
    (loader.load content = .error fault ∧ fault.isReported = true) ∨
      ∃ settings, loader.load content = .ok settings ∧ settings.levelNumber = .error fault := by
  constructor
  · rintro (⟨h⟩ | ⟨h, hfilled, hother⟩ | ⟨hfields, h⟩ | ⟨hload, h⟩)
    · refine .inl ⟨load_eq_error_iff.2 (.inl (loadFields_eq_error_iff.2 ?_)), rfl⟩
      exact ⟨_, rfl, .inl ⟨_, h, rfl⟩⟩
    · refine .inl ⟨load_eq_error_iff.2 (.inl (loadFields_eq_error_iff.2 ?_)), rfl⟩
      exact ⟨_, rfl, .inr ⟨_, h, hfilled, hother, rfl⟩⟩
    · exact .inl ⟨load_eq_error_iff.2 (.inr ⟨_, _, hfields, h, rfl⟩), rfl⟩
    · exact .inr ⟨_, hload, by rw [Settings.levelNumber, h]⟩
  · rintro (⟨hload, hreported⟩ | ⟨settings, hload, hlevel⟩)
    · rcases load_eq_error_iff.1 hload with hfields | ⟨fields, refusal, hfields, h, rfl⟩
      · obtain ⟨bytes, rfl, ⟨f, h, rfl⟩ | ⟨value, h, hfilled, hother, rfl⟩⟩ :=
          loadFields_eq_error_iff.1 hfields
        · cases f with
          | malformed details => exact .malformed h
          | unreadable reason => cases hreported
        · exact .notMapping h hfilled hother
      · exact .invalid hfields h
    · unfold Settings.levelNumber at hlevel
      split at hlevel
      · cases hlevel
      · next h =>
        cases hlevel
        exact .unknownLevel hload h

/-! ## What is reported -/

theorem withSettings_of_load (hload : host.load content = .error fault)
    (hreported : fault.isReported = true) (next : Settings → Result) :
    withSettings host (.ok content) next = .printing host 1 [fault.message] := by
  simp only [withSettings, hload]
  rw [if_pos hreported]

theorem withSettings_of_level {settings : Settings} (hload : host.load content = .ok settings)
    (hlevel : settings.levelNumber = .error fault) (next : Settings → Result) :
    withSettings host (.ok content) next = .failing (.settings fault) := by
  simp only [withSettings, hload, hlevel]

theorem exists_level_of_levelNumber {settings : Settings}
    (h : settings.levelNumber = .error fault) : ∃ level, fault = .unknownLevel level := by
  unfold Settings.levelNumber at h
  split at h
  · cases h
  · cases h
    exact ⟨_, rfl⟩

theorem runArguments_of_withSettings {files : FileTree} {args : List Text}
    {invocation : Invocation} {action : Action} {result : Result}
    (hread : host.arguments args = .invocation invocation)
    (haction : invocation.call.action? = some action)
    (hcontent : configOf files invocation = .ok content) (hwritten : result.written = none)
    (h : ∀ next, withSettings host (.ok content) next = result) :
    runArguments host files args = ⟨result, files⟩ := by
  simp only [runArguments, hread, run, answer, haction, execute, hcontent, h]
  exact commit_of_not_written hwritten

/-- A settings file that cannot be used ends every command with exit code one and changes no file,
whatever else the arguments ask for and whether or not there is a script. The message of the fault
is printed unless the log level is at fault; then the fault itself ends the command, and nothing is
printed. -/
theorem reported_iff_of_misconfigured {host : Host} {files : FileTree} {args : List Text}
    {invocation : Invocation} {action : Action} {content : Option ByteArray}
    {fault : SettingsFault} (hread : host.arguments args = .invocation invocation)
    (haction : invocation.call.action? = some action)
    (hcontent : configOf files invocation = .ok content)
    (hfault : Misconfigured host.toLoader content fault) :
    let outcome := runArguments host files args
    outcome.files = files ∧ outcome.result.exitCode = 1 ∧
      (Reported host fault outcome.result ↔ ∀ level, fault ≠ .unknownLevel level) ∧
      ∀ level, fault = .unknownLevel level →
        outcome.result.output = [] ∧ outcome.result.failure = some (.settings fault) := by
  intro outcome
  rcases misconfigured_iff.1 hfault with ⟨hload, hreported⟩ | ⟨settings, hload, hlevel⟩
  · have houtcome : outcome = ⟨.printing host 1 [fault.message], files⟩ :=
      runArguments_of_withSettings hread haction hcontent rfl
        (withSettings_of_load hload hreported)
    have hother : ∀ level, fault ≠ .unknownLevel level := by
      rintro level rfl
      cases hreported
    rw [houtcome]
    exact ⟨rfl, rfl, ⟨fun _ => hother, fun _ => ⟨rfl, rfl, rfl, rfl⟩⟩,
      fun level h => absurd h (hother level)⟩
  · have houtcome : outcome = ⟨.failing (.settings fault), files⟩ :=
      runArguments_of_withSettings hread haction hcontent rfl (withSettings_of_level hload hlevel)
    obtain ⟨level, hunknown⟩ := exists_level_of_levelNumber hlevel
    rw [houtcome]
    refine ⟨rfl, rfl, ⟨fun h => ?_, fun hother => absurd hunknown (hother level)⟩,
      fun _ _ => ⟨rfl, rfl⟩⟩
    cases h.failure

/-- Settings that are a word. -/
def wordSettings : String := "parser\n"

theorem document_wordSettings :
    standardHost.document wordSettings.toUTF8 = .ok (.text "parser".toList) := by
  refine Settings.document_yamlLoader ?_
  have hnode : Yaml.Node.ofTokens (Yaml.tokens (Settings.unifyBreaks wordSettings.toList)) =
      .ok (some (.scalar "parser".toList true)) := by rfl
  rw [Yaml.read, hnode]
  simp only [bind, Except.bind, Yaml.Node.value]
  rfl

/-- Files with such settings. -/
def wordFiles : FileTree :=
  ⟨[(["ge.yaml".toList], wordSettings.toUTF8), (["build".toList], "a = '1'\n".toUTF8)]⟩

/-- A property is not changed, and why is printed. -/
theorem reported_wordFiles :
    let args := ["set-property", "build", "a", "2", "--write"].map String.toList
    let invocation : Invocation :=
      ⟨"ge.yaml".toList, "build".toList, .setProperty "a".toList "2".toList true⟩
    let outcome := runArguments standardHost wordFiles args
    standardHost.arguments args = .invocation invocation ∧
      invocation.call.action? = some (.change (.setProperty "a".toList "2".toList) true) ∧
      configOf wordFiles invocation = .ok (some wordSettings.toUTF8) ∧
      Misconfigured standardHost.toLoader (some wordSettings.toUTF8) .notMapping ∧
      outcome.files = wordFiles ∧ outcome.result.exitCode = 1 ∧
      Reported standardHost .notMapping outcome.result := by
  intro args invocation outcome
  have hread : standardHost.arguments args = .invocation invocation := by rfl
  have haction : invocation.call.action? =
      some (.change (.setProperty "a".toList "2".toList) true) := rfl
  have hcontent : configOf wordFiles invocation = .ok (some wordSettings.toUTF8) := by rfl
  have hfault : Misconfigured standardHost.toLoader (some wordSettings.toUTF8) .notMapping :=
    .notMapping document_wordSettings rfl fun _ => Value.noConfusion
  obtain ⟨hfiles, hcode, hreported, -⟩ :=
    reported_iff_of_misconfigured hread haction hcontent hfault
  exact ⟨hread, haction, hcontent, hfault, hfiles, hcode,
    hreported.2 fun _ => SettingsFault.noConfusion⟩

/-- Settings that ask for a log level that has no name. -/
def loudSettings : String := "logging:\n  level: LOUD\n"

theorem document_loudSettings : standardHost.document loudSettings.toUTF8 =
    .ok (.mapping [(.text "logging".toList,
      .mapping [(.text "level".toList, .text "LOUD".toList)])]) := by
  refine Settings.document_yamlLoader ?_
  have hnode : Yaml.Node.ofTokens (Yaml.tokens (Settings.unifyBreaks loudSettings.toList)) =
      .ok (some (.mapping [(.scalar "logging".toList true,
        .mapping [(.scalar "level".toList true, .scalar "LOUD".toList true)])])) := by rfl
  rw [Yaml.read, hnode]
  simp only [bind, Except.bind, Yaml.Node.value, Yaml.Node.pairs, Yaml.Node.mergedPairs,
    Yaml.Node.ownPairs]
  rfl

/-- Files with such settings. -/
def loudFiles : FileTree :=
  ⟨[(["ge.yaml".toList], loudSettings.toUTF8), (["build".toList], "a = '1'\n".toUTF8)]⟩

/-- The log level is the author's fault like the others, but why it is one is not printed. -/
theorem not_reported_loudFiles :
    let args := ["parse", "build"].map String.toList
    let invocation : Invocation := ⟨"ge.yaml".toList, "build".toList, .parse false⟩
    let fault := SettingsFault.unknownLevel "LOUD".toList
    let outcome := runArguments standardHost loudFiles args
    standardHost.arguments args = .invocation invocation ∧
      configOf loudFiles invocation = .ok (some loudSettings.toUTF8) ∧
      Misconfigured standardHost.toLoader (some loudSettings.toUTF8) fault ∧
      outcome.result.output = [] ∧ outcome.result.failure = some (.settings fault) ∧
      ¬ Reported standardHost fault outcome.result := by
  intro args invocation fault outcome
  have hread : standardHost.arguments args = .invocation invocation := by rfl
  have hcontent : configOf loudFiles invocation = .ok (some loudSettings.toUTF8) := by rfl
  have hload : standardHost.load (some loudSettings.toUTF8) =
      .ok { logging := { level := "LOUD".toList } } := by
    simp only [Settings.Loader.load, Settings.Loader.loadFields, document_loudSettings]
    rfl
  have hlevel : Settings.levelNumber { logging := { level := "LOUD".toList } } = .error fault := by
    rfl
  have houtcome : outcome = ⟨.failing (.settings fault), loudFiles⟩ :=
    runArguments_of_withSettings hread rfl hcontent rfl (withSettings_of_level hload hlevel)
  rw [houtcome]
  refine ⟨hread, hcontent, misconfigured_iff.2 (.inr ⟨_, hload, hlevel⟩), rfl, rfl, fun h => ?_⟩
  cases h.failure

end Command

end BuildScript
