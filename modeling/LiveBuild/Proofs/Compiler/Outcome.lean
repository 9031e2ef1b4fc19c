import LiveBuild.Compiler.Compile
import LiveBuild.Proofs.Build.Outcome

/-!
# What a run of the compiler comes to

Two layers judge a run: the compile looks for an error with a place in the source and at the exit
status, and the service for any error at all. Together they classify every run
(`classified_of_launch`), whatever is in its error output, whatever its exit status is, and whether
or not its output can be loaded.

* `launch`, `conclude`: a compile up to the end of the run, and what is left after it
  (`compile_eq`);
* `Ends`: a step that never goes on for ever. To load the output is such a step (`ends_load`), so no
  time limit can pass after the run;
* `Loads`: the output can be loaded, or marked executable;
* `Classified`: the artifact, the diagnostics and the message that belong to a run.
-/

namespace LiveBuild.Compiler

variable {ι σ α β : Type} {t : Toolchain ι σ} {id : BuildId} {params : Parameters}
  {source : Source} {mode : OutputMode} {target : Target} {f : Finished} {h h' : Host ι}
  {o : Outcome (Product σ)}

/-! ## Two parts of a compile -/

/-- A compile up to the end of the compiler's run. -/
def launch (t : Toolchain ι σ) (id : BuildId) (params : Parameters) (source : Source) :
    Work ι Finished := do
  ensureDirectories "Failed to create work directory" t.workDir
  let sourcePath ← materialize t id source params.resources
  let (output, crateName) ← layout t id params.target
  start t (arguments params t.edition crateName sourcePath output)

/-- What is left of a compile after the compiler's run. -/
def conclude (t : Toolchain ι σ) (id : BuildId) (target : Target) (f : Finished) :
    Work ι (Report (Product σ)) := do
  match f.judge with
  | .sourceErrors entries => return ⟨entries, none⟩
  | .failure msg => fail (.toolchain msg)
  | .success entries => return ⟨entries, some (← load t id target)⟩

theorem compile_eq (t : Toolchain ι σ) (id : BuildId) (params : Parameters) (source : Source) :
    compile t id params source = launch t id params source >>= conclude t id params.target := by
  simp only [compile, launch, bind_assoc]
  rfl

theorem run_bind (w : Work ι α) (next : α → Work ι β) (h : Host ι) :
    (w >>= next).run h = match w.run h with
      | (.ok a, h') => (next a).run h'
      | (.error e, h') => (.error e, h') := by
  change (ExceptT.bindCont next (w.run h).1) (w.run h).2 = _
  rcases w.run h with ⟨_ | _, _⟩ <;> rfl

/-! ## Steps that end -/

/-- The step ends, whatever the host is. -/
def Ends (w : Work ι α) : Prop := ∀ h, (w.run h).1 ≠ .error .never

theorem ends_pure (a : α) : Ends (pure a : Work ι α) := fun _ => nofun

theorem ends_fail (f : Fault) : Ends (fail f : Work ι α) := fun _ => nofun

theorem Ends.bind {w : Work ι α} {next : α → Work ι β} (hw : Ends w)
    (hnext : ∀ a, Ends (next a)) : Ends (w >>= next) := by
  intro h
  have hfirst := hw h
  rw [run_bind]
  rcases hrun : w.run h with ⟨_ | a, h'⟩
  · rw [hrun] at hfirst
    simpa using hfirst
  · exact hnext a h'

/-- A step that reads and writes the host and has no way to fail. -/
theorem ends_lift (m : StateM (Host ι) α) : Ends (ExceptT.lift m : Work ι α) := fun _ => nofun

theorem ends_look (context : String) (read : Files ι → Except OsError α) :
    Ends (look context read) := by
  refine (ends_lift get).bind fun h => ?_
  cases read h.files with
  | ok a => exact ends_pure a
  | error e => exact ends_fail _

theorem ends_change (context : String) (write : Files ι → Except OsError (Files ι)) :
    Ends (change context write) :=
  (ends_look context write).bind fun files => ends_lift (modify fun h => { h with files })

theorem ends_ensureDirectories (context : String) (p : Path) :
    Ends (ensureDirectories context p : Work ι Unit) := by
  refine (ends_lift get).bind fun h => ?_
  rcases h.files.makeDirectories p with ⟨r, files⟩
  refine (ends_lift (modify fun h => { h with files })).bind fun _ => ?_
  cases r with
  | ok => exact ends_pure _
  | error e => exact ends_fail _

theorem ends_loadLibrary (t : Toolchain ι σ) (p : Path) : Ends (loadLibrary t p) := by
  refine (ends_lift (openLibrary t p).run).bind fun r => ?_
  cases r with
  | ok l => exact ends_pure _
  | error e => exact ends_fail _

theorem ends_load (t : Toolchain ι σ) (id : BuildId) (target : Target) :
    Ends (load t id target) := by
  cases target with
  | inMemory => exact ends_loadLibrary t _
  | library path =>
    exact (ends_ensureDirectories _ _).bind fun _ =>
      (ends_change _ _).bind fun _ => ends_loadLibrary t _
  | executable path =>
    exact (ends_look _ _).bind fun _ => (ends_change _ _).bind fun _ => ends_pure _

/-! ## What belongs to a run -/

namespace Finished

/-- Some error names a place in the source. -/
def IsLocated (f : Finished) : Prop := ∃ e ∈ f.entries, e.severity = .error ∧ 0 < e.line

/-- The errors that name no place in the source, in order. -/
def unlocated (f : Finished) : List Entry :=
  f.entries.filter fun e => e.severity = .error ∧ e.line = 0

/-- What is said of a run that failed and named no place in the source: the messages of its errors,
or else its status and its error output. -/
def explanation (f : Finished) : String :=
  let joined := "; ".intercalate (f.unlocated.map (·.message))
  if joined = "" then
    "rustc exited with " ++ f.status.display ++ ": " ++ String.ofList (Text.trim f.text.toList)
  else joined

theorem hasLocatedError_iff : Diagnostics.hasLocatedError f.entries = true ↔ f.IsLocated := by
  simp [Diagnostics.hasLocatedError, IsLocated, Entry.isLocatedError, Entry.isError]

/-- An error has a place or it has none. -/
theorem exists_error_iff :
    (∃ e ∈ f.entries, e.severity = .error) ↔
      f.IsLocated ∨ ∃ e ∈ f.entries, e.severity = .error ∧ e.line = 0 := by
  constructor
  · rintro ⟨e, he, herror⟩
    rcases eq_or_ne e.line 0 with h0 | hpos
    · exact .inr ⟨e, he, herror, h0⟩
    · exact .inl ⟨e, he, herror, UInt32.pos_iff_ne_zero.2 hpos⟩
  · rintro (⟨e, he, herror, -⟩ | ⟨e, he, herror, -⟩) <;> exact ⟨e, he, herror⟩

/-- Without a located error, the errors are the unlocated ones. -/
theorem filter_isError (h : ¬ f.IsLocated) : f.entries.filter (·.isError) = f.unlocated := by
  refine List.filter_congr fun e he => ?_
  have h0 : e.severity = .error → e.line = 0 := fun herror => by
    by_contra hpos
    exact h ⟨e, he, herror, UInt32.pos_iff_ne_zero.2 hpos⟩
  cases hs : e.severity <;> simp [Entry.isError, hs, h0]

theorem failureMessage_eq (h : ¬ f.IsLocated) : f.failureMessage = f.explanation := by
  rw [failureMessage, errorSummary, filter_isError h]
  rfl

theorem judge_of_located (h : f.IsLocated) : f.judge = .sourceErrors f.entries := by
  rw [judge, if_pos (hasLocatedError_iff.2 h)]

theorem judge_of_success (h : ¬ f.IsLocated) (hs : f.status.isSuccess = true) :
    f.judge = .success f.entries := by
  rw [judge, if_neg (fun h' => h (hasLocatedError_iff.1 h')), if_pos hs]

theorem judge_of_failure (h : ¬ f.IsLocated) (hs : f.status.isSuccess ≠ true) :
    f.judge = .failure f.explanation := by
  rw [judge, if_neg (fun h' => h (hasLocatedError_iff.1 h')), if_neg hs, failureMessage_eq h]

end Finished

/-- The output of a build can be loaded, or marked executable. -/
def Loads (t : Toolchain ι σ) (id : BuildId) (target : Target) (h : Host ι) : Prop :=
  ∃ p h', (load t id target).run h = (.ok p, h')

/-- What belongs to a run that ended as `f` and left the host `h`. -/
structure Classified (t : Toolchain ι σ) (id : BuildId) (target : Target) (f : Finished)
    (h : Host ι) (o : Outcome (Product σ)) : Prop where
  /-- There is an artifact, or there are diagnostics, or there is a message, and no two of them. -/
  form : ∃! form, o.HasForm form
  artifact_iff : o.build?.isSome ↔ f.status.isSuccess ∧
    (¬ ∃ e ∈ f.entries, e.severity = .error) ∧ Loads t id target h
  diagnostics_iff : o.diagnostics ≠ [] ↔
    (∃ e ∈ f.entries, e.severity = .error ∧ 0 < e.line) ∨
    (f.status.isSuccess ∧ Loads t id target h ∧
      ∃ e ∈ f.entries, e.severity = .error ∧ e.line = 0)
  /-- The diagnostics are all errors, with a place or without, in the order of the output. -/
  diagnostics : o.diagnostics ≠ [] → o.diagnostics =
    (f.entries.filter (·.severity = .error)).map fun e => ⟨e.line, e.column, e.code, e.message⟩
  message_iff : o.message?.isSome ↔ o.build? = none ∧ o.diagnostics = []
  /-- A run that failed without a located error is explained. -/
  message : ¬ f.status.isSuccess → (¬ ∃ e ∈ f.entries, e.severity = .error ∧ 0 < e.line) →
    o.message? = some ("compiler failed without source diagnostics: " ++ f.explanation)
  /-- A run that failed yields no artifact, but it yields something. -/
  failed : ¬ f.status.isSuccess →
    o.build? = none ∧ (o.diagnostics ≠ [] ∨ o.message?.isSome)

namespace Classified

/-- What an outcome has to show: the rest follows from the forms of outcomes. -/
theorem of_iff
    (artifact_iff : o.build?.isSome ↔ f.status.isSuccess ∧
      (¬ ∃ e ∈ f.entries, e.severity = .error) ∧ Loads t id target h)
    (diagnostics_iff : o.diagnostics ≠ [] ↔
      f.IsLocated ∨ (f.status.isSuccess ∧ Loads t id target h ∧
        ∃ e ∈ f.entries, e.severity = .error ∧ e.line = 0))
    (diagnostics : o.diagnostics ≠ [] → o.diagnostics =
      (f.entries.filter (·.severity = .error)).map fun e => ⟨e.line, e.column, e.code, e.message⟩)
    (message : ¬ f.status.isSuccess → ¬ f.IsLocated →
      o.message? = some ("compiler failed without source diagnostics: " ++ f.explanation)) :
    Classified t id target f h o := by
  have message_iff : o.message?.isSome ↔ o.build? = none ∧ o.diagnostics = [] := by
    cases o <;> simp [Outcome.message?, Outcome.build?, Outcome.diagnostics]
  refine ⟨o.existsUnique_hasForm, artifact_iff, diagnostics_iff, diagnostics, message_iff, message,
    fun hs => ?_⟩
  have hnone : o.build? = none := by
    rw [← Option.not_isSome_iff_eq_none]
    exact fun h => hs (artifact_iff.1 h).1
  refine ⟨hnone, ?_⟩
  by_cases hnil : o.diagnostics = []
  · exact .inr (message_iff.2 ⟨hnone, hnil⟩)
  · exact .inl hnil

/-- The errors are reported, and an artifact that may be there counts for nothing. -/
theorem of_errors (mode : OutputMode)
    (herror : f.IsLocated ∨ (f.status.isSuccess ∧ Loads t id target h ∧
      ∃ e ∈ f.entries, e.severity = .error ∧ e.line = 0)) (artifact : Option (Product σ)) :
    Classified t id target f h (.ofReport mode target ⟨f.entries, artifact⟩) := by
  have hsome : ∃ e ∈ f.entries, e.severity = .error :=
    Finished.exists_error_iff.2 (herror.imp_right fun h => h.2.2)
  have hform : (Outcome.ofReport mode target ⟨f.entries, artifact⟩).HasForm .failure :=
    Outcome.hasForm_ofReport hsome
  refine of_iff (iff_of_false ?_ fun h => h.2.1 hsome) (iff_of_true hform.2.1 herror)
    (fun _ => Outcome.diagnostics_ofReport) fun hs hno => ?_
  · rw [hform.2.2.1]
    exact Bool.false_ne_true
  · exact absurd herror (by simp [hs, hno])

/-- The artifact is there, and there is no error. -/
theorem of_artifact (hs : f.status.isSuccess = true)
    (hno : ¬ ∃ e ∈ f.entries, e.severity = .error) (hl : Loads t id target h) (p : Product σ) :
    Classified t id target f h (.ofReport mode target ⟨f.entries, some p⟩) := by
  have hnone := not_or.1 (mt Finished.exists_error_iff.2 hno)
  rw [Outcome.ofReport_of_artifact hno rfl]
  exact of_iff (iff_of_true rfl ⟨hs, hno, hl⟩)
    (iff_of_false (fun h => h rfl) fun h => h.elim hnone.1 fun h => hnone.2 h.2.2)
    (fun h => absurd rfl h) fun h => absurd hs h

/-- The build was given up after the run. -/
theorem of_abort (hno : ¬ f.IsLocated) (hl : ¬ (f.status.isSuccess ∧ Loads t id target h))
    {cause : Abort} (hcause : ¬ f.status.isSuccess →
      cause.message = "compiler failed without source diagnostics: " ++ f.explanation) :
    Classified t id target f h (.aborted cause) :=
  of_iff (iff_of_false Bool.false_ne_true fun h => hl ⟨h.1, h.2.2⟩)
    (iff_of_false (fun h => h rfl) fun h => h.elim hno fun h => hl ⟨h.1, h.2.1⟩)
    (fun h => absurd rfl h) fun hs _ => congrArg some (hcause hs)

end Classified

/-- What is left after a run is classified as the run is, whatever the time limit. -/
theorem classified_of_conclude (t : Toolchain ι σ) (limit : Option ℕ) (id : BuildId)
    (mode : OutputMode) (target : Target) (f : Finished) (h : Host ι) :
    ∃ answer, Service.within limit ((conclude t id target f).run h).1 = some answer ∧
      Classified t id target f h (.ofAnswer mode target answer) := by
  by_cases hlocated : f.IsLocated
  · refine ⟨.ok ⟨f.entries, none⟩, ?_, ?_⟩
    · rw [conclude, Finished.judge_of_located hlocated]
      rfl
    · exact .of_errors mode (.inl hlocated) none
  by_cases hs : f.status.isSuccess = true
  · rcases hload : (load t id target).run h with ⟨(g | _) | p, h'⟩
    · have hl : ¬ Loads t id target h := by
        rintro ⟨p, h'', hp⟩
        cases hload.symm.trans hp
      refine ⟨.error g, ?_, .of_abort hlocated (fun h => hl h.2) fun h => absurd hs h⟩
      rw [conclude, Finished.judge_of_success hlocated hs]
      simp only [run_bind, hload, Service.within]
    · exact absurd (congrArg Prod.fst hload) (ends_load t id target h)
    · have hl : Loads t id target h := ⟨p, h', hload⟩
      refine ⟨.ok ⟨f.entries, some p⟩, ?_, ?_⟩
      · rw [conclude, Finished.judge_of_success hlocated hs]
        simp only [run_bind, hload]
        rfl
      · by_cases herror : ∃ e ∈ f.entries, e.severity = .error
        · have hunlocated := (Finished.exists_error_iff.1 herror).resolve_left hlocated
          exact .of_errors mode (.inr ⟨hs, hl, hunlocated⟩) (some p)
        · exact .of_artifact hs herror hl p
  · refine ⟨.error (.toolchain f.explanation), ?_,
      .of_abort hlocated (fun h => hs h.1) fun _ => rfl⟩
    rw [conclude, Finished.judge_of_failure hlocated hs]
    rfl

end LiveBuild.Compiler

namespace LiveBuild.Service

open Compiler

variable {ι σ : Type} {t : Toolchain ι σ} {id : BuildId} {r : Request} {params : Parameters}
  {source : Source} {f : Finished} {h h' : Host ι}

/-- **Every run of the compiler is classified.** A request was accepted, and the compiler was run
for it and ended as `f`, which left the host `h'`. Then the build has an outcome, and it is the one
that belongs to the run. -/
theorem classified_of_launch (limit : Option ℕ)
    (hr : r.prepare h.files.pathExists = .ok (params, source))
    (hrun : (launch t id params source).run h = (.ok f, h')) :
    ∃ o, (Service.compile t limit id r h).1 = some o ∧ Classified t id params.target f h' o := by
  obtain ⟨answer, hanswer, hclassified⟩ :=
    classified_of_conclude t limit id r.mode params.target f h'
  refine ⟨_, ?_, hclassified⟩
  have hresult : (Compiler.compile t id params source).run h =
      (conclude t id params.target f).run h' := by
    rw [compile_eq, run_bind, hrun]
  have hcompile : (Service.compile t limit id r h).1 =
      (within limit ((conclude t id params.target f).run h').1).map
        (.ofAnswer r.mode params.target) := by
    rw [Service.compile, handle_of_ok hr, OptionT.run_map, ← hresult]
    rfl
  rw [hcompile, hanswer, Option.map_some]

/-- A run that finds no linker and is then killed. -/
def noLinker : Finished :=
  ⟨.signal 9 false, Utf8.encode
    "\x7b\"message\":\"no linker\",\"code\":null,\"level\":\"error\",\"spans\":[]\x7d\n"⟩

/-- A toolchain whose compiler never finds a linker. -/
def noLinkerToolchain : Toolchain Unit Unit where
  compiler := ⟨"rustc"⟩
  workDir := ⟨"/work"⟩
  edition := "2021"
  searchPath := [⟨"/"⟩]
  run _ _ files := (some noLinker, files)
  exports _ := ⟨none, none, false⟩

/-- A host on which the compiler is installed, and nothing else. -/
def bareHost : Host Unit :=
  .ofFiles ⟨[([['r', 'u', 's', 't', 'c']], .file (.bytes []) true)], [], ⟨"/"⟩⟩

/-- The first build of a service. -/
def firstBuild : BuildId := ⟨"0-1", "01"⟩

/-- A request for a program that does nothing. -/
def emptyMain : Request := { sourceText := some "fn main() \x7b\x7d" }

/-- The error has no place, so its message is the message of the build. -/
theorem classified_of_launch_noLinker :
    ∃ params source h', emptyMain.prepare bareHost.files.pathExists = .ok (params, source) ∧
      (launch noLinkerToolchain firstBuild params source).run bareHost = (.ok noLinker, h') ∧
      ∃ o, (Service.compile noLinkerToolchain none firstBuild emptyMain bareHost).1 = some o ∧
        o.message? = some "compiler failed without source diagnostics: no linker" := by
  have hr : emptyMain.prepare bareHost.files.pathExists =
      .ok (⟨.inMemory, true, 2, false, true, [], []⟩, .text "fn main() \x7b\x7d") := rfl
  obtain ⟨h', hrun⟩ : ∃ h', (launch noLinkerToolchain firstBuild
      ⟨.inMemory, true, 2, false, true, [], []⟩ (.text "fn main() \x7b\x7d")).run bareHost =
        (.ok noLinker, h') := ⟨_, rfl⟩
  have hmessage : noLinker.explanation = "no linker" := by decide +kernel
  have hunlocated : ¬ ∃ e ∈ noLinker.entries, e.severity = .error ∧ 0 < e.line := by
    decide +kernel
  obtain ⟨o, ho, hclassified⟩ := classified_of_launch none hr hrun
  refine ⟨_, _, h', hr, hrun, o, ho, ?_⟩
  rw [hclassified.message (by decide) hunlocated, hmessage]
  rfl

end LiveBuild.Service
