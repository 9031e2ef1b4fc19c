import LiveBuild.Proofs.Compiler.Outcome
import LiveBuild.Proofs.Files.Changes

/-!
# The steps of a compile

Between two operations on the host a compile stands at some point, and other compiles may go on
there. `Point.step` is one operation; the steps one after the other are the compile
(`run_rest_step`).

* `Point.rest`: what is left of a compile at a point;
* `Moves`: what a step can do (`moves_step`);
* `Point.region`: the places whose code the next operation may change.
-/

namespace LiveBuild.Compiler

variable {ι σ α β : Type}

/-! ## Points -/

/-- Where a compile is between two of its operations. -/
inductive Point (σ : Type)
  /-- Nothing was done. -/
  | begin
  /-- The work directory is there. -/
  | prepared
  /-- The source is to be written. -/
  | writing (text : String)
  /-- The source file is there. -/
  | sourced (source : Path)
  /-- The compiler is to be run. -/
  | ready (source : Path)
  /-- The run ended well. -/
  | loading (entries : List Entry)
  /-- The output is to be copied, or marked. -/
  | storing (entries : List Entry)
  /-- The library is to be opened. -/
  | opening (entries : List Entry)
  /-- The compile is over. -/
  | answered (answer : Except Fault (Report (Product σ)))
  /-- The compiler does not end. -/
  | hung

namespace Point

/-- No operation is left. -/
def isFinal : Point σ → Bool
  | answered _ => true
  | hung => true
  | _ => false

/-- The compiler is to be run. -/
def isReady : Point σ → Bool
  | ready _ => true
  | _ => false

/-- The compiler may be running. -/
def isRunning : Point σ → Bool
  | ready _ => true
  | hung => true
  | _ => false

/-- The output is written, and was not copied yet. -/
def isBuilt : Point σ → Bool
  | loading _ => true
  | storing _ => true
  | _ => false

/-- The number of operations that are left, at most. -/
def rank : Point σ → ℕ
  | begin => 8
  | prepared => 7
  | writing _ => 6
  | sourced _ => 5
  | ready _ => 4
  | loading _ => 3
  | storing _ => 2
  | opening _ => 1
  | answered _ => 0
  | hung => 0

end Point

/-- The output of a build. -/
def output (t : Toolchain ι σ) (id : BuildId) : Target → Path
  | .inMemory => ownLibrary t id
  | .library path => path
  | .executable path => path

/-- The name under which a build is compiled. -/
def crateName (id : BuildId) : Target → String
  | .inMemory => ownCrateName id
  | .library path => CrateName.ofPath path
  | .executable path => CrateName.ofPath path

/-- The arguments of the run of a build. -/
def runArguments (t : Toolchain ι σ) (id : BuildId) (params : Parameters) (source : Path) :
    List String :=
  arguments params t.edition (crateName id params.target) source (output t id params.target)

/-- The file that a source is written to. -/
def sourceFile (t : Toolchain ι σ) (id : BuildId) : Path := t.workDir.child (id.dashed ++ ".rs")

/-- The text that is handed to the compiler. -/
def sourceText (cwd : Path) (resources : List Path) (text : String) : String :=
  if resources.isEmpty then text else text ++ Resources.table cwd resources

/-- Writes the source of a build. -/
def writeSource (t : Toolchain ι σ) (id : BuildId) (resources : List Path) (text : String) :
    Work ι Path := do
  let h ← get
  change "Failed to write source file" (·.write (sourceFile t id)
    (.bytes (Utf8.encode (sourceText h.files.current resources text))))
  return sourceFile t id

/-! ## Steps -/

namespace Point

/-- The point after a run that ended. -/
def ofRun (f : Finished) : Point σ :=
  match f.judge with
  | .sourceErrors entries => answered (.ok ⟨entries, none⟩)
  | .failure msg => answered (.error (.toolchain msg))
  | .success entries => loading entries

/-- The next operation, and the point after it. -/
def advance (t : Toolchain ι σ) (id : BuildId) (params : Parameters) (source : Source) :
    Point σ → Work ι (Point σ)
  | begin => do
    ensureDirectories "Failed to create work directory" t.workDir
    return prepared
  | prepared => match source with
    | .text text => return writing text
    | .file path =>
      if params.resources.isEmpty then return sourced path
      else do
        let text ← look ("Failed to read " ++ path.spelling) fun files => do
          textOf? (← files.read? path)
        return writing text
  | writing text => do
    let path ← writeSource t id params.resources text
    return sourced path
  | sourced path => do
    let _ ← layout t id params.target
    return ready path
  | ready path => do
    let f ← start t (runArguments t id params path)
    return ofRun f
  | loading entries => match params.target with
    | .inMemory => return opening entries
    | .library _ => do
      ensureDirectories "Failed to create load directory" (ownDirectory t id)
      return storing entries
    | .executable path => do
      let _ ← look "Failed to stat executable" (·.stat? path)
      return storing entries
  | storing entries => match params.target with
    | .inMemory => return opening entries
    | .library path => do
      change ("Failed to copy " ++ path.spelling) (·.copy path (ownLibrary t id))
      return opening entries
    | .executable path => do
      change "Failed to mark executable" (·.makeExecutable path)
      return answered (.ok ⟨entries, some (.executable path)⟩)
  | opening entries => do
    let product ← loadLibrary t (ownLibrary t id)
    return answered (.ok ⟨entries, some product⟩)
  | answered a => return answered a
  | hung => return hung

/-- The point that an operation leads to; one that fails ends the compile. -/
def ofResult : Except Halt (Point σ) → Point σ
  | .ok p => p
  | .error (.fault f) => answered (.error f)
  | .error .never => hung

/-- One operation: the point after it, and the host that it leaves. -/
def step (t : Toolchain ι σ) (id : BuildId) (params : Parameters) (source : Source)
    (p : Point σ) (h : Host ι) : Point σ × Host ι :=
  (ofResult ((p.advance t id params source).run h).1, ((p.advance t id params source).run h).2)

/-- The point of a compile that is over. -/
def ofAnswer : Except Halt (Report (Product σ)) → Point σ
  | .ok r => answered (.ok r)
  | .error (.fault f) => answered (.error f)
  | .error .never => hung

/-- What is left of a compile once its source is known. -/
def compileFile (t : Toolchain ι σ) (id : BuildId) (params : Parameters) (path : Path) :
    Work ι (Report (Product σ)) := do
  let (output, crateName) ← layout t id params.target
  let f ← start t (arguments params t.edition crateName path output)
  conclude t id params.target f

/-- What is left of a compile. -/
def rest (t : Toolchain ι σ) (id : BuildId) (params : Parameters) (source : Source) :
    Point σ → Work ι (Report (Product σ))
  | begin => compile t id params source
  | prepared => materialize t id source params.resources >>= compileFile t id params
  | writing text => writeSource t id params.resources text >>= compileFile t id params
  | sourced path => compileFile t id params path
  | ready path => start t (runArguments t id params path) >>= conclude t id params.target
  | loading entries => do
    let product ← load t id params.target
    return ⟨entries, some product⟩
  | storing entries => match params.target with
    | .inMemory => do
      let product ← loadLibrary t (ownLibrary t id)
      return ⟨entries, some product⟩
    | .library path => do
      change ("Failed to copy " ++ path.spelling) (·.copy path (ownLibrary t id))
      let product ← loadLibrary t (ownLibrary t id)
      return ⟨entries, some product⟩
    | .executable path => do
      change "Failed to mark executable" (·.makeExecutable path)
      return ⟨entries, some (.executable path)⟩
  | opening entries => do
    let product ← loadLibrary t (ownLibrary t id)
    return ⟨entries, some product⟩
  | answered (.ok r) => return r
  | answered (.error f) => fail f
  | hung => throw .never

variable {t : Toolchain ι σ} {id : BuildId} {params : Parameters} {source : Source} {p : Point σ}
  {h : Host ι}

theorem layout_eq (t : Toolchain ι σ) (id : BuildId) (target : Target) :
    layout t id target = do
      let _ ← layout (ι := ι) t id target
      return (output t id target, crateName id target) := by
  cases target with
  | inMemory => simp only [layout, bind_assoc, pure_bind]; rfl
  | library path => rfl
  | executable path => rfl

theorem materialize_text (t : Toolchain ι σ) (id : BuildId) (text : String)
    (resources : List Path) :
    materialize t id (.text text) resources = writeSource t id resources text := rfl

theorem materialize_file (t : Toolchain ι σ) (id : BuildId) (path : Path)
    (resources : List Path) : materialize t id (.file path) resources =
      if resources.isEmpty then pure path
      else (look ("Failed to read " ++ path.spelling) fun files => files.read? path >>= textOf?) >>=
        writeSource t id resources := rfl

theorem rest_ofRun (f : Finished) :
    (ofRun f).rest t id params source = conclude t id params.target f := by
  unfold ofRun conclude
  cases f.judge <;> rfl

theorem rest_eq (h : p.isFinal = false) :
    p.rest t id params source = p.advance t id params source >>= rest t id params source := by
  cases p with
  | begin =>
    simp only [rest, advance, compile, bind_assoc, pure_bind]
    rfl
  | prepared =>
    cases source with
    | text text => simp only [rest, advance, materialize_text, pure_bind]
    | file path =>
      simp only [rest, advance, materialize_file]
      split
      · simp only [pure_bind, rest]
      · simp only [bind_assoc, pure_bind, rest]
  | writing text => simp only [rest, advance, bind_assoc, pure_bind]
  | sourced path =>
    simp only [rest, advance, compileFile, bind_assoc, pure_bind, runArguments]
    rw [layout_eq]
    simp only [bind_assoc, pure_bind]
  | ready path =>
    simp only [advance, bind_assoc, pure_bind, rest_ofRun]
    rfl
  | loading entries =>
    cases htarget : params.target <;>
      simp only [rest, advance, load, htarget, bind_assoc, pure_bind]
  | storing entries =>
    cases htarget : params.target <;>
      simp only [rest, advance, htarget, bind_assoc, pure_bind]
  | opening entries => simp only [rest, advance, bind_assoc, pure_bind]
  | answered a => cases h
  | hung => cases h

/-- **The steps one after the other are the compile.** -/
theorem run_rest_step (hp : p.isFinal = false) (h : Host ι) :
    (p.rest t id params source).run h =
      ((p.step t id params source h).1.rest t id params source).run
        (p.step t id params source h).2 := by
  rw [rest_eq hp, run_bind, step]
  rcases (p.advance t id params source).run h with ⟨(_ | _) | p', h'⟩ <;> rfl

theorem run_rest_of_isFinal (hp : p.isFinal = true) (h : Host ι) :
    ∃ r, (p.rest t id params source).run h = (r, h) ∧ p = ofAnswer r := by
  cases p with
  | answered a =>
    cases a with
    | ok r => exact ⟨.ok r, rfl, rfl⟩
    | error f => exact ⟨.error (.fault f), rfl, rfl⟩
  | hung => exact ⟨.error .never, rfl, rfl⟩
  | begin | prepared | writing | sourced | ready | loading | storing | opening => cases hp

end Point

/-! ## Single operations -/

section Operations

variable {t : Toolchain ι σ} {context : String} {h : Host ι}

theorem run_get_bind {ε : Type} (next : Host ι → ExceptT ε (StateM (Host ι)) α) (h : Host ι) :
    (get >>= next).run h = (next h).run h := rfl

theorem run_lift_bind (m : StateM (Host ι) α) (next : α → Work ι β) (h : Host ι) :
    ((liftM m : Work ι α) >>= next).run h = (next (m h).1).run (m h).2 := rfl

theorem run_bind_eq_ok_iff {w : Work ι α} {next : α → Work ι β} {b : β} {h' : Host ι} :
    (w >>= next).run h = (.ok b, h') ↔
      ∃ a h₁, w.run h = (.ok a, h₁) ∧ (next a).run h₁ = (.ok b, h') := by
  rw [run_bind]
  rcases w.run h with ⟨_ | a, h₁⟩
  · refine iff_of_false ?_ ?_
    · intro heq
      cases heq
    · rintro ⟨a, h₂, heq, -⟩
      cases heq
  · constructor
    · exact fun hrun => ⟨a, h₁, rfl, hrun⟩
    · rintro ⟨a', h₂, heq, hrun⟩
      cases heq
      exact hrun

theorem run_look_eq (context : String) (read : Files ι → Except OsError α) (h : Host ι) :
    (look context read).run h =
      ((read h.files).mapError fun e => .fault (ioFault context e), h) := by
  rw [look, run_get_bind]
  cases read h.files <;> rfl

theorem run_look (context : String) (read : Files ι → Except OsError α) (h : Host ι) :
    (∃ a, read h.files = .ok a ∧ (look context read).run h = (.ok a, h)) ∨
      ∃ f, (look context read).run h = (.error (.fault f), h) := by
  rw [run_look_eq]
  cases hread : read h.files with
  | ok a => exact .inl ⟨a, rfl, rfl⟩
  | error e => exact .inr ⟨_, rfl⟩

theorem run_look_eq_ok_iff {context : String} {read : Files ι → Except OsError α} {a : α}
    {h' : Host ι} :
    (look context read).run h = (.ok a, h') ↔ read h.files = .ok a ∧ h' = h := by
  rw [run_look_eq]
  constructor
  · intro heq
    cases hread : read h.files with
    | ok b =>
      rw [hread] at heq
      cases heq
      exact ⟨rfl, rfl⟩
    | error e =>
      rw [hread] at heq
      cases heq
  · rintro ⟨hread, rfl⟩
    rw [hread]
    rfl

theorem run_change (context : String) (write : Files ι → Except OsError (Files ι)) (h : Host ι) :
    (∃ files, write h.files = .ok files ∧
        (change context write).run h = (.ok (), { h with files })) ∨
      ∃ f, (change context write).run h = (.error (.fault f), h) := by
  rw [change, run_bind]
  rcases run_look context write h with ⟨files, hfiles, hrun⟩ | ⟨f, hrun⟩
  · rw [hrun]
    exact .inl ⟨files, hfiles, rfl⟩
  · rw [hrun]
    exact .inr ⟨f, rfl⟩

theorem run_change_eq_ok_iff {context : String} {write : Files ι → Except OsError (Files ι)}
    {h' : Host ι} : (change context write).run h = (.ok (), h') ↔
      ∃ files, write h.files = .ok files ∧ h' = { h with files } := by
  rw [change, run_bind, run_look_eq]
  constructor
  · intro heq
    cases hwrite : write h.files with
    | ok files =>
      rw [hwrite] at heq
      cases heq
      exact ⟨files, rfl, rfl⟩
    | error e =>
      rw [hwrite] at heq
      cases heq
  · rintro ⟨files, hwrite, rfl⟩
    rw [hwrite]
    rfl

theorem run_ensureDirectories (context : String) (p : Path) (h : Host ι) :
    ((ensureDirectories context p).run h).2 = { h with files := (h.files.makeDirectories p).2 } ∧
      (((ensureDirectories context p).run h).1 = .ok () ∨
        ∃ f, ((ensureDirectories context p).run h).1 = .error (.fault f)) := by
  have hrun : (ensureDirectories context p).run h =
      ((h.files.makeDirectories p).1.mapError fun e => .fault (ioFault context e),
        { h with files := (h.files.makeDirectories p).2 }) := by
    rw [ensureDirectories, run_get_bind]
    rcases h.files.makeDirectories p with ⟨_ | ⟨⟩, files⟩ <;> rfl
  rw [hrun]
  refine ⟨rfl, ?_⟩
  rcases (h.files.makeDirectories p).1 with e | ⟨⟩
  · exact .inr ⟨_, rfl⟩
  · exact .inl rfl

/-- The compiler is not started, or it is run and ends, or it is run and does not end. -/
theorem run_start (t : Toolchain ι σ) (args : List String) (h : Host ι) :
    (∃ f, (start t args).run h = (.error (.fault f), h)) ∨
      (((start t args).run h).2 =
          ⟨(t.run h.starts.length args h.files).2, h.starts ++ [args], h.mapped⟩ ∧
        ((∃ f, (t.run h.starts.length args h.files).1 = some f ∧
            ((start t args).run h).1 = .ok f) ∨
          ((start t args).run h).1 = .error .never)) := by
  cases hstart : startError? h.files t.searchPath t.compiler args with
  | some e =>
    refine .inl ⟨.launch (t.compiler.spelling ++ ": " ++ e.message), ?_⟩
    rw [start, run_get_bind, hstart]
    rfl
  | none =>
    have hrun : (start t args).run h = ((t.run h.starts.length args h.files).1.elim
        (.error .never) .ok,
        ⟨(t.run h.starts.length args h.files).2, h.starts ++ [args], h.mapped⟩) := by
      rw [start, run_get_bind, hstart]
      change ((get >>= _ : Work ι Finished)).run h = _
      rw [run_get_bind]
      rcases t.run h.starts.length args h.files with ⟨_ | f, files⟩ <;> rfl
    rw [hrun]
    refine .inr ⟨rfl, ?_⟩
    cases (t.run h.starts.length args h.files).1 with
    | none => exact .inr rfl
    | some f => exact .inl ⟨f, rfl, rfl⟩

theorem run_openLibrary (t : Toolchain ι σ) (p : Path) (h : Host ι) :
    (openLibrary t p).run h = (openImage? h p).elim (.error (.cannotOpen p loaderErrorText), h)
      fun i => (Library.load? p (t.exports i), { h with mapped := h.mapped ++ [(p, i)] }) := by
  rw [openLibrary, run_get_bind]
  cases openImage? h p with
  | none => rfl
  | some i =>
    rw [Option.elim_some]
    dsimp only
    cases Library.load? p (t.exports i) <;> rfl

/-- A library is opened, and what was mapped is noted. -/
theorem run_loadLibrary (t : Toolchain ι σ) (p : Path) (h : Host ι) :
    (∃ f, (loadLibrary t p).run h = (.error (.fault f), h)) ∨
      ∃ i, openImage? h p = some i ∧
        ((loadLibrary t p).run h).2 = { h with mapped := h.mapped ++ [(p, i)] } ∧
        ((∃ l, Library.load? p (t.exports i) = .ok l ∧
            ((loadLibrary t p).run h).1 = .ok (.library l)) ∨
          ∃ f, ((loadLibrary t p).run h).1 = .error (.fault f)) := by
  rw [loadLibrary, run_lift_bind, run_openLibrary]
  cases openImage? h p with
  | none => exact .inl ⟨_, rfl⟩
  | some i =>
    refine .inr ⟨i, rfl, ?_⟩
    rw [Option.elim_some]
    cases Library.load? p (t.exports i) with
    | ok l => exact ⟨rfl, .inl ⟨l, rfl, rfl⟩⟩
    | error e => exact ⟨rfl, .inr ⟨_, rfl⟩⟩

/-- A source is written to its file, as bytes. -/
theorem run_writeSource (t : Toolchain ι σ) (id : BuildId) (resources : List Path) (text : String)
    (h : Host ι) :
    (∃ bs files, h.files.write (sourceFile t id) (.bytes bs) = .ok files ∧
        (writeSource t id resources text).run h = (.ok (sourceFile t id), { h with files })) ∨
      ∃ f, (writeSource t id resources text).run h = (.error (.fault f), h) := by
  have hget : (get : Work ι (Host ι)).run h = (.ok h, h) := rfl
  rw [writeSource, run_bind, hget]
  dsimp only
  rw [run_bind]
  rcases run_change "Failed to write source file" (·.write (sourceFile t id) (.bytes (Utf8.encode
    (sourceText h.files.current resources text)))) h with ⟨files, hfiles, hrun⟩ | ⟨f, hrun⟩
  · exact .inl ⟨_, files, hfiles, by rw [hrun]; rfl⟩
  · exact .inr ⟨f, by rw [hrun]⟩

end Operations

/-! ## What a step can do -/

namespace Point

variable {t : Toolchain ι σ} {id : BuildId} {params : Parameters} {source : Source} {p p' : Point σ}
  {h h' : Host ι}

/-- The steps that change directories at most. -/
inductive Quiet (target : Target) : Point σ → Point σ → Prop
  | prepared : Quiet target begin prepared
  | writing {text} : Quiet target prepared (writing text)
  | inPlace {path} : Quiet target prepared (sourced path)
  | ready {path} : Quiet target (sourced path) (ready path)
  | storing {entries} (htarget : target ≠ .inMemory) :
    Quiet target (loading entries) (storing entries)
  | unstored {entries} (htarget : target = .inMemory) :
    Quiet target (loading entries) (opening entries)
  | unstored' {entries} (htarget : target = .inMemory) :
    Quiet target (storing entries) (opening entries)
  | marked {entries path} (htarget : target = .executable path) :
    Quiet target (storing entries) (answered (.ok ⟨entries, some (.executable path)⟩))

/-- What a step of a compile does: the point before it, the point after it, and the host that it
leaves. -/
inductive Moves (t : Toolchain ι σ) (id : BuildId) (params : Parameters) (h : Host ι) :
    Point σ → Point σ → Host ι → Prop
  | failed {p f files} (hfiles : Files.Changes Files.Nowhere h.files files) :
    Moves t id params h p (answered (.error f)) { h with files }
  | quiet {p p' files} (hfiles : Files.Changes Files.Nowhere h.files files)
    (hp : Quiet params.target p p') : Moves t id params h p p' { h with files }
  | written {text bs files}
    (hfiles : h.files.write (sourceFile t id) (.bytes bs) = .ok files) :
    Moves t id params h (writing text) (sourced (sourceFile t id)) { h with files }
  | ended {path f}
    (hrun : (t.run h.starts.length (runArguments t id params path) h.files).1 = some f) :
    Moves t id params h (ready path) (ofRun f)
      ⟨(t.run h.starts.length (runArguments t id params path) h.files).2,
        h.starts ++ [runArguments t id params path], h.mapped⟩
  | hung {path} : Moves t id params h (ready path) hung
      ⟨(t.run h.starts.length (runArguments t id params path) h.files).2,
        h.starts ++ [runArguments t id params path], h.mapped⟩
  | copied {entries path files} (htarget : params.target = .library path)
    (hfiles : h.files.copy path (ownLibrary t id) = .ok files) :
    Moves t id params h (storing entries) (opening entries) { h with files }
  | opened {entries i l} (hopen : openImage? h (ownLibrary t id) = some i)
    (hl : Library.load? (ownLibrary t id) (t.exports i) = .ok l) :
    Moves t id params h (opening entries) (answered (.ok ⟨entries, some (.library l)⟩))
      { h with mapped := h.mapped ++ [(ownLibrary t id, i)] }
  | refused {entries i f} (hopen : openImage? h (ownLibrary t id) = some i) :
    Moves t id params h (opening entries) (answered (.error f))
      { h with mapped := h.mapped ++ [(ownLibrary t id, i)] }

theorem step_eq_of_bind {w : Work ι α} {g : α → Point σ}
    (hp : p.advance t id params source = w >>= fun a => pure (g a)) (h : Host ι) :
    p.step t id params source h = (ofResult ((w.run h).1.map g), (w.run h).2) := by
  rw [step, hp, run_bind]
  rcases w.run h with ⟨_ | _, _⟩ <;> rfl

theorem moves_ensureDirectories {context : String} {path : Path}
    (hstep : p.step t id params source h =
      (ofResult (((ensureDirectories context path).run h).1.map fun _ => p'),
        ((ensureDirectories context path).run h).2))
    (hp : Quiet params.target p p') :
    Moves t id params h p (p.step t id params source h).1 (p.step t id params source h).2 := by
  have hfiles := Files.changes_makeDirectories h.files path
  obtain ⟨hhost, hok | ⟨f, hfault⟩⟩ := run_ensureDirectories context path h
  · rw [hstep, hhost, hok]
    exact .quiet hfiles hp
  · rw [hstep, hhost, hfault]
    exact .failed hfiles

theorem moves_look {context : String} {read : Files ι → Except OsError α} {g : α → Point σ}
    (hstep : p.step t id params source h =
      (ofResult (((look context read).run h).1.map g), ((look context read).run h).2))
    (hp : ∀ a, Quiet params.target p (g a)) :
    Moves t id params h p (p.step t id params source h).1 (p.step t id params source h).2 := by
  rw [hstep]
  rcases run_look context read h with ⟨a, -, hrun⟩ | ⟨f, hrun⟩
  · rw [hrun]
    exact .quiet (.refl _ _) (hp a)
  · rw [hrun]
    exact .failed (.refl _ _)

theorem moves_sourced (path : Path) :
    Moves t id params h (sourced path) ((sourced path).step t id params source h).1
      ((sourced path).step t id params source h).2 := by
  cases htarget : params.target with
  | inMemory =>
    have hadvance : (sourced path).advance t id params source =
        ensureDirectories "Failed to create output directory" (ownDirectory t id) >>=
          fun _ => pure (ready path) := by
      simp only [advance, layout, htarget, bind_assoc, pure_bind]
    exact moves_ensureDirectories (step_eq_of_bind hadvance h) .ready
  | library path' | executable path' =>
    have hstep : (sourced path).step t id params source h = (ready path, h) := by
      simp only [step, advance, layout, htarget, pure_bind]
      rfl
    rw [hstep]
    exact .quiet (.refl _ _) .ready

theorem moves_loading (entries : List Entry) :
    Moves t id params h (loading entries) ((loading entries).step t id params source h).1
      ((loading entries).step t id params source h).2 := by
  cases htarget : params.target with
  | inMemory =>
    have hstep : (loading entries).step t id params source h = (opening entries, h) := by
      simp only [step, advance, htarget]
      rfl
    rw [hstep]
    exact .quiet (.refl _ _) (.unstored htarget)
  | library path =>
    have hadvance : (loading entries).advance t id params source =
        ensureDirectories "Failed to create load directory" (ownDirectory t id) >>=
          fun _ => pure (storing entries) := by simp only [advance, htarget]
    exact moves_ensureDirectories (step_eq_of_bind hadvance h) (.storing (by simp [htarget]))
  | executable path =>
    have hadvance : (loading entries).advance t id params source =
        look "Failed to stat executable" (·.stat? path) >>= fun _ => pure (storing entries) := by
      simp only [advance, htarget]
    exact moves_look (step_eq_of_bind hadvance h) fun _ => .storing (by simp [htarget])

theorem moves_storing (entries : List Entry) :
    Moves t id params h (storing entries) ((storing entries).step t id params source h).1
      ((storing entries).step t id params source h).2 := by
  cases htarget : params.target with
  | inMemory =>
    have hstep : (storing entries).step t id params source h = (opening entries, h) := by
      simp only [step, advance, htarget]
      rfl
    rw [hstep]
    exact .quiet (.refl _ _) (.unstored' htarget)
  | library path =>
    have hadvance : (storing entries).advance t id params source =
        change ("Failed to copy " ++ path.spelling) (·.copy path (ownLibrary t id)) >>=
          fun _ => pure (opening entries) := by simp only [advance, htarget]
    rw [step_eq_of_bind hadvance]
    rcases run_change ("Failed to copy " ++ path.spelling) (·.copy path (ownLibrary t id)) h with
      ⟨files, hfiles, hrun⟩ | ⟨f, hrun⟩
    · rw [hrun]
      exact .copied htarget hfiles
    · rw [hrun]
      exact .failed (.refl _ _)
  | executable path =>
    have hadvance : (storing entries).advance t id params source =
        change "Failed to mark executable" (·.makeExecutable path) >>=
          fun _ => pure (answered (.ok ⟨entries, some (.executable path)⟩)) := by
      simp only [advance, htarget]
    rw [step_eq_of_bind hadvance]
    rcases run_change "Failed to mark executable" (·.makeExecutable path) h with
      ⟨files, hfiles, hrun⟩ | ⟨f, hrun⟩
    · rw [hrun]
      exact .quiet (Files.changes_makeExecutable hfiles) (.marked htarget)
    · rw [hrun]
      exact .failed (.refl _ _)

/-- **What a step can do.** -/
theorem moves_step (hp : p.isFinal = false) :
    Moves t id params h p (p.step t id params source h).1 (p.step t id params source h).2 := by
  cases p with
  | begin => exact moves_ensureDirectories (step_eq_of_bind rfl h) .prepared
  | prepared =>
    cases source with
    | text text => exact .quiet (.refl _ _) .writing
    | file path =>
      by_cases hempty : params.resources.isEmpty
      · have hstep : prepared.step t id params (.file path) h = (sourced path, h) := by
          simp only [step, advance, hempty, if_true]
          rfl
        rw [hstep]
        exact .quiet (.refl _ _) .inPlace
      · have hadvance : prepared.advance t id params (.file path) =
            look ("Failed to read " ++ path.spelling) (fun files => files.read? path >>= textOf?)
              >>= fun text => pure (writing text) := by
          simp only [advance, hempty]
          rfl
        exact moves_look (step_eq_of_bind hadvance h) fun _ => .writing
  | writing text =>
    rw [step_eq_of_bind rfl]
    rcases run_writeSource t id params.resources text h with ⟨bs, files, hfiles, hrun⟩ | ⟨f, hrun⟩
    · rw [hrun]
      exact .written hfiles
    · rw [hrun]
      exact .failed (.refl _ _)
  | sourced path => exact moves_sourced path
  | ready path =>
    rw [step_eq_of_bind rfl]
    rcases run_start t (runArguments t id params path) h with
      ⟨f, hrun⟩ | ⟨hhost, ⟨f, hf, hrun⟩ | hrun⟩
    · rw [hrun]
      exact .failed (.refl _ _)
    · rw [hhost, hrun]
      exact .ended hf
    · rw [hhost, hrun]
      exact .hung
  | loading entries => exact moves_loading entries
  | storing entries => exact moves_storing entries
  | opening entries =>
    rw [step_eq_of_bind rfl]
    rcases run_loadLibrary t (ownLibrary t id) h with
      ⟨f, hrun⟩ | ⟨i, hopen, hhost, ⟨l, hl, hrun⟩ | ⟨f, hrun⟩⟩
    · rw [hrun]
      exact .failed (.refl _ _)
    · rw [hhost, hrun]
      exact .opened hopen hl
    · rw [hhost, hrun]
      exact .refused hopen
  | answered a => cases hp
  | hung => cases hp

end Point

/-! ## Ranks and regions -/

namespace Point

variable {t : Toolchain ι σ} {id : BuildId} {params : Parameters} {source : Source} {p p' : Point σ}
  {h h' : Host ι}

/-- The places whose code the next step may change. -/
def region (t : Toolchain ι σ) (id : BuildId) (params : Parameters) (files : Files ι) :
    Point σ → Place → Prop
  | writing _ => fun q => files.locate? (sourceFile t id) = .ok q
  | ready _ => fun q => files.locate? (output t id params.target) = .ok q
  | hung => fun q => files.locate? (output t id params.target) = .ok q
  | storing _ => fun q => files.locate? (ownLibrary t id) = .ok q
  | _ => Files.Nowhere

theorem rank_pos (hp : p.isFinal = false) : 0 < p.rank := by
  cases p <;> simp [isFinal, rank] at hp ⊢

theorem Moves.rank_lt (hm : Moves t id params h p p' h') (hp : p.isFinal = false) :
    p'.rank < p.rank := by
  cases hm with
  | failed => exact rank_pos hp
  | quiet _ hq => cases hq <;> simp [rank]
  | @ended _ f _ =>
    unfold ofRun
    cases f.judge <;> simp [rank]
  | written | hung | copied | opened | refused => simp [rank]

/-- A compile stays in its directory, if the compiler does. -/
theorem Moves.current (ht : ∀ n args files, (t.run n args files).2.current = files.current)
    (hm : Moves t id params h p p' h') : h'.files.current = h.files.current := by
  cases hm with
  | failed hfiles | quiet hfiles => exact hfiles.current
  | written hfiles =>
    obtain ⟨q, x, -, -, rfl⟩ := Files.exists_put_of_write hfiles
    rfl
  | ended | hung => exact ht ..
  | copied _ hfiles =>
    obtain ⟨-, r, -, -, -, -, -, hchanges, -⟩ := Files.changes_copy hfiles
    exact hchanges.current
  | opened | refused => rfl

/-- What is written as a source is no code. -/
theorem Moves.image?_of_writing {text : String} (hm : Moves t id params h (writing text) p' h')
    {q : Place} {i : ι} (hi : h'.files.image? q = some i) : h.files.image? q = some i := by
  cases hm with
  | failed hfiles => exact (hfiles.image q not_false).symm.trans hi
  | quiet _ hq => cases hq
  | written hfiles =>
    obtain ⟨r, x, -, hnode, rfl⟩ := Files.exists_put_of_write hfiles
    by_cases hqr : q = r
    · rw [hqr, Files.image?_put h.files (Files.ne_nil_of_node? hnode)] at hi
      cases hi
    · exact ((Files.changes_put hnode _).image q hqr).symm.trans hi

theorem Moves.mapped (hm : Moves t id params h p p' h') : h'.mapped = h.mapped ∨
    (∃ a, p' = answered a) ∧ ∃ i, h'.mapped = h.mapped ++ [(ownLibrary t id, i)] := by
  cases hm with
  | opened | refused => exact .inr ⟨⟨_, rfl⟩, _, rfl⟩
  | failed | quiet | written | ended | hung | copied => exact .inl rfl

end Point

end LiveBuild.Compiler
