import LiveBuild.Proofs.Compiler.Arguments

/-!
# What a compile knows of its output

Once its compiler has ended well, the output of a build holds what the compiler wrote. The library
is loaded from the output itself, or from a copy of it, and in both cases from a path that is named
after the build.

* `Toolchain.Writes`: what is known of a compiler. A run with an input changes its output only, and
  one that ends well has written it;
* `BuildId.IsPlain`: the paths that are named after a build, as places (`placeOf_ownLibrary`);
* `Point.Hands`: the file that a compile hands to its compiler, by each point (`Hands.step`);
* `Holds`, `Loaded`: code at the end of a path, or in a library, is what a run wrote;
* `Owned`: what is known at each point of a compile (`owned_of_moves`).
-/

namespace LiveBuild.Compiler

open Argument

variable {ι σ : Type} {t : Toolchain ι σ} {id : BuildId} {params : Parameters} {source : Source}
  {h h' : Host ι} {files files' : Files ι} {emits : ℕ → List String → Files ι → Option (Content ι)}

/-! ## What a compiler does -/

/-- A compiler as its manual has it. A run with an input writes its output and nothing else, and one
that ends well has written it, unless the output is `-`, by which the compiler means its own output
stream; `emits` is what it writes. Nothing is said of a run whose source is no input, but an option
or a file of arguments: a source `-V` asks for the version, and that ends well, too. -/
structure Toolchain.Writes (t : Toolchain ι σ)
    (emits : ℕ → List String → Files ι → Option (Content ι)) : Prop where
  changes : ∀ n id params source files, IsUnmarked source.spelling → Files.Changes
    (fun q => files.locate? (output t id params.target) = .ok q) files
    (t.run n (runArguments t id params source) files).2
  emitted : ∀ n id params source files c, IsUnmarked source.spelling →
    emits n (runArguments t id params source) files = some c →
    ∃ q x, files.locate? (output t id params.target) = .ok q ∧
      (t.run n (runArguments t id params source) files).2.node? q = some (.file c x)
  success : ∀ n id params source files f, IsUnmarked source.spelling →
    params.target.path? ≠ some ⟨"-"⟩ →
    (t.run n (runArguments t id params source) files).1 = some f → f.status.isSuccess →
    (emits n (runArguments t id params source) files).isSome

/-! ## Names of their own -/

/-- The identifier of a build is spelled as one name of a path. -/
structure BuildId.IsPlain (id : BuildId) : Prop where
  dashed : Path.IsPlain id.dashed
  digits : '/' ∉ id.digits.toList

section Names

variable (fs : Files ι)

theorem placeOf_ownDirectory (hid : id.IsPlain) :
    fs.placeOf (ownDirectory t id) = fs.placeOf t.workDir ++ [id.dashed.toList] :=
  Files.placeOf_child fs t.workDir hid.dashed

theorem isPlain_libraryName (hid : id.IsPlain) :
    Path.IsPlain ("lib" ++ ownCrateName id ++ ".so") where
  isName := by simp [ownCrateName, String.toList_append, Path.isName]
  slash := by simp [ownCrateName, String.toList_append, hid.digits]
  parent := by simp [ownCrateName, String.toList_append]

theorem isPlain_sourceName (hid : id.IsPlain) : Path.IsPlain (id.dashed ++ ".rs") := by
  have hlast : (id.dashed ++ ".rs").toList.getLast? = some 's' := by
    simp [String.toList_append]
  have hne {cs : List Char} (hcs : cs.getLast? ≠ some 's') : (id.dashed ++ ".rs").toList ≠ cs :=
    fun h => hcs (h ▸ hlast)
  refine ⟨?_, by simp [String.toList_append, hid.dashed.slash], hne (by decide)⟩
  rw [Path.isName, Bool.and_eq_true, bne_iff_ne, bne_iff_ne]
  exact ⟨hne (by decide), hne (by decide)⟩

theorem placeOf_ownLibrary (hid : id.IsPlain) :
    fs.placeOf (ownLibrary t id) = fs.placeOf (ownDirectory t id) ++
      [("lib" ++ ownCrateName id ++ ".so").toList] :=
  Files.placeOf_child fs _ (isPlain_libraryName hid)

theorem placeOf_sourceFile (hid : id.IsPlain) :
    fs.placeOf (sourceFile t id) = fs.placeOf t.workDir ++ [(id.dashed ++ ".rs").toList] :=
  Files.placeOf_child fs _ (isPlain_sourceName hid)

end Names

theorem output_cases (t : Toolchain ι σ) (id : BuildId) (target : Target) :
    target.path? = some (output t id target) ∨
      target.path? = none ∧ output t id target = ownLibrary t id := by
  cases target with
  | inMemory => exact .inr ⟨rfl, rfl⟩
  | library | executable => exact .inl rfl

namespace Point

variable {p p' : Point σ}

/-- The file that a compile hands to its compiler, as far as it is known at a point. -/
def Hands (t : Toolchain ι σ) (id : BuildId) (params : Parameters) (source : Source) :
    Point σ → Prop
  | writing _ => handed t id params source = sourceFile t id
  | sourced path => handed t id params source = path
  | ready path => handed t id params source = path
  | _ => True

theorem Launched.hands {before : List (List String)} (hp : p.Launched t id params source before h) :
    p.Hands t id params source := by
  cases p with
  | writing | sourced | ready => exact hp.2
  | begin | prepared | loading | storing | opening | answered | hung => trivial

/-- Each step hands over what it should. -/
theorem Hands.step (hp : p.Hands t id params source) (hfinal : p.isFinal = false) :
    (p.step t id params source h).1.Hands t id params source := by
  by_cases hprepared : p = prepared
  · subst hprepared
    have hlaunched : prepared.Launched (σ := σ) t id params source h.starts h := rfl
    exact (launched_step_prepared hlaunched).hands
  have hmoves : Moves t id params h p (p.step t id params source h).1
      (p.step t id params source h).2 := moves_step hfinal
  generalize (p.step t id params source h).1 = p', (p.step t id params source h).2 = h' at hmoves
  cases hmoves with
  | failed | hung | copied | opened | refused => trivial
  | written => exact hp
  | @ended _ f _ =>
    unfold ofRun
    cases f.judge <;> trivial
  | quiet _ hq =>
    cases hq with
    | writing | inPlace => exact absurd rfl hprepared
    | ready => exact hp
    | prepared | storing | unstored | unstored' | marked => trivial

theorem Moves.changes (hw : t.Writes emits) (hm : Moves t id params h p p' h')
    (hinput : ∀ path, p = ready path → IsUnmarked path.spelling) :
    Files.Changes (p.region t id params h.files) h.files h'.files := by
  cases hm with
  | failed hfiles | quiet hfiles => exact hfiles.of_nowhere
  | written hfiles =>
    obtain ⟨q, x, hq, hnode, rfl⟩ := Files.exists_put_of_write hfiles
    exact (Files.changes_put hnode _).mono fun r hr => hr ▸ hq
  | ended | hung => exact hw.changes _ _ _ _ _ (hinput _ rfl)
  | copied _ hfiles =>
    obtain ⟨-, r, -, -, -, -, hr, hchanges, -⟩ := Files.changes_copy hfiles
    exact hchanges.mono fun q hq => hq ▸ hr
  | opened | refused => exact .refl _ _

end Point

/-! ## What a run wrote -/

/-- If there is code at the end of the path, it is what was written. -/
def Holds (files : Files ι) (path : Path) (w : Option (Content ι)) : Prop :=
  ∃ q, files.locate? path = .ok q ∧ ∀ img, files.image? q = some img → w = some (.image img)

/-- The library is the code that was written, and this code is in its file. -/
def Loaded (t : Toolchain ι σ) (id : BuildId) (files : Files ι) (w : Option (Content ι))
    (l : Library σ) : Prop :=
  ∃ q img, files.locate? (ownLibrary t id) = .ok q ∧ files.image? q = some img ∧
    w = some (.image img) ∧ Library.load? (ownLibrary t id) (t.exports img) = .ok l

/-- What is known of a compile at each of its points. -/
def Owned (t : Toolchain ι σ) (id : BuildId) (params : Parameters) (files : Files ι)
    (w : Option (Content ι)) : Point σ → Prop
  | .loading _ => Holds files (output t id params.target) w
  | .storing _ => Holds files (output t id params.target) w
  | .opening _ => Holds files (ownLibrary t id) w
  | .answered (.ok r) => ∀ l, r.artifact = some (.library l) → Loaded t id files w l
  | _ => True

variable {w : Option (Content ι)} {region : Place → Prop} {path : Path} {l : Library σ}
  {p p' : Point σ}

theorem Holds.of_changes (hw : Holds files path w) (hc : Files.Changes region files files')
    (hi : ∀ q img, files.locate? path = .ok q → files'.image? q = some img →
      files.image? q = some img) : Holds files' path w := by
  obtain ⟨q, hq, himg⟩ := hw
  exact ⟨q, hc.locate? hq, fun img h => himg img (hi q img hq h)⟩

theorem Loaded.of_changes (hl : Loaded t id files w l) (hc : Files.Changes region files files')
    (hi : ∀ q, files.locate? (ownLibrary t id) = .ok q → ¬ region q) :
    Loaded t id files' w l := by
  obtain ⟨q, img, hq, himg, hw, hload⟩ := hl
  exact ⟨q, img, hc.locate? hq, (hc.image q (hi q hq)).trans himg, hw, hload⟩

/-- A run with an input that ends well leaves what it writes. -/
theorem owned_ofRun (ht : t.Writes emits) {n : ℕ} (hinput : IsUnmarked path.spelling)
    (houtput : params.target.path? ≠ some ⟨"-"⟩) {f : Finished}
    (hf : (t.run n (runArguments t id params path) files).1 = some f) :
    Owned t id params (t.run n (runArguments t id params path) files).2
      (emits n (runArguments t id params path) files) (Point.ofRun f) := by
  unfold Point.ofRun
  cases hjudge : f.judge with
  | sourceErrors entries =>
    intro l hl
    cases hl
  | failure msg => trivial
  | success entries =>
    have hsuccess : f.status.isSuccess = true := by
      unfold Finished.judge at hjudge
      split at hjudge
      · cases hjudge
      · split at hjudge
        next hs => exact hs
        · cases hjudge
    obtain ⟨c, hc⟩ := Option.isSome_iff_exists.1
      (ht.success n id params path files f hinput houtput hf hsuccess)
    obtain ⟨q, x, hq, hnode⟩ := ht.emitted n id params path files c hinput hc
    refine ⟨q, (ht.changes n id params path files hinput).locate? hq, fun img himg => ?_⟩
    obtain ⟨y, hy⟩ := Files.image?_eq_some_iff.1 himg
    rw [hnode] at hy
    cases hy
    exact hc

/-- **A step of a compile keeps what is known of it.** -/
theorem owned_of_moves (hm : Point.Moves t id params h p p' h')
    (hfresh : ∀ m ∈ h.mapped, m.1 ≠ ownLibrary t id) (hp : Owned t id params h.files w p)
    (hready : p.isReady = false) : Owned t id params h'.files w p' := by
  cases hm with
  | failed | refused => trivial
  | written => trivial
  | ended | hung => cases hready
  | quiet hfiles hq =>
    cases hq with
    | prepared | writing | inPlace | ready => trivial
    | storing => exact hp.of_changes hfiles fun q img _ => (hfiles.image q not_false).symm.trans
    | unstored htarget | unstored' htarget =>
      have houtput : output t id params.target = ownLibrary t id := by rw [htarget]; rfl
      simp only [Owned, houtput] at hp
      exact hp.of_changes hfiles fun q img _ => (hfiles.image q not_false).symm.trans
    | marked =>
      intro l hl
      cases hl
  | @copied entries path files htarget hfiles =>
    have houtput : output t id params.target = path := by rw [htarget]; rfl
    simp only [Owned, houtput] at hp
    obtain ⟨q, hq, himg⟩ := hp
    obtain ⟨q', r, c, x, hq', hnode, hr, hchanges, hcopy⟩ := Files.changes_copy hfiles
    obtain rfl : q = q' := Except.ok.inj (hq.symm.trans hq')
    refine ⟨r, hchanges.locate? hr, fun img hi => himg img ?_⟩
    obtain ⟨y, hy⟩ := Files.image?_eq_some_iff.1 hi
    rw [hcopy] at hy
    cases hy
    exact Files.image?_eq_some_iff.2 ⟨_, hnode⟩
  | @opened entries img l hopen hl =>
    intro l' hl'
    cases hl'
    -- the loader has not seen the path, so it maps what is there
    have hnone : h.mapped.find? (·.1 == ownLibrary t id) = none := by
      rw [List.find?_eq_none]
      exact fun m hm => by simpa using hfresh m hm
    have hread : h.files.read? (ownLibrary t id) = .ok (.image img) := by
      unfold openImage? at hopen
      rw [hnone] at hopen
      dsimp only at hopen
      split at hopen
      next i hi => rw [hi, Option.some_inj.1 hopen]
      · cases hopen
    obtain ⟨q, hq, himg⟩ := hp
    obtain ⟨q', hq', hi⟩ := Files.exists_image?_of_read? hread
    obtain rfl : q = q' := Except.ok.inj (hq.symm.trans hq')
    exact ⟨q, img, hq, hi, himg img hi, hl⟩

end LiveBuild.Compiler
