import LiveBuild.Proofs.Compiler.Concurrent
import LiveBuild.Proofs.Compiler.Owned

/-!
# What concurrent compiles know of their outputs

What a compile knows of its output stays true while others go on. From the run of the compiler until
the output is copied, nobody else has the lock of the output; and the copy has a name of its own, so
that nobody else writes it, and the loader has not seen it.

There are two conditions. The compiler must take its source for an input, and its output for a
file; and what a killed compiler has started does not ask for the lock, so it must not come between
the run and the copy.

* `State.IsSeparate`: the condition on the output paths of all compiles;
* `Setup.HasInputs`: the condition on their sources;
* `Keeps`: the condition on the output of one compile;
* `Sound`: what is known of a compile, with `Owned` as a part;
* `Inv`: what is known of all. Every step preserves it (`Inv.step`), so it holds in every reachable
  state (`Reachable.inv`).
-/

namespace LiveBuild.Concurrent

open Compiler Interleaving
open Argument (IsUnmarked)

variable {ι σ : Type} {S : Setup ι σ} {s : State ι σ} {i j : ℕ}

/-! ## Conditions -/

/-- What is known of the compiler and of the identifiers. -/
structure Setup.IsLegal (S : Setup ι σ) : Prop where
  plain : ∀ i, (S.id i).IsPlain
  distinct : Function.Injective fun i => (S.id i).dashed
  /-- No library of a build was opened before. -/
  fresh : ∀ i, ∀ m ∈ S.host.mapped, m.1 ≠ ownLibrary S.toolchain (S.id i)
  writes : S.toolchain.Writes S.emits

/-- Every compile hands over a source that the compiler takes for an input. -/
def Setup.HasInputs (S : Setup ι σ) : Prop :=
  ∀ i fileExists params source, (S.request i).prepare fileExists = .ok (params, source) →
    IsUnmarked (handed S.toolchain (S.id i) params source).spelling

/-- The place is in a directory, or further down. -/
def Within (directory q : Place) : Prop := ∃ name rest, q = directory ++ name :: rest

/-- Output paths that name one file have one lock, and none lies in the directory of a build. -/
structure State.IsSeparate (S : Setup ι σ) (s : State ι σ) : Prop where
  keys : ∀ {i j path path' q}, S.path? i = some path → S.path? j = some path' →
    s.host.files.locate? path = .ok q → s.host.files.locate? path' = .ok q →
    (path.lockKey S.host.files.current).same (path'.lockKey S.host.files.current) = true
  apart : ∀ {i path q}, S.path? i = some path → s.host.files.locate? path = .ok q →
    ∀ j, ¬ Within (s.host.files.placeOf (ownDirectory S.toolchain (S.id j))) q

/-- A compile keeps its output: it is not given up, nothing that a killed compiler has started wrote
the output in between, and by the output the compiler means a file. -/
structure Keeps (S : Setup ι σ) (i : ℕ) (spoiled : Set ℕ) (job : Job σ) : Prop where
  wanted : job.givenUp = false
  clean : i ∉ spoiled
  file : S.path? i ≠ some ⟨"-"⟩

/-- Libraries of different builds are at different places. -/
theorem Setup.IsLegal.eq_of_placeOf_eq (hS : S.IsLegal) {files : Files ι}
    (h : files.placeOf (ownLibrary S.toolchain (S.id i)) =
      files.placeOf (ownLibrary S.toolchain (S.id j))) : i = j := by
  rw [placeOf_ownLibrary files (hS.plain i), placeOf_ownLibrary files (hS.plain j),
    placeOf_ownDirectory files (hS.plain i), placeOf_ownDirectory files (hS.plain j)] at h
  have hdashed := (List.append_inj' (List.append_inj' h rfl).1 rfl).2
  exact hS.distinct (String.toList_injective (List.singleton_inj.1 hdashed))

/-- The library of a build is in its directory. -/
theorem Setup.IsLegal.within (hS : S.IsLegal) {files : Files ι} {q : Place}
    (hq : files.locate? (ownLibrary S.toolchain (S.id i)) = .ok q) :
    Within (files.placeOf (ownDirectory S.toolchain (S.id i))) q :=
  ⟨_, [], (Files.eq_placeOf hq).trans (placeOf_ownLibrary files (hS.plain i))⟩

/-! ## The invariant -/

/-- The loader has not seen the library of a build. -/
def Unmapped (S : Setup ι σ) (i : ℕ) (host : Host ι) : Prop :=
  ∀ m ∈ host.mapped, m.1 ≠ ownLibrary S.toolchain (S.id i)

/-- What is known of a compile that was accepted, from its stage on the table, from the host, from
what its compiler wrote, and from the compiles whose output was spoiled. -/
structure Sound (S : Setup ι σ) (i : ℕ) (stage : Stage) (host : Host ι) (w : Option (Content ι))
    (spoiled : Set ℕ) (job : Job σ) : Prop where
  early : stage.isEarly → job.point = .begin
  late : stage.isLate → job.IsSettled
  prepared : ∃ fileExists, (S.request i).prepare fileExists = .ok (job.params, job.source)
  hands : job.point.Hands S.toolchain (S.id i) job.params job.source
  /-- The loader sees the library when the compile opens it, and not before. -/
  unmapped : (∀ a, job.point ≠ .answered a) → Unmapped S i host
  owned : Keeps S i spoiled job →
    Owned S.toolchain (S.id i) job.params host.files w job.point

/-- What is known of a request on its way. -/
def Known (S : Setup ι σ) (i : ℕ) (stage : Stage) (host : Host ι) (w : Option (Content ι))
    (spoiled : Set ℕ) : Status σ → Prop
  | .awaited => stage = .coming ∧ Unmapped S i host
  | .rejected _ => True
  | .accepted job => Sound S i stage host w spoiled job

/-- What holds in every state that is reached. -/
structure Inv (S : Setup ι σ) (s : State ι σ) : Prop where
  tied : Tied S.work s.lock
  known : ∀ i, Known S i (s.lock.stage i) s.host (s.wrote i) s.spoiled (s.status i)

namespace Sound

variable {stage : Stage} {host : Host ι} {w : Option (Content ι)} {spoiled : Set ℕ} {job : Job σ}

theorem path?_eq (h : Sound S i stage host w spoiled job) :
    S.path? i = job.params.target.path? := by
  obtain ⟨fileExists, hprepare⟩ := h.prepared
  rw [Setup.path?, Request.target?_of_prepare hprepare]
  rfl

/-- The compiler gets a source that it takes for an input. -/
theorem input (h : Sound S i stage host w spoiled job) (hS : S.HasInputs) (path : Path)
    (hp : job.point = .ready path) : IsUnmarked path.spelling := by
  obtain ⟨fileExists, hprepare⟩ := h.prepared
  have hhands := h.hands
  rw [hp] at hhands
  rw [← hhands]
  exact hS _ _ _ _ hprepare

end Sound

theorem Setup.keyOf_work {path : Path} (h : S.path? i = some path) :
    keyOf S.work i = some (path.lockKey S.host.files.current) := by
  obtain ⟨target, htarget, hpath⟩ := Option.bind_eq_some_iff.1 h
  simp [keyOf, Setup.work, htarget, Service.lockKey?, hpath]

namespace Inv

variable {job : Job σ}

theorem sound (h : Inv S s) (hi : s.status i = .accepted job) :
    Sound S i (s.lock.stage i) s.host (s.wrote i) s.spoiled job := by
  have hknown := h.known i
  rwa [hi] at hknown

/-- Between its run and its answer a compile has its lock. -/
theorem inside (h : Inv S s) (hi : s.status i = .accepted job) (hup : job.givenUp = false)
    (hbegin : job.point ≠ .begin) (hanswered : ∀ a, job.point ≠ .answered a) :
    s.lock.stage i = .inside := by
  refine Stage.eq_inside ?_ ?_
  · exact Bool.eq_false_iff.2 fun hearly => hbegin ((h.sound hi).early hearly)
  · refine Bool.eq_false_iff.2 fun hlate => ?_
    rcases (h.sound hi).late hlate with ⟨a, ha⟩ | hgiven
    · exact hanswered a ha
    · rw [hup] at hgiven
      cases hgiven

section Disjoint

variable {job' : Job σ} {q : Place}

/-- Nobody else changes the library of a build. -/
theorem eq_of_region_ownLibrary (h : Inv S s) (hS : S.IsLegal) (hsep : s.IsSeparate S)
    (hj : s.status j = .accepted job')
    (hregion : job'.point.region S.toolchain (S.id j) job'.params s.host.files q)
    (hq : s.host.files.locate? (ownLibrary S.toolchain (S.id i)) = .ok q) : j = i := by
  have hplace := Files.eq_placeOf hq
  have houtput (hq' : s.host.files.locate? (output S.toolchain (S.id j) job'.params.target) =
      .ok q) : j = i := by
    rcases output_cases S.toolchain (S.id j) job'.params.target with hpath | ⟨-, hown⟩
    · exact absurd (hS.within hq) (hsep.apart ((h.sound hj).path?_eq.trans hpath) hq' i)
    · rw [hown] at hq'
      exact hS.eq_of_placeOf_eq ((Files.eq_placeOf hq').symm.trans hplace)
  cases hpoint : job'.point with
  | writing text =>
    rw [hpoint] at hregion
    -- a source file is one level above the libraries
    have hlength := congrArg List.length (hplace.symm.trans (Files.eq_placeOf hregion))
    rw [placeOf_ownLibrary _ (hS.plain i), placeOf_ownDirectory _ (hS.plain i),
      placeOf_sourceFile _ (hS.plain j)] at hlength
    simp at hlength
  | ready | hung =>
    rw [hpoint] at hregion
    exact houtput hregion
  | storing =>
    rw [hpoint] at hregion
    exact hS.eq_of_placeOf_eq ((Files.eq_placeOf hregion).symm.trans hplace)
  | begin | prepared | sourced | loading | opening | answered =>
    rw [hpoint] at hregion
    exact hregion.elim

/-- While a compile has its lock, nobody else changes its output, but for sources that are written
there. -/
theorem eq_of_region_output (h : Inv S s) (hS : S.IsLegal) (hsep : s.IsSeparate S)
    (hi : s.status i = .accepted job) (hstage : s.lock.stage i = .inside)
    (hj : s.status j = .accepted job')
    (hrun : job'.point.isRunning → s.lock.stage j = .inside)
    (hwriting : ∀ text, job'.point ≠ .writing text)
    (hregion : job'.point.region S.toolchain (S.id j) job'.params s.host.files q)
    (hq : s.host.files.locate? (output S.toolchain (S.id i) job.params.target) = .ok q) :
    j = i := by
  rcases output_cases S.toolchain (S.id i) job.params.target with hpath | ⟨-, hown⟩
  swap
  · rw [hown] at hq
    exact h.eq_of_region_ownLibrary hS hsep hj hregion hq
  have hpath := (h.sound hi).path?_eq.trans hpath
  have houtput (hq' : s.host.files.locate? (output S.toolchain (S.id j) job'.params.target) =
      .ok q) (hj' : s.lock.stage j = .inside) : j = i := by
    rcases output_cases S.toolchain (S.id j) job'.params.target with hpath' | ⟨-, hown⟩
    · have hpath' := (h.sound hj).path?_eq.trans hpath'
      -- one file, one key, and at most one compile that holds its lock
      refine h.tied.alone (by rw [hj']; rfl) (by rw [hstage]; rfl) (Setup.keyOf_work hpath')
        (Setup.keyOf_work hpath) (hsep.keys hpath' hpath hq' hq)
    · rw [hown] at hq'
      exact absurd (hS.within hq') (hsep.apart hpath hq j)
  cases hpoint : job'.point with
  | writing text => exact absurd hpoint (hwriting text)
  | ready | hung =>
    rw [hpoint] at hregion hrun
    exact houtput hregion (hrun rfl)
  | storing =>
    rw [hpoint] at hregion
    exact absurd (hS.within hregion) (hsep.apart hpath hq j)
  | begin | prepared | sourced | loading | opening | answered =>
    rw [hpoint] at hregion
    exact hregion.elim

/-- A change by one compile leaves the output of the compile that has the lock, but for sources that
are written there. -/
theorem image?_output_of_changes (h : Inv S s) (hS : S.IsLegal) (hsep : s.IsSeparate S)
    {files : Files ι} (hj : s.status j = .accepted job')
    (hrun : job'.point.isRunning → s.lock.stage j = .inside)
    (hc : Files.Changes (job'.point.region S.toolchain (S.id j) job'.params s.host.files)
      s.host.files files)
    (hwriting : ∀ text, job'.point = .writing text → ∀ q img, files.image? q = some img →
      s.host.files.image? q = some img)
    (hne : j ≠ i) (hi : s.status i = .accepted job) (hup : job.givenUp = false)
    (hbuilt : job.point.isBuilt) {img : ι}
    (hq : s.host.files.locate? (output S.toolchain (S.id i) job.params.target) = .ok q)
    (himg : files.image? q = some img) : s.host.files.image? q = some img := by
  have hstage : s.lock.stage i = .inside :=
    h.inside hi hup (fun hp => by simp [hp, Point.isBuilt] at hbuilt)
      fun a hp => by simp [hp, Point.isBuilt] at hbuilt
  by_cases hregion : job'.point.region S.toolchain (S.id j) job'.params s.host.files q
  · by_cases htext : ∃ text, job'.point = .writing text
    · obtain ⟨text, htext⟩ := htext
      exact hwriting text htext q img himg
    · exact absurd (h.eq_of_region_output hS hsep hi hstage hj hrun
        (fun text ht => htext ⟨text, ht⟩) hregion hq) hne
  · exact (hc.image q hregion).symm.trans himg

/-- **A change by one compile keeps what is known of another**, if it leaves an output that is still
to be copied. -/
theorem owned_of_changes (h : Inv S s) (hS : S.IsLegal) (hsep : s.IsSeparate S) {files : Files ι}
    (hj : s.status j = .accepted job')
    (hc : Files.Changes (job'.point.region S.toolchain (S.id j) job'.params s.host.files)
      s.host.files files)
    (hne : j ≠ i)
    (houtput : job.point.isBuilt → ∀ q img,
      s.host.files.locate? (output S.toolchain (S.id i) job.params.target) = .ok q →
      files.image? q = some img → s.host.files.image? q = some img)
    (howned : Owned S.toolchain (S.id i) job.params s.host.files (s.wrote i) job.point) :
    Owned S.toolchain (S.id i) job.params files (s.wrote i) job.point := by
  have hown {q : Place} (hq : s.host.files.locate? (ownLibrary S.toolchain (S.id i)) = .ok q) :
      ¬ job'.point.region S.toolchain (S.id j) job'.params s.host.files q := fun hregion =>
    hne (h.eq_of_region_ownLibrary hS hsep hj hregion hq)
  cases hpoint : job.point with
  | loading | storing =>
    rw [hpoint] at howned houtput
    exact howned.of_changes hc (houtput rfl)
  | opening =>
    rw [hpoint] at howned
    exact howned.of_changes hc fun q img hq => (hc.image q (hown hq)).symm.trans
  | answered a =>
    cases a with
    | ok r =>
      rw [hpoint] at howned
      exact fun l hl => (howned l hl).of_changes hc fun q hq => hown hq
    | error f => trivial
  | begin | prepared | writing | sourced | ready | hung => trivial

end Disjoint

/-! ## Steps -/

theorem start (hS : S.IsLegal) : Inv S S.start := ⟨.start, fun i => ⟨rfl, hS.fresh i⟩⟩

theorem reject (h : Inv S s) {e : Rejection} :
    Inv S { s with
      lock := s.lock.go i .ended
      status := Function.update s.status i (.rejected e) } := by
  refine ⟨h.tied.go_of_le nofun nofun, fun k => ?_⟩
  by_cases hki : k = i
  · subst hki
    simp only [Function.update_self]
    trivial
  · simp only [Function.update_of_ne hki, Interleaving.State.go_stage_of_ne hki]
    exact h.known k

theorem accept (h : Inv S s) {params : Parameters} {source : Source}
    (hs : s.status i = .awaited)
    (hr : (S.request i).prepare s.host.files.pathExists = .ok (params, source)) :
    Inv S { s with
      status := Function.update s.status i
        (.accepted ⟨params, source, .begin, false, false⟩) } := by
  obtain ⟨hstage, hunmapped⟩ : s.lock.stage i = .coming ∧ Unmapped S i s.host := by
    have hknown := h.known i
    rwa [hs] at hknown
  refine ⟨h.tied, (Function.forall_update_iff s.status fun k status =>
    Known S k (s.lock.stage k) s.host (s.wrote k) s.spoiled status).2 ⟨?_, fun k _ => h.known k⟩⟩
  exact {
    early := fun _ => rfl
    late := by rw [hstage]; nofun
    prepared := ⟨_, hr⟩
    hands := trivial
    unmapped := fun _ => hunmapped
    owned := fun _ => trivial }

theorem turn (h : Inv S s) {lock : Interleaving.State}
    (hstep : Interleaving.Step S.work S.drops s.lock lock) (ha : s.Admits lock) :
    Inv S { s with lock } := by
  refine ⟨h.tied.step hstep, fun k => ?_⟩
  have hknown := h.known k
  by_cases hsame : lock.stage k = s.lock.stage k
  · simpa only [hsame] using hknown
  · obtain ⟨job, hjob, hsettled⟩ := ha k hsame
    have hsound := h.sound hjob
    simp only [hjob]
    exact {
      early := fun hearly => hsound.early (hstep.isEarly hearly)
      late := hsettled
      prepared := hsound.prepared
      hands := hsound.hands
      unmapped := hsound.unmapped
      owned := hsound.owned }

theorem giveUp (h : Inv S s) (hi : s.status i = .accepted job) :
    Inv S { s with status := Function.update s.status i (.accepted job.giveUp) } := by
  have hsound := h.sound hi
  refine ⟨h.tied, (Function.forall_update_iff s.status fun k status =>
    Known S k (s.lock.stage k) s.host (s.wrote k) s.spoiled status).2
      ⟨?_, fun k _ => h.known k⟩⟩
  exact {
    early := hsound.early
    late := fun _ => .inr rfl
    prepared := hsound.prepared
    hands := hsound.hands
    unmapped := hsound.unmapped
    owned := fun hkeeps => nomatch hkeeps.wanted }

/-- A running compiler changes its output, and more compiles may be spoiled. -/
theorem change (h : Inv S s) {files : Files ι} {spoiled : Set ℕ}
    (hi : s.status i = .accepted job) (hp : job.point.isRunning)
    (howned : ∀ k job', i ≠ k → s.status k = .accepted job' → Keeps S k spoiled job' →
      Owned S.toolchain (S.id k) job'.params files (s.wrote k) job'.point) :
    Inv S { s with host := { s.host with files }, spoiled } := by
  refine ⟨h.tied, fun k => ?_⟩
  have hknown := h.known k
  cases hk : s.status k with
  | awaited | rejected =>
    rw [hk] at hknown
    exact hknown
  | accepted job' =>
    have hsound := h.sound hk
    refine ⟨hsound.early, hsound.late, hsound.prepared, hsound.hands, hsound.unmapped,
      fun hkeeps => ?_⟩
    by_cases hik : i = k
    · subst hik
      obtain rfl : job = job' := Status.accepted.inj (hi.symm.trans hk)
      cases hpoint : job.point <;> first | trivial | simp [hpoint, Point.isRunning] at hp
    · exact howned k job' hik hk hkeeps

theorem scribble (h : Inv S s) (hS : S.IsLegal) (hsep : s.IsSeparate S) {files : Files ι}
    (hi : s.status i = .accepted job) (hp : job.point.isRunning)
    (hstage : s.lock.stage i = .inside)
    (hfiles : Files.Changes (job.point.region S.toolchain (S.id i) job.params s.host.files)
      s.host.files files) :
    Inv S { s with host := { s.host with files } } := by
  refine h.change hi hp fun k job' hik hk hkeeps => ?_
  refine h.owned_of_changes hS hsep hi hfiles hik (fun hbuilt q img hq => ?_)
    ((h.sound hk).owned hkeeps)
  refine h.image?_output_of_changes hS hsep hi (fun _ => hstage) hfiles (fun text htext => ?_) hik
    hk hkeeps.wanted hbuilt hq
  simp [htext, Point.isRunning] at hp

/-- What a killed compiler has started may come between a run and the copy, but then the compile is
spoiled. -/
theorem stray (h : Inv S s) (hS : S.IsLegal) (hsep : s.IsSeparate S) {files : Files ι}
    (hi : s.status i = .accepted job) (hp : job.point.isRunning)
    (hfiles : Files.Changes (job.point.region S.toolchain (S.id i) job.params s.host.files)
      s.host.files files) :
    Inv S { s with
      host := { s.host with files }
      spoiled := s.spoiled ∪
        s.exposed S (job.point.region S.toolchain (S.id i) job.params s.host.files) } := by
  refine h.change hi hp fun k job' hik hk hkeeps => ?_
  obtain ⟨hbefore, hhidden⟩ := not_or.1 hkeeps.clean
  refine h.owned_of_changes hS hsep hi hfiles hik (fun hbuilt q img hq himg => ?_)
    ((h.sound hk).owned ⟨hkeeps.wanted, hbefore, hkeeps.file⟩)
  have hregion : ¬ job.point.region S.toolchain (S.id i) job.params s.host.files q :=
    fun hregion => hhidden ⟨job', q, hk, hbuilt, hq, hregion⟩
  exact (hfiles.image q hregion).symm.trans himg

theorem ownLibrary_ne (hS : S.IsLegal) (hij : i ≠ j) :
    ownLibrary S.toolchain (S.id i) ≠ ownLibrary S.toolchain (S.id j) := fun h =>
  hij (hS.eq_of_placeOf_eq (congrArg S.host.files.placeOf h))

/-- A compile opens no library but its own. -/
theorem unmapped_of_moves (hS : S.IsLegal) {p p' : Point σ} {host : Host ι}
    (hm : Point.Moves S.toolchain (S.id i) job.params s.host p p' host) (hij : i ≠ j)
    (h : Unmapped S j s.host) : Unmapped S j host := by
  rcases hm.mapped with hmapped | ⟨-, img, hmapped⟩
  · rwa [Unmapped, hmapped]
  · rw [Unmapped, hmapped]
    intro m hm
    rcases List.mem_append.1 hm with hm | hm
    · exact h m hm
    · obtain rfl := List.mem_singleton.1 hm
      exact ownLibrary_ne hS hij

/-- What a compile knows of itself after its step. -/
theorem sound_work (h : Inv S s) (hS : S.IsLegal) (hinputs : S.HasInputs)
    (hi : s.status i = .accepted job) (hp : job.point.isFinal = false)
    (hstage : (s.lock.stage i).isEarly = false) :
    Sound S i (s.lock.stage i) (S.next i job s.host).2 (S.written i job s.host (s.wrote i))
      s.spoiled { job with point := (S.next i job s.host).1 } := by
  have hsound := h.sound hi
  have hm : Point.Moves S.toolchain (S.id i) job.params s.host job.point
      (S.next i job s.host).1 (S.next i job s.host).2 := Point.moves_step hp
  have hunanswered : ∀ a, job.point ≠ .answered a := fun a ha => by simp [ha, Point.isFinal] at hp
  refine ⟨fun hearly => ?_, fun hlate => ?_, hsound.prepared, hsound.hands.step hp,
    fun hnew => ?_, fun hnext => ?_⟩
  · rw [hstage] at hearly
    cases hearly
  · exact .inr ((hsound.late hlate).resolve_left (not_exists.2 hunanswered))
  · rcases hm.mapped with hmapped | ⟨⟨a, ha⟩, -⟩
    · rw [Unmapped, hmapped]
      exact hsound.unmapped hunanswered
    · exact absurd ha (hnew a)
  · have hkeeps : Keeps S i s.spoiled job := ⟨hnext.wanted, hnext.clean, hnext.file⟩
    cases hready : job.point.isReady with
    | false =>
      have hwritten : S.written i job s.host (s.wrote i) = s.wrote i := by
        unfold Setup.written
        cases hpoint : job.point <;> first | rfl | simp [hpoint, Point.isReady] at hready
      rw [hwritten]
      exact owned_of_moves hm (hsound.unmapped hunanswered) (hsound.owned hkeeps) hready
    | true =>
      obtain ⟨path, hpoint⟩ : ∃ path, job.point = .ready path := by
        cases hpoint : job.point <;> simp [hpoint, Point.isReady] at hready ⊢
      have hwritten : S.written i job s.host (s.wrote i) = S.emits s.host.starts.length
          (runArguments S.toolchain (S.id i) job.params path) s.host.files := by
        rw [Setup.written, hpoint]
      have hinput := hsound.input hinputs path hpoint
      rw [hwritten]
      rw [hpoint] at hm
      generalize (S.next i job s.host).1 = p', (S.next i job s.host).2 = host at hm ⊢
      cases hm with
      | failed | hung => trivial
      | quiet _ hq => cases hq
      | ended hrun => exact owned_ofRun hS.writes hinput (hsound.path?_eq ▸ hkeeps.file) hrun

theorem work (h : Inv S s) (hS : S.IsLegal) (hinputs : S.HasInputs) (hsep : s.IsSeparate S)
    (hi : s.status i = .accepted job) (hp : job.point.isFinal = false)
    (hstage : (s.lock.stage i).isEarly = false)
    (hrun : job.point.isReady → s.lock.stage i = .inside) : Inv S (s.work S i job) := by
  have hm : Point.Moves S.toolchain (S.id i) job.params s.host job.point
      (S.next i job s.host).1 (S.next i job s.host).2 := Point.moves_step hp
  refine ⟨h.tied, fun k => ?_⟩
  by_cases hik : i = k
  · subst hik
    simp only [State.work, Function.update_self]
    exact h.sound_work hS hinputs hi hp hstage
  simp only [State.work, Function.update_of_ne (Ne.symm hik)]
  have hknown := h.known k
  cases hk : s.status k with
  | awaited =>
    rw [hk] at hknown
    exact ⟨hknown.1, unmapped_of_moves hS hm hik hknown.2⟩
  | rejected => trivial
  | accepted job' =>
    have hsound := h.sound hk
    have hc := hm.changes hS.writes ((h.sound hi).input hinputs)
    refine ⟨hsound.early, hsound.late, hsound.prepared, hsound.hands,
      fun hnew => unmapped_of_moves hS hm hik (hsound.unmapped hnew), fun hkeeps => ?_⟩
    refine h.owned_of_changes hS hsep hi hc hik (fun hbuilt q img hq => ?_)
      (hsound.owned hkeeps)
    refine h.image?_output_of_changes hS hsep hi ?_ hc ?_ hik hk hkeeps.wanted hbuilt hq
    · intro hrunning
      refine hrun ?_
      cases hpoint : job.point <;> simp [hpoint, Point.isRunning, Point.isFinal] at hp hrunning ⊢
      rfl
    · intro text htext q img himg
      rw [htext] at hm
      exact hm.image?_of_writing himg

/-- **Every step of every compile preserves the invariant.** -/
theorem step {s' : State ι σ} (h : Inv S s) (hS : S.IsLegal) (hinputs : S.HasInputs)
    (hsep : s.IsSeparate S)
    (hstep : Step S s s') : Inv S s' := by
  cases hstep with
  | reject => exact h.reject
  | accept hs hr => exact h.accept hs hr
  | turn hturn ha => exact h.turn hturn ha
  | work hs hp hstage hrun => 
    exact h.work hS hinputs hsep hs hp hstage fun hready => (hrun hready).1
  | scribble hs hp hrun hfiles => exact h.scribble hS hsep hs hp hrun.1 hfiles
  | giveUp hs => exact h.giveUp hs
  | stray hs _ hp hfiles => exact h.stray hS hsep hs hp hfiles

end Inv

end LiveBuild.Concurrent
