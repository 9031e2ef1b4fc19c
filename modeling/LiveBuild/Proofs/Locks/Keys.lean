import LiveBuild.Proofs.Build.Outcome
import LiveBuild.Proofs.Files.Absolute
import LiveBuild.Proofs.Locks.Interleaving

/-!
# Which paths share a lock

The table of locks is looked up by the absolute forms of output paths, and in it two paths are the
same if their components are. The absolute form keeps a slash at the end of a path, and two at its
beginning, but neither is a component. So what decides is the list of names that a path has behind
those of the current directory.

* `Path.normalNames`: the pieces between the slashes that count, spelled out without the absolute
  form;
* `Path.same_lockKey_iff`: two keys are the same if and only if these names are;
* `Path.lockKey_lockKey`: a key is its own key, to the character;
* `Path.Respelled`: spellings that differ by a slash or a dot, which never separate two paths;
* `Service.shares_lock_iff`: all of it, and what it means for the compiles that run at one time.
-/

namespace LiveBuild

namespace Path

variable {p q cwd : Path} {names : List (List Char)} {cs ds es : List Char}

/-! ## Names that count -/

/-- The pieces between the slashes of a path, behind those of the current directory if the path is
relative. Empty pieces and single dots are left out, and `..` is kept. -/
def normalNames (p cwd : Path) : List (List Char) :=
  let cs := if p.isAbsolute then p.spelling.toList
    else cwd.spelling.toList ++ '/' :: p.spelling.toList
  (cs.splitOn '/').filter fun piece => piece ≠ [] ∧ piece ≠ ['.']

theorem filter_splitOn (cs : List Char) :
    ((cs.splitOn '/').filter fun piece => piece ≠ [] ∧ piece ≠ ['.']) =
      (splitSlashes cs).filter isName := by
  rw [splitSlashes_eq_splitOn]
  refine List.filter_congr fun piece _ => ?_
  rw [isName]
  by_cases hnil : piece = [] <;> by_cases hdot : piece = ['.'] <;> simp [hnil, hdot]

/-- The names that count are those of the absolute form. -/
theorem normalNames_eq (p cwd : Path) :
    p.normalNames cwd = if p.isAbsolute then p.names else cwd.names ++ p.names := by
  unfold normalNames
  rw [filter_splitOn]
  split
  · rfl
  · rw [splitSlashes_append, List.filter_append]
    rfl

/-! ## Keys -/

theorem components_lockKey (h : p.isEmpty = false) :
    (p.lockKey cwd).components = .root :: (p.normalNames cwd).map .name := by
  rw [components, lockKey, isAbsolute_absolute h, names_absolute h, normalNames_eq, if_pos rfl,
    List.singleton_append]

/-- **Two keys are the same if and only if the names that count are.** -/
theorem same_lockKey_iff (hp : p.isEmpty = false) (hq : q.isEmpty = false) :
    (p.lockKey cwd).same (q.lockKey cwd) = true ↔ p.normalNames cwd = q.normalNames cwd := by
  rw [same_iff, components_lockKey hp, components_lockKey hq, List.cons_inj_right]
  exact (List.map_injective_iff.2 fun _ _ => Component.name.inj).eq_iff

/-! ## Keys of keys -/

theorem head?_joinNames (h : ∀ n ∈ names, isName n = true ∧ '/' ∉ n) :
    (joinNames names).head? ≠ some '/' := by
  cases names with
  | nil => exact fun h => by cases h
  | cons n names =>
    obtain ⟨hname, hslash⟩ := h n List.mem_cons_self
    have hne : n ≠ [] := by
      rintro rfl
      cases hname
    have hhead : (joinNames (n :: names)).head? = n.head? := by
      cases names with
      | nil => rw [joinNames, List.intercalate_singleton]
      | cons m names =>
        rw [joinNames, List.intercalate_cons_cons, List.append_assoc]
        exact List.head?_append_of_ne_nil _ hne
    rw [hhead]
    exact fun heq => hslash (List.mem_of_mem_head? (Option.mem_def.2 heq))

theorem lead_cases (cs : List Char) : lead cs = ['/'] ∨ lead cs = ['/', '/'] := by
  unfold lead
  split
  · exact .inl rfl
  · exact .inr rfl
  · exact .inl rfl

/-- A lead is its own lead, before what does not begin with a slash. -/
theorem lead_lead_append (hds : ds.head? ≠ some '/') : lead (lead cs ++ ds) = lead cs := by
  have hno (es : List Char) : ds ≠ '/' :: es := by
    rintro rfl
    exact hds rfl
  rcases lead_cases cs with h | h
  · rw [h, List.singleton_append, lead]
    · exact fun es heq => hno ('/' :: es) (List.cons.inj heq).2
    · exact fun es heq => hno es (List.cons.inj heq).2
  · rw [h, List.cons_append, List.singleton_append, lead]
    exact hno

/-- The absolute form without a slash at its end: a lead, and the names that count. -/
theorem exists_absoluteBody_eq (p cwd : Path) :
    ∃ cs, p.absoluteBody cwd = lead cs ++ joinNames (p.normalNames cwd) := by
  unfold absoluteBody
  rw [normalNames_eq]
  split
  · exact ⟨_, rfl⟩
  · exact ⟨[], rfl⟩

theorem forall_mem_normalNames (p cwd : Path) :
    ∀ n ∈ p.normalNames cwd, isName n = true ∧ '/' ∉ n := by
  rw [normalNames_eq]
  split
  · exact p.forall_mem_names
  · exact List.forall_mem_append.2 ⟨cwd.forall_mem_names, p.forall_mem_names⟩

/-- The absolute form has at its end the slash that the path has. -/
theorem absoluteChars_eq_if (p cwd : Path) : p.absoluteChars cwd =
    if p.endsWithSlash && (p.absoluteBody cwd).getLast? != some '/' then
      p.absoluteBody cwd ++ ['/'] else p.absoluteBody cwd := by
  rw [absoluteChars, ← absoluteBody]

theorem absoluteBody_lockKey (h : p.isEmpty = false) (cwd' : Path) :
    (p.lockKey cwd).absoluteBody cwd' = p.absoluteBody cwd := by
  obtain ⟨cs, hbody⟩ := exists_absoluteBody_eq p cwd
  have hhead := head?_joinNames (forall_mem_normalNames p cwd)
  have hlead : lead (p.absoluteChars cwd) = lead cs := by
    rw [absoluteChars_eq_if, hbody]
    split
    next hslash =>
      -- a slash was added, so there are names before it
      have hne : joinNames (p.normalNames cwd) ≠ [] := by
        intro hnil
        have hlast : (lead cs).getLast? = some '/' := by
          rcases lead_cases cs with h | h <;> rw [h] <;> rfl
        rw [hnil, List.append_nil, hlast] at hslash
        simp at hslash
      rw [List.append_assoc]
      refine lead_lead_append ?_
      rwa [List.head?_append_of_ne_nil _ hne]
    next => exact lead_lead_append hhead
  have hspelling : (p.lockKey cwd).spelling.toList = p.absoluteChars cwd := by
    rw [lockKey, absolute, h, if_neg Bool.false_ne_true, String.toList_ofList]
  have hnames : (p.lockKey cwd).names = p.normalNames cwd := by
    rw [lockKey, names_absolute h, normalNames_eq]
  rw [absoluteBody, lockKey, isAbsolute_absolute h, if_pos rfl, ← lockKey, hspelling, hlead,
    hnames, hbody]

/-- **A key is its own key**, whatever the current directory is by then. -/
theorem lockKey_lockKey (p cwd cwd' : Path) : (p.lockKey cwd).lockKey cwd' = p.lockKey cwd := by
  cases h : p.isEmpty with
  | true =>
    have hkey (c : Path) : p.lockKey c = p := absolute_of_isEmpty h c
    rw [hkey, hkey]
  | false =>
    have hspelling : (p.lockKey cwd).spelling.toList = p.absoluteChars cwd := by
      rw [lockKey, absolute, h, if_neg Bool.false_ne_true, String.toList_ofList]
    have hne : (p.lockKey cwd).isEmpty = false := by
      have habsolute := isAbsolute_absolute h cwd
      rw [← lockKey] at habsolute
      rw [isEmpty, beq_eq_false_iff_ne]
      intro hempty
      rw [isAbsolute, hempty] at habsolute
      cases habsolute
    have hchars : (p.lockKey cwd).absoluteChars cwd' = p.absoluteChars cwd := by
      rw [absoluteChars_eq_if, absoluteBody_lockKey h, endsWithSlash, hspelling,
        absoluteChars_eq_if]
      by_cases hlast : (p.absoluteBody cwd).getLast? = some '/'
      · simp [hlast]
      · cases p.endsWithSlash <;> simp [hlast]
    rw [lockKey, absolute, hne, if_neg Bool.false_ne_true, hchars, ← hspelling,
      String.ofList_toList]

/-! ## Spellings -/

/-- Spellings that differ by one slash or one dot: a doubled slash, also at the beginning, a dot
between slashes, at the end or at the beginning of a relative path, and a slash at the end. -/
inductive Respelled : Path → Path → Prop
  | slash (a b : String) : Respelled ⟨a ++ "//" ++ b⟩ ⟨a ++ "/" ++ b⟩
  | dot (a b : String) : Respelled ⟨a ++ "/./" ++ b⟩ ⟨a ++ "/" ++ b⟩
  | lastDot (a : String) : Respelled ⟨a ++ "/."⟩ ⟨a ++ "/"⟩
  | lastSlash {a : String} (h : a ≠ "") : Respelled ⟨a ++ "/"⟩ ⟨a⟩
  | firstDot {a : String} (h : a ≠ "") (hrelative : (Path.mk a).isAbsolute = false) :
    Respelled ⟨"./" ++ a⟩ ⟨a⟩

theorem isEmpty_eq_false_of_ne (h : p.spelling ≠ "") : p.isEmpty = false := by
  rwa [isEmpty, beq_eq_false_iff_ne]

/-- What stands before and after a slash, as far as it counts. -/
theorem names_of_toList_eq (h : p.spelling.toList = cs ++ '/' :: ds) :
    p.names = (splitSlashes cs).filter isName ++ (splitSlashes ds).filter isName := by
  rw [names, segments, h, splitSlashes_append, List.filter_append]

theorem same_lockKey_of_names_eq (hp : p.spelling ≠ "") (hq : q.spelling ≠ "")
    (hhead : p.spelling.toList.head? = q.spelling.toList.head?) (hnames : p.names = q.names) :
    (p.lockKey cwd).same (q.lockKey cwd) = true := by
  rw [same_lockKey_iff (isEmpty_eq_false_of_ne hp) (isEmpty_eq_false_of_ne hq), normalNames_eq,
    normalNames_eq, isAbsolute, isAbsolute, hhead, hnames]

/-- The head of a text does not depend on what stands behind a slash. -/
theorem head?_append_slash (cs ds es : List Char) :
    (cs ++ '/' :: ds).head? = (cs ++ '/' :: es).head? := by
  cases cs <;> rfl

/-- Spellings that differ behind a slash, and have the same names there. -/
theorem same_lockKey_of_slash (hp : p.spelling.toList = cs ++ '/' :: ds)
    (hq : q.spelling.toList = cs ++ '/' :: es)
    (hnames : (splitSlashes ds).filter isName = (splitSlashes es).filter isName) :
    (p.lockKey cwd).same (q.lockKey cwd) = true := by
  have hne {r : Path} {fs : List Char} (hr : r.spelling.toList = cs ++ '/' :: fs) :
      r.spelling ≠ "" := by
    intro hempty
    rw [hempty] at hr
    simp at hr
  refine same_lockKey_of_names_eq (hne hp) (hne hq) ?_ ?_
  · rw [hp, hq]
    exact head?_append_slash _ _ _
  · rw [names_of_toList_eq hp, names_of_toList_eq hq, hnames]

/-- **Slashes and dots never separate two spellings.** -/
theorem same_lockKey_of_respelled (h : Respelled p q) :
    (p.lockKey cwd).same (q.lockKey cwd) = true := by
  cases h with
  | slash a b =>
    have hp : (a ++ "//" ++ b).toList = a.toList ++ '/' :: '/' :: b.toList := by simp
    have hq : (a ++ "/" ++ b).toList = a.toList ++ '/' :: b.toList := by simp
    exact same_lockKey_of_slash hp hq (filter_splitSlashes_cons _)
  | dot a b =>
    have hp : (a ++ "/./" ++ b).toList = a.toList ++ '/' :: '.' :: '/' :: b.toList := by simp
    have hq : (a ++ "/" ++ b).toList = a.toList ++ '/' :: b.toList := by simp
    refine same_lockKey_of_slash hp hq ?_
    rw [← List.singleton_append, splitSlashes_append, List.filter_append]
    rfl
  | lastDot a =>
    have hp : (a ++ "/.").toList = a.toList ++ '/' :: ['.'] := by simp
    have hq : (a ++ "/").toList = a.toList ++ '/' :: [] := by simp
    exact same_lockKey_of_slash hp hq rfl
  | @lastSlash a ha =>
    have hp : (a ++ "/").toList = a.toList ++ '/' :: [] := by simp
    have hne : a.toList ≠ [] := by simpa using ha
    refine same_lockKey_of_names_eq (by simp) ha ?_ ?_
    · rw [hp]
      exact List.head?_append_of_ne_nil _ hne
    · rw [names_of_toList_eq hp]
      exact List.append_nil _
  | @firstDot a ha hrelative =>
    have hp : ("./" ++ a).toList = ['.'] ++ '/' :: a.toList := by simp
    have hnames : Path.names ⟨"./" ++ a⟩ = Path.names ⟨a⟩ := names_of_toList_eq hp
    have habsolute : (Path.mk ("./" ++ a)).isAbsolute = false := by
      rw [isAbsolute, hp]
      rfl
    rw [same_lockKey_iff (isEmpty_eq_false_of_ne (by simp)) (isEmpty_eq_false_of_ne ha),
      normalNames_eq, normalNames_eq, habsolute, hrelative, hnames]

end Path

/-! ## Compiles -/

namespace Request

/-- The output path of a request that is accepted is not empty. -/
theorem isEmpty_eq_false_of_prepare {r : Request} {fileExists : Path → Bool} {p : Path}
    {input : Parameters × Source} (h : r.prepare fileExists = .ok input)
    (hp : r.outputPath? = some p) : p.isEmpty = false := by
  have htarget := target?_of_prepare h
  rw [Bool.eq_false_iff]
  intro hempty
  rw [target?, hp] at htarget
  split at htarget
  next hmode =>
    rw [outputPath?_eq_none_iff.2 hmode] at hp
    cases hp
  next heq =>
    obtain rfl := Option.some_inj.1 heq
    rw [if_pos hempty] at htarget
    cases htarget
  next heq =>
    obtain rfl := Option.some_inj.1 heq
    rw [if_pos hempty] at htarget
    cases htarget
  next => cases htarget

end Request

namespace Service

open Interleaving LiveBuild.Path

variable {α : Type} {cwd : Path} {fileExists : Path → Bool} {tasks : ℕ → Option (Task α)}
  {t : Task α} {i : ℕ} {k p : Path}

/-- The work of each task, of any number of tasks. -/
def work (cwd : Path) (fileExists : Path → Bool) (tasks : ℕ → Option (Task α)) (i : ℕ) :
    Option Schedule.Work :=
  (tasks i).bind fun t => (t.job cwd fileExists).work

/-- The key of a task is that of its output path, and the path is not empty. -/
theorem keyOf_work (hk : keyOf (work cwd fileExists tasks) i = some k) (ht : tasks i = some t)
    (hp : t.request.outputPath? = some p) : p.isEmpty = false ∧ k = p.lockKey cwd := by
  obtain ⟨w, hw, hkey⟩ := Option.bind_eq_some_iff.1 hk
  rw [work, ht, Option.bind_some] at hw
  cases hprepare : t.request.prepare fileExists with
  | error e => cases (Task.work_job_of_error hprepare).symm.trans hw
  | ok input =>
    obtain rfl := Option.some_inj.1 ((Task.work_job_of_ok hprepare).symm.trans hw)
    rw [lockKey?, Request.path?_of_prepare hprepare, hp, Option.map_some,
      Option.some_inj] at hkey
    exact ⟨Request.isEmpty_eq_false_of_prepare hprepare hp, hkey.symm⟩

/-- **Which compiles share a lock.** Two output paths have one key if and only if the names that
count are the same, so that slashes and dots separate no two spellings; and a key is its own key.
In whatever order compiles take their steps, a compile that writes a path, as a library or as an
executable, has its handle on the lock that the table has for the key of the path, and two of them
have a handle on one lock if and only if the names that count are the same. -/
theorem shares_lock_iff {drops : Prop} :
    (∀ p q cwd : Path, p.isEmpty = false → q.isEmpty = false →
      ((p.lockKey cwd).same (q.lockKey cwd) = true ↔ p.normalNames cwd = q.normalNames cwd)) ∧
    (∀ p q cwd : Path, Respelled p q → (p.lockKey cwd).same (q.lockKey cwd) = true) ∧
    (∀ p cwd cwd' : Path, (p.lockKey cwd).lockKey cwd' = p.lockKey cwd) ∧
    ∀ (cwd : Path) (fileExists : Path → Bool) (tasks : ℕ → Option (Task α)) (s : State)
      (i j l m : ℕ) (t u : Task α) (p q : Path),
      Reachable (work cwd fileExists tasks) drops s → tasks i = some t → tasks j = some u →
      t.request.outputPath? = some p → u.request.outputPath? = some q →
      s.locks.lockOf? i = some l → s.locks.lockOf? j = some m →
      s.locks.lock? (p.lockKey cwd) = some l ∧
        (l = m ↔ p.normalNames cwd = q.normalNames cwd) := by
  refine ⟨fun p q cwd => same_lockKey_iff, fun p q cwd => same_lockKey_of_respelled,
    lockKey_lockKey, ?_⟩
  intro cwd fileExists tasks s i j l m t u p q hs hi hj hp hq hl hm
  obtain ⟨k, hk, hlock⟩ := hs.tied.lock (OutputLocks.mem_handles_of_lockOf? hl)
  obtain ⟨k', hk', hlock'⟩ := hs.tied.lock (OutputLocks.mem_handles_of_lockOf? hm)
  obtain ⟨hpe, rfl⟩ := keyOf_work hk hi hp
  obtain ⟨hqe, rfl⟩ := keyOf_work hk' hj hq
  refine ⟨hlock, ?_⟩
  rw [← same_lockKey_iff hpe hqe]
  constructor
  · rintro rfl
    exact hs.numbered.same_of_lock? hlock hlock'
  · intro hsame
    rw [OutputLocks.lock?_congr hsame, hlock', Option.some_inj] at hlock
    exact hlock.symm

/-- A task that writes a library, or an executable. -/
def outputTask (r : Request) : Task Unit :=
  ⟨{ r with sourceText := some "fn main() \x7b\x7d" }, .ok ⟨[], some ()⟩, 5, 0, 0⟩

/-- Two spellings of one path, as a library and as an executable, and a path through a parent. -/
def spellings : ℕ → Option (Task Unit)
  | 0 => some (outputTask { libraryPath := some ⟨"out"⟩ })
  | 1 => some (outputTask { executablePath := some ⟨"//usr/.//out/"⟩ })
  | 2 => some (outputTask { libraryPath := some ⟨"../usr/out"⟩ })
  | _ => none

/-- The first two compiles have one lock, and the third has another. -/
theorem shares_lock_iff_spellings :
    (Path.lockKey ⟨"out"⟩ ⟨"/usr"⟩).same
      (Path.lockKey ⟨"//usr/.//out/"⟩ ⟨"/usr"⟩) = true ∧
    ∃ s l m, Reachable (work ⟨"/usr"⟩ (fun _ => false) spellings) False s ∧
      s.locks.lock? ⟨"/usr/out"⟩ = some l ∧ s.locks.lockOf? 1 = some l ∧
      s.locks.lockOf? 2 = some m ∧ l ≠ m := by
  have h₁ : Reachable (work ⟨"/usr"⟩ (fun _ => false) spellings) False _ :=
    Reachable.start.step (.take (i := 0) (k := ⟨"/usr/out"⟩) rfl (by decide +kernel))
  have h₂ := h₁.step (.take (i := 1) (k := ⟨"//usr/out/"⟩) rfl (by decide +kernel))
  have h₃ := h₂.step (.take (i := 2) (k := ⟨"/usr/../usr/out"⟩) rfl (by decide +kernel))
  obtain ⟨hiff, -, -, hshares⟩ := @shares_lock_iff Unit False
  obtain ⟨hlock, hone⟩ := hshares _ _ _ _ 0 1 0 0 _ _ ⟨"out"⟩ ⟨"//usr/.//out/"⟩ h₃ rfl rfl
    rfl rfl (by decide +kernel) (by decide +kernel)
  obtain ⟨-, htwo⟩ := hshares _ _ _ _ 0 2 0 1 _ _ ⟨"out"⟩ ⟨"../usr/out"⟩ h₃ rfl rfl
    rfl rfl (by decide +kernel) (by decide +kernel)
  have hkey : Path.lockKey ⟨"out"⟩ ⟨"/usr"⟩ = ⟨"/usr/out"⟩ := by decide +kernel
  rw [hkey] at hlock
  exact ⟨(hiff _ _ _ (by decide) (by decide)).2 (hone.1 rfl), _, 0, 1, h₃, hlock,
    by decide +kernel, by decide +kernel, fun heq => absurd (htwo.1 heq) (by decide +kernel)⟩

end Service

end LiveBuild
