import LiveBuild.Files
import Mathlib.Data.List.Basic

/-!
# What an operation on files changes

Directories stay where they are, and so a path that leads to a place leads there ever after. The
place follows from the path alone (`Files.placeOf`), since there are no links.

* `Files.image?`: the compiled code at a place;
* `Files.Changes`: from some files to others, directories stay, and so does compiled code but in a
  given region. Every operation changes the place that its path leads to, or nothing.
-/

namespace LiveBuild

/-! ## Places of paths -/

namespace Path

theorem splitSlashes_append (xs ys : List Char) :
    splitSlashes (xs ++ '/' :: ys) = splitSlashes xs ++ splitSlashes ys := by
  have hne (zs : List Char) : splitSlashes zs ≠ [] := by
    unfold splitSlashes
    split
    · exact List.cons_ne_nil _ _
    · exact List.cons_ne_nil _ _
    next c cs _ => cases splitSlashes cs <;> exact List.cons_ne_nil _ _
  induction xs with
  | nil => simp [splitSlashes]
  | cons x xs ih =>
    by_cases hx : x = '/'
    · subst hx
      simp only [List.cons_append, splitSlashes, ih]
    · have hcons (zs : List Char) :
          splitSlashes (x :: zs) = Text.consFirst x (splitSlashes zs) := by
        rw [splitSlashes]
        exact fun h => hx h
      rw [List.cons_append, hcons, hcons, ih]
      cases h : splitSlashes xs with
      | nil => exact absurd h (hne xs)
      | cons l ls => rfl

theorem splitSlashes_of_notMem {xs : List Char} (hxs : '/' ∉ xs) : splitSlashes xs = [xs] := by
  induction xs with
  | nil => rfl
  | cons x xs ih =>
    obtain ⟨hx, hxs⟩ := not_or.1 (mt List.mem_cons.2 hxs)
    rw [splitSlashes, ih hxs]
    · rfl
    · exact fun h => hx h.symm

variable {p : Path} {name : String}

/-- A name that can be put at the end of a path, and is not the parent's. -/
structure IsPlain (name : String) : Prop where
  isName : Path.isName name.toList = true
  slash : '/' ∉ name.toList
  parent : name.toList ≠ ['.', '.']

/-- The new name stands after a slash, unless the path is empty. -/
theorem child_cases (p : Path) (name : String) :
    (p.spelling = "" ∧ p.child name = ⟨name⟩) ∨
      ∃ cs, (p.child name).spelling.toList = cs ++ '/' :: name.toList ∧
        (cs ++ ['/']).head? = p.spelling.toList.head? ∧
        (splitSlashes cs).filter Path.isName = p.names := by
  unfold child isEmpty endsWithSlash
  by_cases hempty : p.spelling = ""
  · exact .inl ⟨hempty, by simp [hempty]⟩
  have hne : p.spelling.toList ≠ [] := by simpa using hempty
  refine .inr ?_
  by_cases hslash : p.spelling.toList.getLast? = some '/'
  · obtain ⟨cs, hcs⟩ := List.getLast?_eq_some_iff.1 hslash
    refine ⟨cs, by simp [hcs], by rw [hcs], ?_⟩
    rw [names, segments, hcs, splitSlashes_append, List.filter_append]
    exact (List.append_nil _).symm
  · refine ⟨p.spelling.toList, by simp [hempty, hslash], ?_, rfl⟩
    exact List.head?_append_of_ne_nil _ hne

theorem isAbsolute_child (p : Path) (hname : IsPlain name) :
    (p.child name).isAbsolute = p.isAbsolute := by
  rcases child_cases p name with ⟨hempty, hchild⟩ | ⟨cs, hchild, hhead, -⟩
  · have hne : name.toList.head? ≠ some '/' := fun h =>
      hname.slash (List.mem_of_mem_head? (Option.mem_def.2 h))
    rw [hchild, isAbsolute, isAbsolute, hempty]
    simpa using hne
  · rw [isAbsolute, isAbsolute, hchild, ← hhead]
    cases cs <;> rfl

theorem names_child (p : Path) (hname : IsPlain name) :
    (p.child name).names = p.names ++ [name.toList] := by
  have hsplit : splitSlashes name.toList = [name.toList] := splitSlashes_of_notMem hname.slash
  have hfilter : [name.toList].filter Path.isName = [name.toList] := by
    simp [hname.isName]
  rcases child_cases p name with ⟨hempty, hchild⟩ | ⟨cs, hchild, -, hnames⟩
  · have hnil : p.names = [] := by
      rw [names, segments, hempty]
      rfl
    rw [hnil, hchild, names, segments, hsplit, hfilter, List.nil_append]
  · rw [← hnames, names, segments, hchild, splitSlashes_append, hsplit, List.filter_append, hfilter]

end Path

namespace Files

variable {ι : Type} {fs fs' : Files ι} {p : Path} {q : Place} {name : String}

/-- The place at the end of steps that are taken from a directory, as if every name led on. -/
def walk (here : Place) (steps : Place) : Place :=
  steps.foldl (fun here step =>
    if !Path.isName step then here
    else if step = ['.', '.'] then here.dropLast
    else here ++ [step]) here

/-- The place that a path leads to if the directories on the way are there. -/
def placeOf (fs : Files ι) (p : Path) : Place := walk [] (fs.stepsOf p)

theorem walk_append (here steps steps' : Place) :
    walk here (steps ++ steps') = walk (walk here steps) steps' := List.foldl_append

theorem walk_filter (here steps : Place) :
    walk here (steps.filter Path.isName) = walk here steps := by
  induction steps generalizing here with
  | nil => rfl
  | cons step rest ih =>
    cases h : Path.isName step with
    | true =>
      rw [List.filter_cons_of_pos h]
      exact ih _
    | false =>
      have hstay : walk here (step :: rest) = walk here rest := by simp [walk, h]
      rw [List.filter_cons_of_neg (by simp [h]), hstay, ih]

theorem placeOf_child (fs : Files ι) (p : Path) (hname : Path.IsPlain name) :
    fs.placeOf (p.child name) = fs.placeOf p ++ [name.toList] := by
  have hsteps : (fs.stepsOf (p.child name)).filter Path.isName =
      (fs.stepsOf p).filter Path.isName ++ [name.toList] := by
    have hnames := Path.names_child p hname
    unfold Path.names at hnames
    unfold stepsOf
    rw [Path.isAbsolute_child p hname]
    split
    · exact hnames
    · rw [List.filter_append, List.filter_append, hnames, List.append_assoc]
  have hstep (here : Place) : walk here [name.toList] = here ++ [name.toList] := by
    simp [walk, hname.isName, hname.parent]
  rw [placeOf, ← walk_filter, hsteps, walk_append, walk_filter, hstep, placeOf]

/-- Following steps leads where they lead, or nowhere. -/
theorem eq_walk_of_follow {here steps : Place} (h : fs.follow here steps = .ok q) :
    q = walk here steps := by
  induction steps generalizing here with
  | nil => exact (Except.ok.inj h).symm
  | cons step rest ih =>
    unfold follow at h
    split at h
    next hname =>
      rw [walk, List.foldl_cons, if_pos hname]
      exact ih h
    next hname =>
      rw [walk, List.foldl_cons, if_neg hname]
      split at h
      next hparent =>
        rw [if_pos hparent]
        exact ih h
      next hparent =>
        rw [if_neg hparent]
        split at h
        next hrest =>
          rw [hrest]
          exact (Except.ok.inj h).symm
        · split at h
          · exact ih h
          · cases h
          · cases h

theorem locate?_eq_ok (h : fs.locate? p = .ok q) : fs.follow [] (fs.stepsOf p) = .ok q := by
  unfold locate? at h
  split at h
  · cases h
  · split at h
    · cases h
    · exact h

theorem eq_placeOf (h : fs.locate? p = .ok q) : q = fs.placeOf p :=
  eq_walk_of_follow (locate?_eq_ok h)

/-! ## Changes -/

/-- The compiled code at a place. -/
def image? (fs : Files ι) (q : Place) : Option ι :=
  match fs.node? q with
  | some (.file (.image i) _) => some i
  | _ => none

/-- Directories stay, and so does compiled code outside of a region. -/
structure Changes (region : Place → Prop) (fs fs' : Files ι) : Prop where
  current : fs'.current = fs.current
  directory : ∀ q, fs.node? q = some .directory → fs'.node? q = some .directory
  image : ∀ q, ¬ region q → fs'.image? q = fs.image? q

/-- Nothing changes that is compiled code. -/
abbrev Nowhere : Place → Prop := fun _ => False

namespace Changes

variable {region : Place → Prop}

theorem refl (region : Place → Prop) (fs : Files ι) : Changes region fs fs :=
  ⟨rfl, fun _ h => h, fun _ _ => rfl⟩

theorem mono {region' : Place → Prop} (h : Changes region fs fs')
    (hregion : ∀ q, region q → region' q) : Changes region' fs fs' :=
  ⟨h.current, h.directory, fun q hq => h.image q (mt (hregion q) hq)⟩

theorem of_nowhere (h : Changes Nowhere fs fs') : Changes region fs fs' :=
  h.mono fun _ => False.elim

theorem trans {fs'' : Files ι} (h : Changes region fs fs') (h' : Changes region fs' fs'') :
    Changes region fs fs'' where
  current := h'.current.trans h.current
  directory q hq := h'.directory q (h.directory q hq)
  image q hq := (h'.image q hq).trans (h.image q hq)

theorem follow {here steps : Place} (h : Changes region fs fs')
    (hq : fs.follow here steps = .ok q) : fs'.follow here steps = .ok q := by
  induction steps generalizing here with
  | nil => exact hq
  | cons step rest ih =>
    unfold Files.follow at hq ⊢
    split at hq
    next hname => rw [if_pos hname]; exact ih hq
    next hname =>
      rw [if_neg hname]
      split at hq
      next hparent => rw [if_pos hparent]; exact ih hq
      next hparent =>
        rw [if_neg hparent]
        split at hq
        next hrest => rw [if_pos hrest]; exact hq
        next hrest =>
          rw [if_neg hrest]
          split at hq
          next hnode =>
            rw [h.directory _ hnode]
            exact ih hq
          · cases hq
          · cases hq

/-- A path leads to its place ever after. -/
theorem locate? (h : Changes region fs fs') (hq : fs.locate? p = .ok q) :
    fs'.locate? p = .ok q := by
  have hfollow := h.follow (locate?_eq_ok hq)
  have hsteps : fs'.stepsOf p = fs.stepsOf p := by rw [stepsOf, stepsOf, h.current]
  unfold Files.locate? at hq ⊢
  split at hq
  · cases hq
  next hnul =>
    rw [if_neg hnul]
    split at hq
    · cases hq
    next hempty => rw [if_neg hempty, hsteps, hfollow]

end Changes

theorem image?_eq_some_iff {i : ι} :
    fs.image? q = some i ↔ ∃ x, fs.node? q = some (.file (.image i) x) := by
  unfold image?
  split
  next j x h => simp [h]
  next h => exact iff_of_false (Option.some_ne_none i).symm fun ⟨x, hx⟩ => h i x hx

/-! ## Single nodes -/

theorem node?_put (fs : Files ι) (hq : q ≠ []) (n : Node ι) (r : Place) :
    (fs.put q n).node? r = if r = q then some n else fs.node? r := by
  have hfind : (fs.put q n).nodes.find? (·.1 == r) =
      if r = q then some (q, n) else fs.nodes.find? (·.1 == r) := by
    rw [put, List.find?_append, List.find?_filter]
    split
    next hr =>
      have hnone : (fs.nodes.find? fun e => decide (e.1 != q ∧ e.1 == r)) = none := by
        simp [hr]
      rw [hnone, hr]
      simp
    next hr =>
      have hkey (e : Place × Node ι) : decide (e.1 != q ∧ e.1 == r) = (e.1 == r) := by
        by_cases he : e.1 = r <;> simp [he, hr]
      simp only [hkey]
      simp [Ne.symm hr]
  unfold node?
  rw [hfind]
  by_cases hr : r = q
  · subst hr
    rw [if_neg hq, if_pos rfl, if_pos rfl, Option.map_some]
  · rw [if_neg hr, if_neg hr]

theorem ne_nil_of_node? (h : fs.node? q ≠ some .directory) : q ≠ [] := by
  rintro rfl
  exact h rfl

theorem changes_put (hq : fs.node? q ≠ some .directory) (n : Node ι) :
    Changes (· = q) fs (fs.put q n) where
  current := rfl
  directory r hr := by
    rw [node?_put fs (ne_nil_of_node? hq), if_neg, hr]
    rintro rfl
    exact hq hr
  image r hr := by
    rw [image?, image?, node?_put fs (ne_nil_of_node? hq), if_neg hr]

theorem image?_put (fs : Files ι) (hq : q ≠ []) (n : Node ι) :
    (fs.put q n).image? q = match n with
      | .file (.image i) _ => some i
      | _ => none := by
  rw [image?, node?_put fs hq, if_pos rfl]
  cases n with
  | directory => rfl
  | file c x => cases c <;> rfl

/-- A node is put in place of one with the same code, or of none if it has no code. -/
theorem changes_nowhere_put {n : Node ι} (hq : fs.node? q ≠ some .directory)
    (hn : (fs.put q n).image? q = fs.image? q) : Changes Nowhere fs (fs.put q n) where
  current := rfl
  directory := (changes_put hq n).directory
  image r _ := by
    by_cases hr : r = q
    · rw [hr, hn]
    · exact (changes_put hq n).image r hr

/-! ## Files -/

theorem exists_of_bind_eq_ok {α β : Type} {x : Except OsError α} {next : α → Except OsError β}
    {b : β} (h : (x >>= next) = .ok b) : ∃ a, x = .ok a ∧ next a = .ok b := by
  cases x with
  | error e => cases h
  | ok a => exact ⟨a, rfl, h⟩

theorem stat?_eq_ok {n : Node ι} (h : fs.stat? p = .ok (q, n)) :
    fs.locate? p = .ok q ∧ fs.node? q = some n := by
  obtain ⟨r, hr, h⟩ := exists_of_bind_eq_ok h
  split at h
  next n' hn =>
    obtain ⟨rfl, rfl⟩ := Prod.mk.inj (Except.ok.inj h)
    exact ⟨hr, hn⟩
  · cases h

theorem read?_eq_ok {c : Content ι} (h : fs.read? p = .ok c) :
    ∃ q x, fs.locate? p = .ok q ∧ fs.node? q = some (.file c x) := by
  obtain ⟨⟨q, n⟩, hstat, h⟩ := exists_of_bind_eq_ok h
  obtain ⟨hq, hn⟩ := stat?_eq_ok hstat
  split at h
  next x heq =>
    obtain ⟨rfl, rfl⟩ := Prod.mk.inj heq
    obtain rfl := Except.ok.inj h
    exact ⟨_, x, hq, hn⟩
  · cases h

theorem exists_image?_of_read? {i : ι} (h : fs.read? p = .ok (.image i)) :
    ∃ q, fs.locate? p = .ok q ∧ fs.image? q = some i := by
  obtain ⟨q, x, hq, hn⟩ := read?_eq_ok h
  exact ⟨q, hq, image?_eq_some_iff.2 ⟨x, hn⟩⟩

theorem read?_of_node? {c : Content ι} {x : Bool} (hq : fs.locate? p = .ok q)
    (hn : fs.node? q = some (.file c x)) : fs.read? p = .ok c := by
  have hstat : fs.stat? p = .ok (q, .file c x) := by
    simp only [stat?, hq, bind, Except.bind, hn]
  simp only [read?, hstat, bind, Except.bind]

/-- A file is written to the place that its path leads to. -/
theorem exists_put_of_write {c : Content ι} (h : fs.write p c = .ok fs') :
    ∃ q x, fs.locate? p = .ok q ∧ fs.node? q ≠ some .directory ∧ fs' = fs.put q (.file c x) := by
  obtain ⟨q, hq, h⟩ := exists_of_bind_eq_ok h
  split at h
  · cases h
  next c' x hn => exact ⟨q, x, hq, by simp [hn], (Except.ok.inj h).symm⟩
  next hn =>
    split at h
    · exact ⟨q, false, hq, by simp [hn], (Except.ok.inj h).symm⟩
    · cases h

/-- What is written is read. -/
theorem read?_of_write {c : Content ι} (h : fs.write p c = .ok fs') : fs'.read? p = .ok c := by
  obtain ⟨q, x, hq, hn, rfl⟩ := exists_put_of_write h
  have hnode : (fs.put q (.file c x)).node? q = some (.file c x) := by
    rw [node?_put fs (ne_nil_of_node? hn), if_pos rfl]
  exact read?_of_node? ((changes_put hn _).locate? hq) hnode

/-- Whether a file can be written does not depend on what is written. -/
theorem exists_write_of_write {c : Content ι} (h : fs.write p c = .ok fs') (c' : Content ι) :
    ∃ fs'', fs.write p c' = .ok fs'' := by
  obtain ⟨q, hq, h⟩ := exists_of_bind_eq_ok h
  simp only [write, hq, bind, Except.bind]
  split at h
  · cases h
  · exact ⟨_, rfl⟩
  · split at h
    next hopen => exact ⟨_, if_pos hopen⟩
    · cases h

/-- A copy has the content of its source. -/
theorem changes_copy {source target : Path} (h : fs.copy source target = .ok fs') :
    ∃ q r c x, fs.locate? source = .ok q ∧ fs.node? q = some (.file c x) ∧
      fs.locate? target = .ok r ∧ Changes (· = r) fs fs' ∧ fs'.node? r = some (.file c x) := by
  obtain ⟨⟨q, n⟩, hstat, h⟩ := exists_of_bind_eq_ok h
  obtain ⟨hq, hn⟩ := stat?_eq_ok hstat
  split at h
  · cases h
  next c x heq =>
    obtain ⟨rfl, rfl⟩ := Prod.mk.inj heq
    obtain ⟨fs₁, hwrite, h⟩ := exists_of_bind_eq_ok h
    obtain ⟨r', hr', h⟩ := exists_of_bind_eq_ok h
    obtain rfl := Except.ok.inj h
    obtain ⟨r, y, hr, hnode, rfl⟩ := exists_put_of_write hwrite
    have hput : Changes (· = r) fs (fs.put r (.file c y)) := changes_put hnode _
    have hne : r ≠ [] := ne_nil_of_node? hnode
    -- the target leads to one place before and after it is written
    obtain rfl : r = r' := Except.ok.inj ((hput.locate? hr).symm.trans hr')
    have hnode' : (fs.put r (.file c y)).node? r ≠ some .directory := by
      rw [node?_put fs hne, if_pos rfl]
      nofun
    refine ⟨_, r, c, x, hq, hn, hr, hput.trans (changes_put hnode' _), ?_⟩
    rw [node?_put _ hne, if_pos rfl]

theorem changes_makeExecutable (h : fs.makeExecutable p = .ok fs') : Changes Nowhere fs fs' := by
  obtain ⟨⟨q, n⟩, hstat, h⟩ := exists_of_bind_eq_ok h
  obtain ⟨hq, hn⟩ := stat?_eq_ok hstat
  split at h
  · obtain rfl := Except.ok.inj h
    exact .refl _ fs
  next c x heq =>
    obtain ⟨rfl, rfl⟩ := Prod.mk.inj heq
    obtain rfl := Except.ok.inj h
    have hnode : fs.node? q ≠ some .directory := by simp [hn]
    refine changes_nowhere_put hnode ?_
    rw [image?_put fs (ne_nil_of_node? hnode), image?, hn]
    cases c <;> rfl

/-! ## Directories -/

theorem changes_makeDirectory {steps : Place} (h : fs.makeDirectory steps = .ok fs') :
    Changes Nowhere fs fs' := by
  unfold makeDirectory at h
  split at h
  · cases h
  next name before _ =>
    obtain ⟨parent, -, h⟩ := exists_of_bind_eq_ok h
    split at h
    · cases h
    split at h
    · cases h
    next hnone =>
      split at h
      · obtain rfl := Except.ok.inj h
        have hnode : fs.node? (parent ++ [name]) ≠ some .directory := by simp [hnone]
        refine changes_nowhere_put hnode ?_
        rw [image?_put fs (ne_nil_of_node? hnode), image?, hnone]
      · cases h

theorem changes_ensureDirectory (fs : Files ι) (steps : Place) :
    Changes Nowhere fs (fs.ensureDirectory steps).2 := by
  unfold ensureDirectory
  split
  next h => exact changes_makeDirectory h
  · exact .refl _ fs
  · exact .refl _ fs

theorem changes_makeTree (fs : Files ι) (steps : List Place) :
    Changes Nowhere fs (fs.makeTree steps).2 := by
  induction steps with
  | nil => exact .refl _ fs
  | cons first parents ih =>
    unfold makeTree
    split
    next fs₁ h =>
      split
      next fs₂ h' =>
        rw [h'] at ih
        exact ih.trans (changes_ensureDirectory fs₂ first)
      next e fs₂ h' =>
        rw [h'] at ih
        exact ih
    · exact changes_ensureDirectory fs first

theorem changes_makeDirectories (fs : Files ι) (p : Path) :
    Changes Nowhere fs (fs.makeDirectories p).2 := by
  unfold makeDirectories
  split
  · exact .refl _ fs
  · exact changes_makeTree fs _

end Files

end LiveBuild
