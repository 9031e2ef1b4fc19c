import LiveBuild.Proofs.Text.Search
import LiveBuild.Proofs.Value.Lexemes

/-!
# The first field of a name

In the text of a value, the first string with a given property that is followed by a colon and a
brace is the name of a field: of the first one in the order in which fields are written, at any
depth.

* `Value.first?`: the value of that field;
* `Lexeme.opened?`: what stands behind such a string in a sequence of lexemes;
* `Lexeme.after?_spell`: a search in the text finds the same place;
* `Value.finds_first?`: and there stands the value of that field.
-/

namespace LiveBuild

/-! ## In lexemes -/

namespace Json.Lexeme

variable {p : Option String → Bool} {l : Lexeme} {ls ms rest : List Lexeme} {s : Option String}

/-- The lexeme is a string with the property, and is followed by a colon and a brace. -/
def opens (p : Option String → Bool) : Lexeme → List Lexeme → Bool
  | string s, sign ':' :: sign '{' :: _ => p s
  | _, _ => false

/-- What stands behind the first string with the property that is followed by a colon and a brace,
from the brace on. -/
def opened? (p : Option String → Bool) : List Lexeme → Option (List Lexeme)
  | [] => none
  | l :: ls => if opens p l ls then some ls.tail else opened? p ls

theorem opens_iff : opens p l ls = true ↔
    ∃ s rest, l = string s ∧ ls = sign ':' :: sign '{' :: rest ∧ p s = true := by
  unfold opens
  split
  next s rest => simp
  next hno =>
    refine iff_of_false Bool.false_ne_true ?_
    rintro ⟨s, rest, rfl, rfl, -⟩
    exact hno s rest rfl rfl

theorem opened?_cons_of_not (h : opens p l ls = false) : opened? p (l :: ls) = opened? p ls := by
  rw [opened?, h, if_neg Bool.false_ne_true]

theorem opened?_sign (c : Char) (ls : List Lexeme) : opened? p (sign c :: ls) = opened? p ls :=
  opened?_cons_of_not rfl

theorem opened?_signs_append (cs : List Char) (ls : List Lexeme) :
    opened? p (signs cs ++ ls) = opened? p ls := by
  induction cs with
  | nil => rfl
  | cons c cs ih => exact (opened?_sign c _).trans ih

/-- A string without the property is passed over. -/
theorem opened?_string_of_not (hs : p s = false) (ls : List Lexeme) :
    opened? p (string s :: ls) = opened? p ls := by
  refine opened?_cons_of_not (Bool.eq_false_iff.2 fun h => ?_)
  obtain ⟨t, rest, ht, -, hp⟩ := opens_iff.1 h
  obtain rfl := Lexeme.string.inj ht
  rw [hs] at hp
  cases hp

/-- A string that is followed by another sign than a colon is passed over. -/
theorem opened?_string_sign {c : Char} (hc : c ≠ ':') (ls : List Lexeme) :
    opened? p (string s :: sign c :: ls) = opened? p ls := by
  refine (opened?_cons_of_not (Bool.eq_false_iff.2 fun h => ?_)).trans (opened?_sign c ls)
  obtain ⟨t, rest, -, heq, -⟩ := opens_iff.1 h
  exact hc (Lexeme.sign.inj (List.cons.inj heq).1)

/-- What stands behind any such string is the end of what stands behind the first one. -/
theorem exists_opened?_of_suffix (hs : p s = true)
    (h : string s :: sign ':' :: sign '{' :: rest <:+ ls) :
    ∃ ms, opened? p ls = some (sign '{' :: ms) ∧ rest <:+ ms := by
  induction ls with
  | nil => cases List.suffix_nil.1 h
  | cons l ls ih =>
    rw [opened?]
    cases hopens : opens p l ls with
    | true =>
      obtain ⟨t, ms, rfl, rfl, -⟩ := opens_iff.1 hopens
      refine ⟨ms, rfl, ?_⟩
      simp only [List.suffix_cons_iff, List.cons.injEq, reduceCtorEq, false_and, false_or,
        true_and] at h
      rcases h with ⟨-, rfl⟩ | h
      · exact List.suffix_refl _
      · exact ((List.suffix_append [string s, sign ':', sign '{'] rest)).trans h
    | false =>
      rw [if_neg Bool.false_ne_true]
      rcases List.suffix_cons_iff.1 h with heq | h
      · obtain ⟨rfl, rfl⟩ := List.cons.inj heq
        rw [opens, hs] at hopens
        cases hopens
      · exact ih h

theorem exists_of_opened?_eq_some (h : opened? p ls = some ms) :
    ∃ pre s rest, p s = true ∧ ms = sign '{' :: rest ∧
      ls = pre ++ string s :: sign ':' :: sign '{' :: rest := by
  induction ls with
  | nil => cases h
  | cons l ls ih =>
    rw [opened?] at h
    split at h
    next hopens =>
      obtain ⟨s, rest, rfl, rfl, hs⟩ := opens_iff.1 hopens
      exact ⟨[], s, rest, hs, (Option.some_inj.1 h).symm, rfl⟩
    next =>
      obtain ⟨pre, s, rest, hs, hms, rfl⟩ := ih h
      exact ⟨l :: pre, s, rest, hs, hms, rfl⟩

/-- A string that is `k`, or that ends in it behind a quote. -/
def endsIn (k : List Char) (s : Option String) : Bool := decide ('"' :: k <:+ '"' :: content s)

/-- Where a name in quotes is found before a colon and a brace, a string ends in it. -/
theorem exists_suffix_of_eq {c : Char} {k pre post : List Char} (hsigns : sign '"' ∉ ls)
    (hquote : '"' ∉ c :: k) (hslash : '\\' ∉ c :: k)
    (hbehind : Behind (fun _ rest => (spell rest).head? ≠ some c) ls)
    (h : spell ls = pre ++ ('"' :: (c :: k) ++ ['"', ':', '{']) ++ post) :
    ∃ s rest, string s :: sign ':' :: sign '{' :: rest <:+ ls ∧ endsIn (c :: k) s = true ∧
      post = spell rest := by
  have hfound : spell ls = pre ++ '"' :: (c :: k) ++ '"' :: ':' :: '{' :: post := by
    rw [h]
    simp
  obtain ⟨s, rest, hsuffix, hpost, hs⟩ := exists_string hsigns hquote hslash hbehind hfound
  obtain ⟨ls₁, rfl, hls₁⟩ := exists_of_spell_eq_cons (by decide) hpost.symm
  obtain ⟨ls₂, rfl, hls₂⟩ := exists_of_spell_eq_cons (by decide) hls₁
  exact ⟨s, ls₂, hsuffix, decide_eq_true hs, hls₂.symm⟩

/-- **A search for a name in quotes, a colon and a brace** finds the first string that ends in the
name and is followed by a colon and a brace. -/
theorem after?_spell {c : Char} {k : List Char} (hsigns : sign '"' ∉ ls)
    (hquote : '"' ∉ c :: k) (hslash : '\\' ∉ c :: k)
    (hbehind : Behind (fun _ rest => (spell rest).head? ≠ some c) ls) :
    Text.after? ('"' :: (c :: k) ++ ['"', ':', '{']) (spell ls) =
      (opened? (endsIn (c :: k)) ls).map fun ms => spell ms.tail := by
  cases hopened : opened? (endsIn (c :: k)) ls with
  | none =>
    rw [Option.map_none, Option.eq_none_iff_forall_ne_some]
    intro post hpost
    obtain ⟨pre, hpre⟩ := Text.after?_eq_some_iff.1 hpost
    obtain ⟨s, rest, hsuffix, hs, -⟩ := exists_suffix_of_eq hsigns hquote hslash hbehind hpre.eq
    obtain ⟨ms, hms, -⟩ := exists_opened?_of_suffix hs hsuffix
    rw [hopened] at hms
    cases hms
  | some ms =>
    obtain ⟨before, s, rest, hs, rfl, rfl⟩ := exists_of_opened?_eq_some hopened
    obtain ⟨x, hx⟩ := of_decide_eq_true hs
    have heq : spell (before ++ string s :: sign ':' :: sign '{' :: rest) =
        (spell before ++ x) ++ ('"' :: (c :: k) ++ ['"', ':', '{']) ++ spell rest := by
      rw [spell_append, spell_string, ← hx, spell_sign, spell_sign]
      simp
    refine Text.after?_eq_some_iff.2 ⟨spell before ++ x, heq, fun pre post hpre => ?_⟩
    -- behind any other place stands an end of what stands behind this one
    obtain ⟨s', rest', hsuffix, hs', rfl⟩ :=
      exists_suffix_of_eq hsigns hquote hslash hbehind hpre
    obtain ⟨ms, hms, front, rfl⟩ := exists_opened?_of_suffix hs' hsuffix
    rw [hopened, Option.some_inj] at hms
    obtain rfl := (List.cons.inj hms).2
    have hlength := congrArg List.length (hpre.symm.trans heq)
    simp only [List.length_append, spell_append] at hlength ⊢
    omega

end Json.Lexeme

/-! ## In values -/

namespace Value

open Json Json.Lexeme

mutual

/-- The value of the first field whose name has the property, in the order in which the fields of a
value are written. -/
def first? (p : Option String → Bool) : Value → Option Value
  | array items => firstOfItems? p items
  | object _ fields => firstOfFields? p fields
  | _ => none

/-- The value of the first such field in the items of an array. -/
def firstOfItems? (p : Option String → Bool) : List Value → Option Value
  | [] => none
  | v :: rest => (v.first? p).or (firstOfItems? p rest)

/-- The value of the first such field among fields, and in their values. -/
def firstOfFields? (p : Option String → Bool) : List (String × Value) → Option Value
  | [] => none
  | (name, v) :: rest =>
    if p (some name) then some v else (v.first? p).or (firstOfFields? p rest)

end

variable {p : Option String → Bool} {v : Value} {items : List Value}
  {fields before after : List (String × Value)} {o o' : Option Value}
  {found between otherwise : Option (List Lexeme)}

theorem firstOfItems?_eq_none (h : ∀ v ∈ items, v.first? p = none) :
    firstOfItems? p items = none := by
  induction items with
  | nil => rfl
  | cons v rest ih =>
    obtain ⟨hv, hrest⟩ := List.forall_mem_cons.1 h
    rw [firstOfItems?, hv, Option.none_or, ih hrest]

theorem firstOfFields?_append (hname : ∀ f ∈ before, p (some f.1) = false)
    (h : ∀ f ∈ before, f.2.first? p = none) :
    firstOfFields? p (before ++ after) = firstOfFields? p after := by
  induction before with
  | nil => rfl
  | cons f rest ih =>
    obtain ⟨hf, hnames⟩ := List.forall_mem_cons.1 hname
    obtain ⟨hv, hrest⟩ := List.forall_mem_cons.1 h
    rw [List.cons_append, firstOfFields?, hf, if_neg Bool.false_ne_true, hv, Option.none_or,
      ih hnames hrest]

/-- Without such a name there is no such field. -/
theorem first?_eq_none (h : ∀ n ∈ v.names, p (some n) = false) : v.first? p = none := by
  induction v with
  | null | bool | int | float | str => rfl
  | array items ih =>
    exact firstOfItems?_eq_none fun v hv =>
      ih v hv fun n hn => h n (names_subset_itemNames hv hn)
  | object t fields ih =>
    rw [first?, ← List.append_nil fields]
    refine firstOfFields?_append (fun f hf => ?_) (fun f hf => ih f hf fun n hn => ?_)
    · exact h f.1 (subset_fieldNames hf List.mem_cons_self)
    · exact h n (subset_fieldNames hf (List.mem_cons_of_mem _ hn))

/-- A field that no other one precedes is the first one. -/
theorem firstOfFields?_append_cons {name : String} (hname : p (some name) = true)
    (hbefore : ∀ n ∈ fieldNames before, p (some n) = false) :
    firstOfFields? p (before ++ (name, v) :: after) = some v := by
  rw [firstOfFields?_append (fun f hf => ?_) (fun f hf => ?_), firstOfFields?, hname, if_pos rfl]
  · exact hbefore f.1 (subset_fieldNames hf List.mem_cons_self)
  · exact first?_eq_none fun n hn =>
      hbefore n (subset_fieldNames hf (List.mem_cons_of_mem _ hn))

/-- What is found is a value, or else it is found elsewhere. -/
def Finds (o : Option Value) (found otherwise : Option (List Lexeme)) : Prop :=
  o.elim (found = otherwise) fun w => ∃ rest, found = some (w.toJson.lexemes ++ rest)

theorem Finds.or (h : Finds o found between) (h' : Finds o' between otherwise) :
    Finds (o.or o') found otherwise := by
  cases o with
  | some w => exact h
  | none =>
    have heq : found = between := h
    rw [heq]
    exact h'

/-- A property that the names in a tagged tree do not have. -/
def Spares (p : Option String → Bool) : Prop :=
  ∀ n ∈ ["kind", "value", "type_name", "fields"], p (some n) = false

/-- Only the payload of a tagged tree is searched. -/
theorem opened?_tagged (hp : Spares p) (kind : Kind) (payload : Json) (more : List Lexeme) :
    opened? p ((tagged kind payload).lexemes ++ more) =
      opened? p (payload.lexemes ++ sign '}' :: more) := by
  simp only [lexemes_tagged, List.cons_append, List.nil_append, List.append_assoc]
  rw [opened?_sign, opened?_string_of_not (hp "kind" (by decide)), opened?_sign,
    opened?_string_sign (by decide), opened?_string_of_not (hp "value" (by decide)), opened?_sign]

theorem opened?_signs_of_tagged (hp : Spares p) {kind : Kind} {payload : Json} {cs : List Char}
    (hpayload : payload.lexemes = signs cs) (more : List Lexeme) :
    opened? p ((tagged kind payload).lexemes ++ more) = opened? p more := by
  rw [opened?_tagged hp, hpayload, opened?_signs_append, opened?_sign]

theorem finds_items (ih : ∀ v ∈ items, ∀ more,
      Finds (v.first? p) (opened? p (v.toJson.lexemes ++ more)) (opened? p more))
    (more : List Lexeme) :
    Finds (firstOfItems? p items)
      (opened? p (Lexeme.commas (itemLexemes (itemsJson items)) ++ more)) (opened? p more) := by
  induction items with
  | nil => rfl
  | cons v rest hrest =>
    obtain ⟨hv, htail⟩ := List.forall_mem_cons.1 ih
    cases rest with
    | nil =>
      rw [firstOfItems?, firstOfItems?, Option.or_none]
      exact hv more
    | cons v' rest =>
      have hnext := hrest htail
      have hfirst := hv (sign ',' :: (Lexeme.commas (itemLexemes (itemsJson (v' :: rest))) ++ more))
      rw [opened?_sign] at hfirst
      have heq : Lexeme.commas (itemLexemes (itemsJson (v :: v' :: rest))) ++ more =
          v.toJson.lexemes ++ sign ',' ::
            (Lexeme.commas (itemLexemes (itemsJson (v' :: rest))) ++ more) :=
        List.append_assoc ..
      rw [heq]
      exact hfirst.or hnext

/-- One field, and what follows. -/
theorem finds_field (ih : ∀ more,
      Finds (v.first? p) (opened? p (v.toJson.lexemes ++ more)) (opened? p more))
    (name : String) (more : List Lexeme) :
    Finds (if p (some name) then some v else v.first? p)
      (opened? p (string name :: sign ':' :: (v.toJson.lexemes ++ more))) (opened? p more) := by
  obtain ⟨rest, hrest⟩ := v.exists_lexemes_toJson
  cases hname : p (some name) with
  | true =>
    have hopens : opens p (string name) (sign ':' :: (v.toJson.lexemes ++ more)) = true := by
      rw [hrest]
      exact hname
    rw [if_pos rfl, opened?, hopens]
    exact ⟨more, rfl⟩
  | false =>
    rw [if_neg Bool.false_ne_true, opened?_string_of_not hname, opened?_sign]
    exact ih more

theorem finds_fields (ih : ∀ f ∈ fields, ∀ more,
      Finds (f.2.first? p) (opened? p (f.2.toJson.lexemes ++ more)) (opened? p more))
    (more : List Lexeme) :
    Finds (firstOfFields? p fields)
      (opened? p (Lexeme.commas (memberLexemes (fieldsJson fields)) ++ more)) (opened? p more) := by
  induction fields with
  | nil => rfl
  | cons f rest hrest =>
    obtain ⟨hf, htail⟩ := List.forall_mem_cons.1 ih
    have hfirst : firstOfFields? p (f :: rest) =
        (if p (some f.1) then some f.2 else f.2.first? p).or (firstOfFields? p rest) := by
      rw [firstOfFields?]
      split <;> rfl
    rw [hfirst]
    cases rest with
    | nil =>
      rw [firstOfFields?, Option.or_none]
      exact finds_field hf f.1 more
    | cons f' rest =>
      have hnext := hrest htail
      have hhead := finds_field hf f.1 (sign ',' ::
        (Lexeme.commas (memberLexemes (fieldsJson (f' :: rest))) ++ more))
      rw [opened?_sign] at hhead
      have heq : Lexeme.commas (memberLexemes (fieldsJson (f :: f' :: rest))) ++ more =
          string f.1 :: sign ':' :: (f.2.toJson.lexemes ++ sign ',' ::
            (Lexeme.commas (memberLexemes (fieldsJson (f' :: rest))) ++ more)) := by
        simp [fieldsJson, memberLexemes, Lexeme.commas]
      rw [heq]
      exact hhead.or hnext

/-- **In the text of a value the first such string names the first such field.** -/
theorem finds_first? (hp : Spares p) (v : Value) (more : List Lexeme) :
    Finds (v.first? p) (opened? p (v.toJson.lexemes ++ more)) (opened? p more) := by
  induction v generalizing more with
  | null =>
    change opened? p
      (sign '{' :: string "kind" :: sign ':' :: string "null" :: sign '}' :: more) = _
    rw [opened?_sign, opened?_string_of_not (hp "kind" (by decide)), opened?_sign,
      opened?_string_sign (by decide)]
  | bool b => cases b <;> exact opened?_signs_of_tagged hp rfl more
  | int n => exact opened?_signs_of_tagged hp rfl more
  | float x =>
    rw [toJson, floatJson]
    split <;> exact opened?_signs_of_tagged hp rfl more
  | str s => exact (opened?_tagged hp ..).trans (opened?_string_sign (by decide) more)
  | array items ih =>
    rw [toJson, opened?_tagged hp, lexemes, List.append_assoc, List.cons_append, opened?_sign,
      List.singleton_append]
    have hitems := finds_items ih (sign ']' :: sign '}' :: more)
    rwa [opened?_sign, opened?_sign] at hitems
  | object t fields ih =>
    rw [toJson, opened?_tagged hp]
    simp only [lexemes, Json.record, Json.ofString, List.map_cons, List.map_nil, memberLexemes,
      Lexeme.commas, List.cons_append, List.append_assoc, List.nil_append]
    rw [opened?_sign, opened?_string_of_not (hp "type_name" (by decide)), opened?_sign,
      opened?_string_sign (by decide), opened?_string_of_not (hp "fields" (by decide)),
      opened?_sign, opened?_sign]
    have hfields := finds_fields ih (sign '}' :: sign '}' :: sign '}' :: more)
    rwa [opened?_sign, opened?_sign, opened?_sign] at hfields

end Value

end LiveBuild
