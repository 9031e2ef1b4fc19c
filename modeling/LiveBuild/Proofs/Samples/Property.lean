import LiveBuild.Proofs.Samples.Members
import LiveBuild.Proofs.Value.FirstField
import LiveBuild.Proofs.Value.RoundTrip

/-!
# What the property of a sample returns

`FooBar` cuts the value of `MyProperty` out of the text of a request: from the brace behind the
name, where it is found first, to the next closing brace. This is the value of the first field, in
the order in which the fields are written, whose name is `MyProperty` or ends in it behind a quote,
and if that is a scalar, all of it is cut out unless a closing brace is in it.

* `FooBar.cut?_write`: what is cut out of any request;
* `Reader.IsRefused`: texts that no reader takes, such as those whose string was cut;
* `FooBar.invoke_myProperty`: when the property returns the value of the field.
-/

namespace LiveBuild

open Json Json.Lexeme

/-! ## The field that is found -/

namespace Dispatch.Request

variable {p : Option String → Bool}

/-- The value of the first field of a request whose name has the property. -/
def first? (p : Option String → Bool) (r : Request) : Option Value :=
  (r.target.bind (Value.first? p)).or (Value.firstOfItems? p r.arguments)

/-- In the text of a request the first such string names the first such field. -/
theorem finds_first? (hp : Value.Spares p)
    (hother : ∀ n ∈ ["member", "target", "arguments"], p (some n) = false) (r : Request) :
    Value.Finds (r.first? p) (opened? p r.toJson.lexemes) none := by
  have hitems : Value.Finds (Value.firstOfItems? p r.arguments)
      (opened? p (Lexeme.commas (itemLexemes (Value.itemsJson r.arguments)) ++
        [sign ']', sign '}'])) (opened? p [sign ']', sign '}']) :=
    Value.finds_items (fun v _ => Value.finds_first? hp v) _
  have htarget (more : List Lexeme) : Value.Finds (r.target.bind (Value.first? p))
      (opened? p (r.targetLexemes ++ more)) (opened? p more) := by
    unfold targetLexemes
    cases r.target with
    | none => exact opened?_signs_append _ more
    | some v => exact Value.finds_first? hp v more
  rw [lexemes_toJson, heading, fromMember, carried]
  simp only [List.cons_append, List.nil_append]
  rw [opened?_sign, opened?_string_of_not (hp "type_name" (by decide)), opened?_sign,
    opened?_string_sign (by decide), opened?_string_of_not (hother "member" (by decide)),
    opened?_sign, opened?_string_sign (by decide),
    opened?_string_of_not (hother "target" (by decide)), opened?_sign]
  refine Value.Finds.or (htarget _) ?_
  rwa [opened?_sign, opened?_string_of_not (hother "arguments" (by decide)), opened?_sign,
    opened?_sign]

end Dispatch.Request

/-! ## Scalars -/

namespace Value

variable {v : Value}

/-- A value that has no parts. -/
def IsScalar : Value → Prop
  | array _ | object _ _ => False
  | _ => True

/-- No closing brace is in the text, if the value is a text. -/
def IsUnbraced : Value → Prop
  | str s => '}' ∉ s.toList
  | _ => True

/-- A tagged tree is written up to its payload. -/
def tagChars (kind : Kind) : List Char :=
  '{' :: (Writer.string "kind" ++ ':' :: (Writer.string kind.name ++ ',' ::
    (Writer.string "value" ++ [':'])))

theorem chars_tagged (kind : Kind) (payload : Json) :
    (tagged kind payload).chars = tagChars kind ++ payload.chars ++ ['}'] := by
  simp [tagged, tagChars, Json.record, Json.ofString, Json.chars, memberChars, Writer.commas]

theorem brace_mem_chars (v : Value) : '}' ∈ v.toJson.chars := by
  have hobj (members : List (Option String × Json)) : '}' ∈ (Json.obj members).chars :=
    List.mem_append_right _ (List.mem_singleton_self _)
  cases v <;> exact hobj _

theorem brace_notMem_tagChars (kind : Kind) : '}' ∉ tagChars kind := by
  cases kind <;> decide

theorem brace_notMem_numeral {n : Numeral} (hn : n.IsStrict) : '}' ∉ n.chars := fun h => by
  have hbrace : ¬ ('}'.isDigit = true ∨ '}' ∈ ['-', '.', 'e', '+']) := by decide
  exact hbrace (hn.mem_chars h)

/-- A brace in a string is written as it is, and nothing else is written as a brace. -/
theorem brace_notMem_flatMap {cs : List Char} (h : '}' ∉ cs) :
    '}' ∉ cs.flatMap Writer.escape := by
  rw [List.mem_flatMap]
  rintro ⟨c, hc, hmem⟩
  rcases eq_of_mem_escape hmem with rfl | heq | halnum
  · exact h hc
  · cases heq
  · cases halnum

/-- A scalar without a closing brace in it has one at the end of its text only. -/
theorem exists_chars_eq (hv : v.IsScalar) (hbrace : v.IsUnbraced) :
    ∃ body, v.toJson.chars = body ++ ['}'] ∧ '}' ∉ body := by
  have htagged {kind : Kind} {payload : Json} (h : '}' ∉ payload.chars) :
      ∃ body, (tagged kind payload).chars = body ++ ['}'] ∧ '}' ∉ body :=
    ⟨_, chars_tagged kind payload, List.not_mem_append (brace_notMem_tagChars kind) h⟩
  cases v with
  | null => exact ⟨'{' :: (Writer.string "kind" ++ ':' :: Writer.string "null"), rfl, by decide⟩
  | bool b => cases b <;> exact htagged (by decide)
  | int n => exact htagged (brace_notMem_numeral (Numeral.isStrict_ofInt n.toInt))
  | float x =>
    rw [toJson, floatJson]
    split
    · exact htagged (brace_notMem_numeral (Decimal.isStrict_numeral Decimal.wire x))
    · exact htagged (by decide)
  | str s =>
    refine htagged ?_
    have hcontent : '}' ∉ content s := brace_notMem_flatMap hbrace
    simpa [Json.ofString, Json.chars, string_eq] using hcontent
  | array items => exact hv.elim
  | object t fields => exact hv.elim

/-- Such a scalar goes up to its first closing brace. -/
theorem through?_chars (hv : v.IsScalar) (hbrace : v.IsUnbraced) :
    Text.through? '}' v.toJson.chars = some v.toJson.chars := by
  obtain ⟨body, hbody, hmem⟩ := exists_chars_eq hv hbrace
  rw [hbody, Text.through?_append_cons hmem]

theorem escape_brace : Writer.escape '}' = ['}'] := by decide

/-- A text with a closing brace in it is cut at the first one, inside of its string. -/
theorem exists_through?_str {s : String} (h : '}' ∈ s.toList) :
    ∃ cs : List Char, Text.through? '}' (str s).toJson.chars =
      some (tagChars .str ++ '"' :: cs.flatMap Writer.escape ++ ['}']) := by
  obtain ⟨cs, rest, hs, hcs⟩ := List.eq_append_cons_of_mem h
  have hchars : (str s).toJson.chars = (tagChars .str ++ '"' :: cs.flatMap Writer.escape) ++
      '}' :: (rest.flatMap Writer.escape ++ ['"', '}']) := by
    rw [toJson, chars_tagged, Json.ofString, Json.chars, Writer.string, Writer.quoted, hs]
    simp [escape_brace]
  have hmem : '}' ∉ tagChars .str ++ '"' :: cs.flatMap Writer.escape :=
    List.not_mem_append (brace_notMem_tagChars .str)
      (List.not_mem_cons_of_ne_of_not_mem (by decide) (brace_notMem_flatMap hcs))
  exact ⟨cs, by rw [hchars, Text.through?_append_cons hmem]⟩

/-- A finite scalar is read back within any levels, given that its number is. -/
theorem ofJson?_toJson_of_isScalar {levels : ℕ} (hlevels : 0 < levels) (hv : v.IsScalar)
    (hfinite : ∀ x ∈ v.floats, x.isFinite = true) (hback : ∀ x ∈ v.floats, x.ReadsBack) :
    ofJson? levels v.toJson = some v := by
  have hdepth : v.toJson.depth = 1 := by
    cases v with
    | null | bool | int | str => rfl
    | float x => rw [toJson, depth_tagged, depth_floatJson]
    | array items => exact hv.elim
    | object t fields => exact hv.elim
  refine ofJson?_toJson ?_ ⟨hfinite, hdepth.trans_le hlevels⟩ hback
  cases v with
  | null | bool | int | float | str => trivial
  | array items => exact hv.elim
  | object t fields => exact hv.elim

end Value

/-! ## Refused texts -/

namespace Json.Reader

variable {cs cs' : List Char} {name s : Option String} {fuel : ℕ} {j : Json}

theorem members_of_value_eq_none (h : value fuel cs = none) :
    members (fuel + 1) (Writer.string name ++ ':' :: cs) = none := by
  rw [string_eq_cons, List.cons_append, members, skipBlank_cons rfl]
  simp only [bind, Option.bind, string_tail, skipBlank_cons (c := ':') rfl, h]

theorem members_of_members_eq_none (h : value fuel cs = some (j, ',' :: cs'))
    (hs : members fuel cs' = none) :
    members (fuel + 1) (Writer.string name ++ ':' :: cs) = none := by
  rw [string_eq_cons, List.cons_append, members, skipBlank_cons rfl]
  simp only [bind, Option.bind, string_tail, skipBlank_cons (c := ':') rfl, h,
    skipBlank_cons (c := ',') rfl, hs]

/-- No value is read, however many calls the reader may make. -/
def IsRefused (cs : List Char) : Prop := ∀ fuel, value fuel cs = none

/-- No members are read, however many calls the reader may make. -/
def AreRefused (cs : List Char) : Prop := ∀ fuel, members fuel cs = none

theorem isRefused_string (h : pieces cs = none) : IsRefused ('"' :: cs)
  | 0 => rfl
  | fuel + 1 => by rw [value_string, Reader.string, h]; rfl

theorem isRefused_object (h : AreRefused (Writer.string name ++ cs)) :
    IsRefused ('{' :: (Writer.string name ++ cs))
  | 0 => rfl
  | fuel + 1 => by
    have hnone := h fuel
    rw [string_eq_cons, List.cons_append] at hnone ⊢
    rw [value_object, hnone]
    rfl

theorem areRefused_value (h : IsRefused cs) : AreRefused (Writer.string name ++ ':' :: cs)
  | 0 => rfl
  | fuel + 1 => members_of_value_eq_none (h fuel)

theorem areRefused_comma (h : AreRefused cs) :
    AreRefused (Writer.string name ++ ':' :: (Writer.string s ++ ',' :: cs))
  | 0 => rfl
  | 1 => members_of_value_eq_none rfl
  | fuel + 2 => by
    have hvalue : value (fuel + 1) (Writer.string s ++ ',' :: cs) = some (.str s, ',' :: cs) := by
      rw [string_eq_cons, List.cons_append, value_string, string_tail]
      rfl
    exact members_of_members_eq_none hvalue (h (fuel + 1))

/-- A string that is not closed is no string. -/
theorem pieces_unclosed (s : List Char) :
    pieces (s.flatMap Writer.escape ++ ['}', '}']) = none := by
  induction s with
  | nil => rfl
  | cons c s ih =>
    rw [List.flatMap_cons, List.append_assoc, pieces_escape, ih]
    rfl

theorem parse?_eq_none (h : IsRefused cs) : parse? cs = none := by
  rw [parse?, h]
  rfl

end Json.Reader

namespace Samples.FooBar

open Dispatch

/-- A name that the library takes for `MyProperty`: it is this name, or ends in it behind a
quote. -/
def isNamesake : Option String → Bool := endsIn "MyProperty".toList

/-- The name, letter by letter, and in the text that the library looks for. -/
theorem exists_letters : ∃ c k, "MyProperty".toList = c :: k ∧ c ∉ [',', '}', ']', ':'] ∧
    '"' ∉ c :: k ∧ '\\' ∉ c :: k ∧
    "\"MyProperty\":\x7b".toList = '"' :: (c :: k) ++ ['"', ':', '{'] :=
  ⟨'M', "yProperty".toList, by decide, by decide, by decide, by decide,
    by decide⟩

/-- The library finds the first field of a namesake. -/
theorem after?_write (r : Dispatch.Request) :
    Text.after? "\"MyProperty\":\x7b".toList r.write.toList =
      (opened? isNamesake r.toJson.lexemes).map fun ms => spell ms.tail := by
  obtain ⟨c, k, hname, hc, hquote, hslash, hneedle⟩ := exists_letters
  rw [hneedle, isNamesake, hname, Dispatch.Request.write, Json.write, String.toList_ofList,
    ← spell_lexemes]
  exact after?_spell r.quote_notMem hquote hslash (r.behind_ne hc)

/-- **What is cut out of a request**: the spelling of the first field of a namesake, up to its first
closing brace. -/
theorem cut?_write (r : Dispatch.Request) : cut? r.write.toList =
    (r.first? isNamesake).bind fun w => Text.through? '}' w.toJson.chars := by
  have hfinds := r.finds_first? (p := isNamesake) (by unfold Value.Spares; decide)
    (by decide)
  rw [cut?, after?_write]
  cases hfirst : r.first? isNamesake with
  | none =>
    rw [hfirst] at hfinds
    have hnone : opened? isNamesake r.toJson.lexemes = none := hfinds
    rw [hnone]
    rfl
  | some w =>
    rw [hfirst] at hfinds
    obtain ⟨rest, hrest⟩ := hfinds
    obtain ⟨ls, hls⟩ := w.exists_lexemes_toJson
    have htext : '{' :: spell (w.toJson.lexemes ++ rest).tail = w.toJson.chars ++ spell rest := by
      rw [← spell_lexemes, ← spell_append, hls]
      rfl
    rw [hrest]
    change Text.through? '}' ('{' :: spell (w.toJson.lexemes ++ rest).tail) = _
    rw [htext]
    exact Text.through?_append w.brace_mem_chars _

/-! ## Answers -/

variable {σ : Type} {w : Value}

/-- The text of an answer with a value in it. -/
theorem toList_reply (cs : List Char) : ("\x7b\"ok\":" ++ String.ofList cs ++ "\x7d").toList =
    '{' :: (Writer.string "ok" ++ ':' :: (cs ++ ['}'])) := by
  simp only [String.toList_append, String.toList_ofList, List.append_assoc]
  rfl

/-- A whole value is returned. -/
theorem replyOf_value (hw : Value.ofJson? (Json.maxLevels - 1) w.toJson = some w) :
    Library.replyOf ("\x7b\"ok\":" ++ String.ofList w.toJson.chars ++ "\x7d") =
      .returned (some w) := by
  have htext : '{' :: (Writer.string "ok" ++ ':' :: (w.toJson.chars ++ ['}'])) =
      (Json.obj [(some "ok", w.toJson)]).chars := by
    simp [Json.chars, memberChars, Writer.commas]
  have hstrict : (Json.obj [(some "ok", w.toJson)]).IsStrict := ⟨w.isStrict_toJson, trivial⟩
  rw [Library.replyOf_eq_returned_iff, Response.read?, toList_reply, htext, parse?_chars hstrict]
  exact Response.ofJson?_eq_some_iff.2 ⟨by decide, .value hw⟩

/-- A tagged text that ends inside of its string is refused. -/
theorem isRefused_cut (cs : List Char) : Reader.IsRefused
    (Value.tagChars .str ++ '"' :: cs.flatMap Writer.escape ++ ['}'] ++ ['}']) := by
  have hunclosed := Reader.isRefused_string (Reader.pieces_unclosed cs)
  simp only [Value.tagChars, List.cons_append, List.append_assoc, List.nil_append]
  exact Reader.isRefused_object (Reader.areRefused_comma (Reader.areRefused_value hunclosed))

/-- An answer that carries such a text is no answer. -/
theorem replyOf_cut (cs : List Char) : ∃ msg, Library.replyOf ("\x7b\"ok\":" ++
    String.ofList (Value.tagChars .str ++ '"' :: cs.flatMap Writer.escape ++ ['}']) ++ "\x7d") =
      .threw msg := by
  have hread : Response.read? ("\x7b\"ok\":" ++ String.ofList (Value.tagChars .str ++
      '"' :: cs.flatMap Writer.escape ++ ['}']) ++ "\x7d") = none := by
    rw [Response.read?, toList_reply, Reader.parse?_eq_none
      (Reader.isRefused_object (Reader.areRefused_value (isRefused_cut cs)))]
    rfl
  refine Library.exists_replyOf_eq_threw_iff.2 ⟨fun v h => ?_, fun msg h => ?_⟩
  · rw [hread] at h
    cases h
  · rw [hread] at h
    cases h

/-! ## The property -/

open Resolution

/-- The types of the library. -/
def types : Manifest :=
  [⟨"Foo", [.property "MyProperty" false]⟩, ⟨"Bar", [.property "MyFoo" true]⟩]

/-- The library, loaded from a path. -/
def loaded (σ : Type) (path : Path) : Library σ := ⟨path, types, (library σ).dispatch, true⟩

/-- The tree of a type with one property. -/
def typeTree (name property : String) (isStatic : Bool) : Json :=
  .record [("name", .ofString name), ("members", .arr [.record [("name", .ofString property),
    ("kind", .ofString "property"), ("is_static", .bool isStatic)]])]

/-- The tree of the manifest. -/
def manifestTree : Json :=
  .record [("types", .arr [typeTree "Foo" "MyProperty" false, typeTree "Bar" "MyFoo" true])]

theorem read?_manifest : Manifest.read? (some (Utf8.encode manifest)) = some types := by
  have hwrite : manifest = manifestTree.write := by decide +kernel
  have hread : Manifest.ofJson? Json.maxLevels manifestTree = some types := rfl
  have hstrict : manifestTree.IsStrict := by
    simp [manifestTree, typeTree, Json.record, Json.ofString, IsStrict, AreStrict, AreStrictMembers]
  have hgraphic : ∀ c ∈ manifestTree.write.toList, IsGraphic c := by
    rw [Json.write, String.toList_ofList]
    exact forall_mem_chars _ hstrict
  rw [hwrite, Manifest.read?, untilNul_encode (Utf8.zero_notMem_encode hgraphic),
    Utf8.decodeLossy_encode, parse?_write hstrict]
  exact hread

theorem load?_exports {text : String} {answer : String → String} {m : Manifest}
    (h : Manifest.read? (some (Utf8.encode text)) = some m) (path : Path) :
    Library.load? path (exports σ text answer) =
      .ok ⟨path, m, (exports σ text answer).dispatch, true⟩ := by
  simp only [Library.load?, exports, h]

theorem load?_library (σ : Type) (path : Path) :
    Library.load? path (library σ) = .ok (loaded σ path) :=
  load?_exports read?_manifest path

/-- The invocation of the property of an object. -/
def ofObject (fields : List (String × Value)) : Invocation :=
  .ofInstance "Foo" "MyProperty" (.object "Foo" fields)

/-- The request for the property of an object. -/
def requestFor (fields : List (String × Value)) : Dispatch.Request :=
  ⟨"Foo", "MyProperty", some (.object "Foo" fields), []⟩

/-- A call is answered as the text says that the library returns. -/
theorem run_of_answer {l : Library σ} {dispatch : List UInt8 → σ → Option (List UInt8) × σ}
    {c : Artifact.Call} {t : Library.Traffic σ} {s : String} (hl : l.dispatch = some dispatch)
    (hanswer : dispatch (Utf8.encode (Library.requestOf c).write) t.inner =
      (some (Utf8.encode s), t.inner)) (hs : 0 ∉ Utf8.encode s) :
    (l.run c t).1 = Library.replyOf s := by
  rw [Library.run, hl]
  dsimp only
  rw [cString?_request]
  dsimp only
  rw [hanswer]
  dsimp only
  rw [untilNul_encode hs, Utf8.decodeLossy_encode]

theorem invoke_of_call {α : Type} {art : Artifact α} {i : Invocation} {c : Artifact.Call}
    (h : call? art i = .ok c) (s : α) : (invoke art i s).1 = outcome (art.run c s).1 := by
  rw [invoke, h]

/-- The reply to the invocation is what the answer to the request means. -/
theorem invoke_ofObject (path : Path) (fields : List (String × Value)) (t : Library.Traffic σ) :
    (invoke (loaded σ path).artifact (ofObject fields) t).1 =
      outcome (Library.replyOf (answerTo (requestFor fields))) := by
  have hcall : call? (loaded σ path).artifact (ofObject fields) =
      .ok ⟨"Foo", .property "MyProperty" false, some (.object "Foo" fields), []⟩ := rfl
  obtain ⟨dispatch, hdispatch, hanswer⟩ := exists_dispatch σ (requestFor fields)
  have hrun := run_of_answer (l := loaded σ path) hdispatch (hanswer t.inner)
    (Utf8.zero_notMem_encode (isGraphic_answerTo (requestFor fields)))
    (c := ⟨"Foo", .property "MyProperty" false, some (.object "Foo" fields), []⟩)
  rw [invoke_of_call hcall]
  exact congrArg outcome hrun

/-- The answer is what is cut out of the first field of a namesake. -/
theorem answerTo_requestFor {fields : List (String × Value)} {cs : List Char}
    (hfirst : Value.firstOfFields? isNamesake fields = some w)
    (hcut : Text.through? '}' w.toJson.chars = some cs) :
    answerTo (requestFor fields) = "\x7b\"ok\":" ++ String.ofList cs ++ "\x7d" := by
  have hrequest : (requestFor fields).first? isNamesake = some w := by
    have htarget : (requestFor fields).first? isNamesake =
        (Value.firstOfFields? isNamesake fields).or none := rfl
    rw [htarget, hfirst]
    rfl
  have htype : (requestFor fields).typeName = "Foo" := rfl
  have hmember : (requestFor fields).member = "MyProperty" := rfl
  rw [answerTo, htype, hmember, if_neg (by decide), if_pos ⟨rfl, rfl⟩, cut?_write, hrequest,
    Option.bind_some, hcut, Option.elim_some]

/-- What the invocation comes to, if the first field of a namesake holds a scalar. -/
theorem invoke_of_first {path : Path} {fields : List (String × Value)} {t : Library.Traffic σ}
    (hfirst : Value.firstOfFields? isNamesake fields = some w) (hw : w.IsScalar)
    (hfinite : ∀ x ∈ w.floats, x.isFinite = true) (hback : ∀ x ∈ w.floats, x.ReadsBack) :
    (w.IsUnbraced → (invoke (loaded σ path).artifact (ofObject fields) t).1 = .ok (some w)) ∧
    (¬ w.IsUnbraced →
      ∃ msg, (invoke (loaded σ path).artifact (ofObject fields) t).1 = .error (.threw msg)) := by
  rw [invoke_ofObject]
  constructor
  · intro hbrace
    rw [answerTo_requestFor hfirst (Value.through?_chars hw hbrace),
      replyOf_value (Value.ofJson?_toJson_of_isScalar (by decide) hw hfinite hback)]
    rfl
  · intro hbrace
    cases w with
    | str s =>
      obtain ⟨cs, hcut⟩ := Value.exists_through?_str (not_not.1 hbrace)
      obtain ⟨msg, hmsg⟩ := replyOf_cut cs
      rw [answerTo_requestFor hfirst hcut, hmsg]
      exact ⟨msg, rfl⟩
    | null | bool | int | float => exact absurd trivial hbrace
    | array items => exact hw.elim
    | object u fields => exact hw.elim

theorem isNamesake_eq_false {n : String}
    (h : n ≠ "MyProperty" ∧ ¬ "\"MyProperty".toList <:+ n.toList) :
    isNamesake (some n) = false := by
  refine decide_eq_false fun hends => ?_
  have hletters : "\"MyProperty".toList = '"' :: "MyProperty".toList := by decide
  have hsuffix := suffix_of_content (by decide) hends
  rcases List.suffix_cons_iff.1 hsuffix with heq | hsuffix
  · exact h.1 (String.toList_inj.1 (List.cons.inj heq).2).symm
  · rw [← hletters] at hsuffix
    exact h.2 hsuffix

/-- **What the property returns.** The library can be loaded. Let an object have a scalar as its
`MyProperty`, and let no field that is written before it, at any depth, have that name or a name
that ends in it behind a quote. Then the invocation returns the scalar, unless it is a text with a
closing brace in it; for such a text the invocation fails. -/
theorem invoke_myProperty (σ : Type) (path : Path) :
    Library.load? path (library σ) = .ok (loaded σ path) ∧
    ∀ (before after : List (String × Value)) (v : Value) (t : Library.Traffic σ),
      (∀ n ∈ Value.fieldNames before,
        n ≠ "MyProperty" ∧ ¬ "\"MyProperty".toList <:+ n.toList) →
      v.IsScalar → (∀ x ∈ v.floats, x.isFinite = true) →
      (∀ x ∈ v.floats, x.ReadsBack) →
      (v.IsUnbraced → (invoke (loaded σ path).artifact
        (ofObject (before ++ ("MyProperty", v) :: after)) t).1 = .ok (some v)) ∧
      (¬ v.IsUnbraced → ∃ msg, (invoke (loaded σ path).artifact
        (ofObject (before ++ ("MyProperty", v) :: after)) t).1 = .error (.threw msg)) := by
  refine ⟨load?_library σ path, fun before after v t hbefore hv hfinite hback => ?_⟩
  have hfirst : Value.firstOfFields? isNamesake (before ++ ("MyProperty", v) :: after) = some v :=
    Value.firstOfFields?_append_cons (by decide) fun n hn =>
      isNamesake_eq_false (hbefore n hn)
  exact invoke_of_first hfirst hv hfinite hback

/-- A number between a field before it and a field behind it is returned. -/
theorem invoke_myProperty_answer :
    (invoke (loaded Unit ⟨"foo_bar.so"⟩).artifact (ofObject [("A", .object "B" [("b", .null)]),
      ("MyProperty", .int 42), ("Z", .str "\x7d")]) (.start ())).1 = .ok (some (.int 42)) := by
  have hno {x : Binary64} {P : Prop} (hx : x ∈ ([] : List Binary64)) : P := by cases hx
  obtain ⟨-, hreturns⟩ := invoke_myProperty Unit ⟨"foo_bar.so"⟩
  exact (hreturns [("A", .object "B" [("b", .null)])] [("Z", .str "\x7d")] (.int 42) (.start ())
    (by decide) trivial (fun _ => hno) (fun _ => hno)).1 trivial

/-- A field of an object that is the value of a field before. -/
def innerNamesake : List (String × Value) :=
  [("A", .object "B" [("MyProperty", .int 1)]), ("MyProperty", .int 2)]

/-- A field before whose name ends in a quote and the name of the property. -/
def quotedNamesake : List (String × Value) := [("\"MyProperty", .int 1), ("MyProperty", .int 2)]

/-- The invocation fails for a closing brace, and it returns the value of another field, although
the fields of all three objects ascend. -/
theorem exists_other_answers :
    (Value.object "Foo" [("MyProperty", .str "\x7d")]).IsOrdered ∧
    (∃ msg, (invoke (loaded Unit ⟨"foo_bar.so"⟩).artifact
      (ofObject [("MyProperty", .str "\x7d")]) (.start ())).1 = .error (.threw msg)) ∧
    (Value.object "Foo" innerNamesake).IsOrdered ∧
    (invoke (loaded Unit ⟨"foo_bar.so"⟩).artifact (ofObject innerNamesake) (.start ())).1 =
      .ok (some (.int 1)) ∧
    (Value.object "Foo" quotedNamesake).IsOrdered ∧
    (invoke (loaded Unit ⟨"foo_bar.so"⟩).artifact (ofObject quotedNamesake) (.start ())).1 =
      .ok (some (.int 1)) := by
  have hno {x : Binary64} {P : Prop} (hx : x ∈ ([] : List Binary64)) : P := by cases hx
  have hbrace : Value.firstOfFields? isNamesake [("MyProperty", .str "\x7d")] =
      some (.str "\x7d") := rfl
  have hinner : Value.firstOfFields? isNamesake innerNamesake = some (.int 1) := rfl
  have hquoted : Value.firstOfFields? isNamesake quotedNamesake = some (.int 1) := rfl
  refine ⟨⟨?_, trivial, trivial⟩, ?_, ⟨?_, ⟨?_, trivial, trivial⟩, trivial, trivial⟩, ?_,
    ⟨?_, trivial, trivial, trivial⟩, ?_⟩
  case refine_2 =>
    exact (invoke_of_first hbrace trivial (fun _ => hno) (fun _ => hno)).2
      (not_not.2 (by decide))
  case refine_5 =>
    exact (invoke_of_first hinner trivial (fun _ => hno) (fun _ => hno)).1 trivial
  case refine_7 =>
    exact (invoke_of_first hquoted trivial (fun _ => hno) (fun _ => hno)).1 trivial
  all_goals
    unfold Fields.Sorted
    decide

end Samples.FooBar

end LiveBuild
