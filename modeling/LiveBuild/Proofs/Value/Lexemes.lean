import LiveBuild.Proofs.Json.Lexemes
import LiveBuild.Proofs.Value.Tree

/-!
# The strings in the text of a value

Behind each string in the text of a value stands a comma, a closing bracket or a colon, and few
strings are followed by a colon and another string, or by a colon and a brace.

* `Value.names`: the names of the fields in a value, at any depth;
* `Value.Follows`: what may stand behind a string;
* `Value.behind_lexemes`: it is what stands behind each string of a value.
-/

namespace LiveBuild.Value

open Json Json.Lexeme

mutual

/-- The names of the fields in a value, in the order in which they are written. -/
def names : Value → List String
  | array items => itemNames items
  | object _ fields => fieldNames fields
  | _ => []

/-- The names of the fields in the items of an array. -/
def itemNames : List Value → List String
  | [] => []
  | v :: rest => v.names ++ itemNames rest

/-- The names of fields, and those in their values. -/
def fieldNames : List (String × Value) → List String
  | [] => []
  | (name, v) :: rest => name :: (v.names ++ fieldNames rest)

end

variable {v : Value} {items : List Value} {fields : List (String × Value)} {ns ms : List String}

theorem names_subset_itemNames (h : v ∈ items) : v.names ⊆ itemNames items := by
  induction items with
  | nil => cases h
  | cons w rest ih =>
    rcases List.mem_cons.1 h with rfl | h
    · exact List.subset_append_left _ _
    · exact List.Subset.trans (ih h) (List.subset_append_right _ _)

theorem subset_fieldNames {f : String × Value} (h : f ∈ fields) :
    f.1 :: f.2.names ⊆ fieldNames fields := by
  induction fields with
  | nil => cases h
  | cons g rest ih =>
    rcases List.mem_cons.1 h with rfl | h
    · exact List.cons_subset_cons _ (List.subset_append_left _ _)
    · exact List.Subset.trans (ih h)
        (List.Subset.trans (List.subset_append_right _ _) (List.subset_cons_self _ _))

/-- What may stand behind a string, if the fields have the given names: the string is no name, or it
is the name of a string, or of fields, or of something else. -/
inductive Follows (names : List String) : Option String → List Lexeme → Prop
  | closing {s c rest} (hc : c ∈ [',', '}', ']']) : Follows names s (sign c :: rest)
  | text {s t rest} (hs : s ∈ [some "kind", some "value", some "type_name"]) :
    Follows names s (sign ':' :: string t :: rest)
  | fields {s rest} (hs : s ∈ some "value" :: some "fields" :: names.map some) :
    Follows names s (sign ':' :: sign '{' :: rest)
  | other {s c rest} (hc : c ≠ '{') : Follows names s (sign ':' :: sign c :: rest)

theorem Follows.append {s : Option String} {rest : List Lexeme} (h : Follows ns s rest)
    (more : List Lexeme) : Follows ns s (rest ++ more) := by
  cases h with
  | closing hc => exact .closing hc
  | text hs => exact .text hs
  | fields hs => exact .fields hs
  | other hc => exact .other hc

theorem Follows.mono {s : Option String} {rest : List Lexeme} (hsubset : ns ⊆ ms)
    (h : Follows ns s rest) : Follows ms s rest := by
  cases h with
  | closing hc => exact .closing hc
  | text hs => exact .text hs
  | fields hs =>
    exact .fields (List.cons_subset_cons _ (List.cons_subset_cons _
      (List.map_subset _ hsubset)) hs)
  | other hc => exact .other hc

/-- A text begins with no letter behind a string. -/
theorem Follows.head? {s : Option String} {rest : List Lexeme} (h : Follows ns s rest) :
    ∃ c, (spell rest).head? = some c ∧ c ∈ [',', '}', ']', ':'] := by
  cases h with
  | @closing c rest hc => exact ⟨c, rfl, List.mem_append_left [':'] hc⟩
  | text | fields | other => exact ⟨':', rfl, by decide⟩

/-! ## Tagged trees -/

theorem lexemes_tagged (kind : Kind) (payload : Json) : (tagged kind payload).lexemes =
    [sign '{', string "kind", sign ':', string kind.name, sign ',', string "value", sign ':'] ++
      (payload.lexemes ++ [sign '}']) := by
  simp [tagged, Json.record, Json.ofString, lexemes, memberLexemes, Lexeme.commas]

/-- A tagged tree is as its payload is. -/
theorem behind_tagged {kind : Kind} {payload : Json}
    (hvalue : Follows ns (some "value") (sign ':' :: (payload.lexemes ++ [sign '}'])))
    (hpayload : Behind (Follows ns) (payload.lexemes ++ [sign '}'])) :
    Behind (Follows ns) (tagged kind payload).lexemes := by
  rw [lexemes_tagged]
  exact ⟨.text (by decide), .closing (by decide), hvalue, hpayload⟩

/-- A payload without strings. -/
theorem behind_tagged_signs {kind : Kind} {payload : Json} {c : Char} {cs : List Char}
    (hpayload : payload.lexemes = signs (c :: cs)) (hc : c ≠ '{') :
    Behind (Follows ns) (tagged kind payload).lexemes := by
  refine behind_tagged ?_ ?_
  · rw [hpayload]
    exact .other hc
  · rw [hpayload]
    exact (behind_signs _).append (fun _ _ more h => h.append more) trivial

theorem exists_lexemes_toJson (v : Value) : ∃ rest, v.toJson.lexemes = sign '{' :: rest := by
  cases v with
  | null => exact ⟨_, rfl⟩
  | bool | int | float | str | array | object => exact ⟨_, lexemes_tagged ..⟩

theorem behind_numeral {kind : Kind} {n : Numeral} (hn : n.IsStrict) :
    Behind (Follows ns) (tagged kind (.num n)).lexemes := by
  obtain ⟨c, cs, hcs, hc⟩ := Json.Reader.exists_cons_numeral hn
  have hlexemes : (Json.num n).lexemes = signs (c :: cs) := by rw [lexemes, hcs]
  refine behind_tagged_signs hlexemes ?_
  rintro rfl
  rcases hc with hc | hc <;> cases hc

/-! ## Values -/

/-- Parts with commas between them, in brackets. -/
theorem behind_parts {parts : List (List Lexeme)} {after : List Lexeme}
    (hparts : ∀ part ∈ parts, Behind (Follows ns) part) (hafter : Behind (Follows ns) after) :
    Behind (Follows ns) (Lexeme.commas parts ++ after) :=
  (Behind.commas (fun _ _ more h => h.append more) hparts).append
    (fun _ _ more h => h.append more) hafter

theorem behind_items (ih : ∀ v ∈ items, Behind (Follows v.names) v.toJson.lexemes) :
    ∀ part ∈ itemLexemes (itemsJson items), Behind (Follows (itemNames items)) part := by
  rw [itemLexemes_eq, itemsJson_eq, List.map_map]
  refine List.forall_mem_map.2 fun v hv => ?_
  exact (ih v hv).mono fun _ _ h => h.mono (names_subset_itemNames hv)

theorem behind_fields (ih : ∀ f ∈ fields, Behind (Follows f.2.names) f.2.toJson.lexemes) :
    ∀ part ∈ memberLexemes (fieldsJson fields), Behind (Follows (fieldNames fields)) part := by
  rw [memberLexemes_eq, fieldsJson_eq, List.map_map]
  refine List.forall_mem_map.2 fun f hf => ?_
  obtain ⟨hname, hnames⟩ := List.cons_subset.1 (subset_fieldNames hf)
  obtain ⟨rest, hrest⟩ := exists_lexemes_toJson f.2
  refine ⟨?_, (ih f hf).mono fun _ _ h => h.mono hnames⟩
  rw [hrest]
  exact .fields (by simp [hname])

/-- **What stands behind each string of a value.** -/
theorem behind_lexemes (v : Value) : Behind (Follows v.names) v.toJson.lexemes := by
  induction v with
  | null => exact ⟨.text (by decide), .closing (by decide), trivial⟩
  | bool b => cases b <;> exact behind_tagged_signs rfl (by decide)
  | int n => exact behind_numeral (Numeral.isStrict_ofInt n.toInt)
  | float x =>
    rw [toJson, floatJson]
    split
    · exact behind_numeral (Decimal.isStrict_numeral Decimal.wire x)
    · exact behind_tagged_signs rfl (by decide)
  | str s => exact behind_tagged (.text (by decide)) ⟨.closing (by decide), trivial⟩
  | array items ih =>
    refine behind_tagged (.other (c := '[') (by decide)) ?_
    simp only [lexemes, List.cons_append, List.append_assoc, List.nil_append]
    exact behind_parts (behind_items ih) trivial
  | object t fields ih =>
    refine behind_tagged (.fields List.mem_cons_self) ?_
    simp only [lexemes, Json.record, Json.ofString, List.map_cons, List.map_nil, memberLexemes,
      Lexeme.commas, List.cons_append, List.append_assoc, List.nil_append]
    exact ⟨.text (by decide), .closing (by decide), .fields (by simp),
      behind_parts (behind_fields ih) trivial⟩

end LiveBuild.Value
