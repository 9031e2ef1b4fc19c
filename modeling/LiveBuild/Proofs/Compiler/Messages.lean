import LiveBuild.Compiler.Diagnostics
import LiveBuild.Proofs.Json.Control
import LiveBuild.Proofs.Json.Slots
import LiveBuild.Proofs.Member.RoundTrip
import LiveBuild.Proofs.Text.Lines
import Mathlib.Data.List.Forall2

/-!
# Messages and their lines

What a line has to be so that it holds a message, and what entry the message yields, as conditions
on the message instead of an order in which they are tried.

* `Message.IsForm`: a tree stands for a message. It is a record in which members of other names
  count for nothing, the type and the code may be missing or null, and the spans may be missing if
  there are none. The reader takes these trees and no others (`ofJson?_eq_some_iff`).
* `Message.IsLine`: a line holds a message, between blanks (`ofLine?_eq_some_iff`). Every message
  has such a line (`isLine_write`).
* `Message.Points`: the place of a message, which is that of the first primary span, or of the first
  span, or nowhere.
* `Message.Yields`: the entry that a message yields (`yield?_eq_some_iff`).
-/

namespace LiveBuild.Compiler

/-! ## Trees that stand for messages -/

/-- A tree stands for an optional value: the value is missing or null, or the tree stands for it. -/
inductive IsOptional {α : Type} (r : α → Json → Prop) : Option α → Option Json → Prop
  | missing : IsOptional r none none
  | null : IsOptional r none (some .null)
  | given {a j} (h : r a j) : IsOptional r (some a) (some j)

/-- A tree stands for a number of thirty-two bits: it is a numeral for that integer. -/
def IsWord (w : UInt32) (j : Json) : Prop := ∃ n : Numeral, j = .num n ∧ n.integer? = some w.toNat

/-- A tree stands for a code: it is a record that holds the code. -/
def IsCode (code : String) (j : Json) : Prop := j.slots? ["code"] = some [some (.ofString code)]

/-- A tree stands for a span; one that is not primary need not say so. -/
def Span.IsForm (s : Span) (j : Json) : Prop :=
  ∃ line column primary,
    j.slots? ["line_start", "column_start", "is_primary"] =
      some [some line, some column, primary] ∧
    IsWord s.line line ∧ IsWord s.column column ∧
    (primary = none ∧ s.isPrimary = false ∨ primary = some (.bool s.isPrimary))

/-- A tree stands for a message. -/
def Message.IsForm (m : Message) (j : Json) : Prop :=
  ∃ type code spans,
    j.slots? ["$message_type", "message", "code", "level", "spans"] =
      some [type, some (.ofString m.text), code, some (.ofString m.level), spans] ∧
    IsOptional (fun s j => j = .ofString s) m.type type ∧ IsOptional IsCode m.code code ∧
    (spans = none ∧ m.spans = [] ∨
      ∃ js, spans = some (.arr js) ∧ List.Forall₂ Span.IsForm m.spans js)

section

variable {α : Type} {read : Json → Option α} {r : α → Json → Prop} {j : Json} {s : String}

theorem text?_eq_some_iff : j.text? = some s ↔ j = .ofString s := by
  cases j <;> simp [Json.text?, Json.ofString]

theorem bool?_eq_some_iff {b : Bool} : j.bool? = some b ↔ j = .bool b := by
  cases j <;> simp [Json.bool?]

theorem nullable?_eq_some_iff (hread : ∀ a j, read j = some a ↔ r a j) (hnull : ∀ a, ¬ r a .null)
    {a : Option α} {o : Option Json} : nullable? read o = some a ↔ IsOptional r a o := by
  constructor
  · intro h
    unfold nullable? at h
    split at h
    · obtain rfl := Option.some_inj.1 h
      exact .missing
    · obtain rfl := Option.some_inj.1 h
      exact .null
    · obtain ⟨x, hx, rfl⟩ := Option.map_eq_some_iff.1 h
      exact .given ((hread _ _).1 hx)
  · intro h
    cases h with
    | missing => rfl
    | null => rfl
    | @given x j h =>
      have hx := (hread x j).2 h
      unfold nullable?
      split
      next heq => cases heq
      next heq =>
        obtain rfl := Option.some_inj.1 heq
        exact absurd h (hnull x)
      next heq =>
        obtain rfl := Option.some_inj.1 heq
        rw [hx, Option.map_some]

theorem word32?_eq_some_iff {w : UInt32} : word32? j = some w ↔ IsWord w j := by
  rw [word32?, Option.map_eq_some_iff]
  constructor
  · rintro ⟨k, hk, rfl⟩
    unfold Json.natBelow? at hk
    split at hk
    next n =>
      split at hk
      next k' hn =>
        split at hk
        next hlt =>
          obtain rfl := Option.some_inj.1 hk
          exact ⟨n, rfl, by rw [hn, UInt32.toNat_ofNat_of_lt' hlt]; rfl⟩
        · cases hk
      · cases hk
    · cases hk
  · rintro ⟨n, rfl, hn⟩
    have hlt : w.toNat < UInt32.size := w.toNat_lt_size
    refine ⟨w.toNat, ?_, UInt32.ofNat_toNat⟩
    rw [Json.natBelow?, hn]
    exact if_pos hlt

theorem codeOfJson?_eq_some_iff {levels : ℕ} :
    codeOfJson? (levels + 1) j = some s ↔ IsCode s j := by
  rw [codeOfJson?, IsCode]
  constructor
  · intro h
    obtain ⟨slots, hslots, h⟩ := Option.bind_eq_some_iff.1 h
    split at h
    next code =>
      rw [hslots, text?_eq_some_iff.1 h]
    · cases h
  · intro h
    rw [h]
    rfl

theorem Span.ofJson?_eq_some_iff {levels : ℕ} {sp : Span} :
    Span.ofJson? (levels + 1) j = some sp ↔ sp.IsForm j := by
  rw [Span.ofJson?]
  constructor
  · intro h
    obtain ⟨slots, hslots, h⟩ := Option.bind_eq_some_iff.1 h
    split at h
    next line column =>
      obtain ⟨l, hl, h⟩ := Option.bind_eq_some_iff.1 h
      obtain ⟨c, hc, h⟩ := Option.bind_eq_some_iff.1 h
      obtain rfl := Option.some_inj.1 h
      exact ⟨_, _, _, hslots, word32?_eq_some_iff.1 hl, word32?_eq_some_iff.1 hc, .inl ⟨rfl, rfl⟩⟩
    next line column primary =>
      obtain ⟨l, hl, h⟩ := Option.bind_eq_some_iff.1 h
      obtain ⟨c, hc, h⟩ := Option.bind_eq_some_iff.1 h
      obtain ⟨b, hb, h⟩ := Option.bind_eq_some_iff.1 h
      obtain rfl := Option.some_inj.1 h
      exact ⟨_, _, _, hslots, word32?_eq_some_iff.1 hl, word32?_eq_some_iff.1 hc,
        .inr (congrArg some (bool?_eq_some_iff.1 hb))⟩
    · cases h
  · rintro ⟨line, column, primary, hslots, hl, hc, hp⟩
    rw [hslots]
    simp only [Option.bind_eq_bind, Option.bind_some]
    rcases hp with ⟨rfl, hp⟩ | rfl
    · simp [word32?_eq_some_iff.2 hl, word32?_eq_some_iff.2 hc, ← hp]
    · simp [word32?_eq_some_iff.2 hl, word32?_eq_some_iff.2 hc, Json.bool?]

theorem mapM_eq_some_iff (hread : ∀ a j, read j = some a ↔ r a j) {xs : List α} {js : List Json} :
    js.mapM read = some xs ↔ List.Forall₂ r xs js := by
  induction js generalizing xs with
  | nil => simp [eq_comm]
  | cons j js ih =>
    rw [List.mapM_cons, List.forall₂_cons_right_iff]
    constructor
    · intro h
      obtain ⟨x, hx, h⟩ := Option.bind_eq_some_iff.1 h
      obtain ⟨ys, hys, h⟩ := Option.bind_eq_some_iff.1 h
      obtain rfl := Option.some_inj.1 h
      exact ⟨x, ys, (hread x j).1 hx, ih.1 hys, rfl⟩
    · rintro ⟨x, ys, hx, hys, rfl⟩
      rw [(hread x j).2 hx, ih.2 hys]
      rfl

theorem list?_eq_some_iff {read : ℕ → Json → Option α} {levels : ℕ}
    (hread : ∀ a j, read levels j = some a ↔ r a j) {xs : List α} :
    j.list? (levels + 1) read = some xs ↔ ∃ js, j = .arr js ∧ List.Forall₂ r xs js := by
  cases j <;> simp [Json.list?, mapM_eq_some_iff hread]

end

namespace Message

variable {m : Message} {j : Json} {e : Entry}

/-- The fields of a message are read one after the other. -/
theorem ofJson?_of_slots {levels : ℕ} {type code spans : Option Json} {text level : Json}
    (h : j.slots? ["$message_type", "message", "code", "level", "spans"] =
      some [type, some text, code, some level, spans]) :
    ofJson? (levels + 1) j =
      (spans.elim (some []) (·.list? levels Span.ofJson?)).bind fun xs =>
        (nullable? Json.text? type).bind fun t => text.text?.bind fun s =>
          (nullable? (codeOfJson? levels) code).bind fun c => level.text?.bind fun l =>
            some ⟨t, s, c, l, xs⟩ := by
  rw [ofJson?, h]
  cases spans <;> rfl

/-- **What is read as a message.** The reader opens three levels: for the message, for its spans and
for each of them. -/
theorem ofJson?_eq_some_iff (levels : ℕ) : ofJson? (levels + 3) j = some m ↔ m.IsForm j := by
  have htype (a : Option String) (o : Option Json) :
      nullable? Json.text? o = some a ↔ IsOptional (fun s j => j = .ofString s) a o :=
    nullable?_eq_some_iff (fun _ _ => text?_eq_some_iff) fun _ h => by cases h
  have hcode (a : Option String) (o : Option Json) :
      nullable? (codeOfJson? (levels + 2)) o = some a ↔ IsOptional IsCode a o :=
    nullable?_eq_some_iff (fun _ _ => codeOfJson?_eq_some_iff) fun _ h => by cases h
  have hspans (xs : List Span) (j : Json) : j.list? (levels + 2) Span.ofJson? = some xs ↔
      ∃ js, j = .arr js ∧ List.Forall₂ Span.IsForm xs js :=
    list?_eq_some_iff fun _ _ => Span.ofJson?_eq_some_iff
  constructor
  · intro h
    have hfields := h
    rw [ofJson?] at h
    obtain ⟨slots, hslots, h⟩ := Option.bind_eq_some_iff.1 h
    split at h
    next type text code level spans =>
      rw [ofJson?_of_slots hslots] at hfields
      obtain ⟨xs, hxs, hfields⟩ := Option.bind_eq_some_iff.1 hfields
      obtain ⟨t, ht, hfields⟩ := Option.bind_eq_some_iff.1 hfields
      obtain ⟨s, hs, hfields⟩ := Option.bind_eq_some_iff.1 hfields
      obtain ⟨c, hc, hfields⟩ := Option.bind_eq_some_iff.1 hfields
      obtain ⟨l, hl, hfields⟩ := Option.bind_eq_some_iff.1 hfields
      obtain rfl := Option.some_inj.1 hfields
      rw [text?_eq_some_iff.1 hs, text?_eq_some_iff.1 hl] at hslots
      refine ⟨type, code, spans, hslots, (htype _ _).1 ht, (hcode _ _).1 hc, ?_⟩
      cases spans with
      | none => exact .inl ⟨rfl, (Option.some_inj.1 hxs).symm⟩
      | some j =>
        obtain ⟨js, rfl, hjs⟩ := (hspans xs j).1 hxs
        exact .inr ⟨js, rfl, hjs⟩
    · cases h
  · rintro ⟨type, code, spans, hslots, ht, hc, hs⟩
    have hxs : spans.elim (some []) (·.list? (levels + 2) Span.ofJson?) = some m.spans := by
      rcases hs with ⟨rfl, hnil⟩ | ⟨js, rfl, hjs⟩
      · rw [hnil, Option.elim_none]
      · exact (hspans _ _).2 ⟨js, rfl, hjs⟩
    rw [ofJson?_of_slots hslots, hxs, (htype _ _).2 ht, (hcode _ _).2 hc]
    rfl

/-! ## Lines -/

/-- A line holds a message: between blanks, it is the text of an object that stands for it. -/
def IsLine (m : Message) (line : List Char) : Prop :=
  ∃ ms, Json.parse? (Text.trim line) = some (.obj ms) ∧ m.IsForm (.obj ms)

/-- The message that a line holds. -/
def ofLine? (line : List Char) : Option Message :=
  if (Text.trim line).head? = some '{' then
    (Json.parse? (Text.trim line)).bind (ofJson? Json.maxLevels)
  else none

end Message

section

variable {cs rest : List Char} {fuel : ℕ} {ms : List (Option String × Json)} {j : Json}

open Json.Reader in
/-- The text of an object begins with a brace. -/
theorem exists_skipBlank_eq_of_value (h : value (fuel + 1) cs = some (.obj ms, rest)) :
    ∃ r, skipBlank cs = '{' :: r := by
  rw [value] at h
  split at h
  iterate 3 cases h
  · obtain ⟨_, -, h⟩ := Option.map_eq_some_iff.1 h
    cases h
  · split at h
    · cases h
    · obtain ⟨_, -, h⟩ := Option.map_eq_some_iff.1 h
      cases h
  next r heq => exact ⟨r, heq⟩
  · obtain ⟨_, -, h⟩ := Option.map_eq_some_iff.1 h
    cases h

open Json.Reader in
/-- What begins with a brace is the text of an object, or none. -/
theorem exists_obj_of_value (h : value (fuel + 1) ('{' :: cs) = some (j, rest)) :
    ∃ ms, j = .obj ms := by
  rw [value, skipBlank_cons rfl] at h
  split at h
  iterate 5 exact absurd (List.cons.inj (by assumption : '{' :: cs = _)).1 (by decide)
  · split at h
    · cases h
      exact ⟨_, rfl⟩
    · obtain ⟨_, -, h⟩ := Option.map_eq_some_iff.1 h
      cases h
      exact ⟨_, rfl⟩
  next hno => exact (hno cs rfl).elim

theorem exists_value_of_parse? (h : Json.parse? cs = some j) :
    ∃ fuel rest, Json.Reader.value (fuel + 1) cs = some (j, rest) := by
  obtain ⟨⟨j', rest⟩, hvalue, h⟩ := Option.bind_eq_some_iff.1 h
  dsimp only at h
  split_ifs at h
  obtain rfl := Option.some_inj.1 h
  exact ⟨_, rest, hvalue⟩

theorem isBlank_of_jsonBlank {c : Char} (h : Json.Reader.isBlank c = true) :
    Text.isBlank c = true := by
  simp only [Json.Reader.isBlank, Bool.or_eq_true, decide_eq_true_eq] at h
  rcases h with ((rfl | rfl) | rfl) | rfl <;> rfl

/-- Without its blanks, the text of an object begins with a brace. -/
theorem head?_trim_of_parse? {line : List Char}
    (h : Json.parse? (Text.trim line) = some (.obj ms)) :
    (Text.trim line).head? = some '{' := by
  obtain ⟨fuel, rest, hvalue⟩ := exists_value_of_parse? h
  obtain ⟨r, hr⟩ := exists_skipBlank_eq_of_value hvalue
  cases htrim : Text.trim line with
  | nil =>
    rw [htrim] at hr
    cases hr
  | cons c cs =>
    have hc : Text.isBlank c = false := Text.isBlank_of_head?_trim (by rw [htrim, List.head?_cons])
    have hc' : Json.Reader.isBlank c = false := by
      rw [← Bool.not_eq_true]
      intro h
      rw [isBlank_of_jsonBlank h] at hc
      cases hc
    rw [htrim, Json.Reader.skipBlank_cons hc'] at hr
    rw [(List.cons.inj hr).1, List.head?_cons]

end

namespace Message

variable {m : Message} {e : Entry} {line : List Char}

/-- **What is read as a line with a message.** -/
theorem ofLine?_eq_some_iff : ofLine? line = some m ↔ m.IsLine line := by
  rw [ofLine?, IsLine]
  constructor
  · intro h
    split_ifs at h with hhead
    obtain ⟨j, hj, h⟩ := Option.bind_eq_some_iff.1 h
    obtain ⟨cs, hcs⟩ := List.head?_eq_some_iff.1 hhead
    have hparse := hj
    rw [hcs] at hparse
    obtain ⟨fuel, rest, hvalue⟩ := exists_value_of_parse? hparse
    obtain ⟨ms, rfl⟩ := exists_obj_of_value hvalue
    exact ⟨ms, hj, (ofJson?_eq_some_iff 124).1 h⟩
  · rintro ⟨ms, hparse, hform⟩
    rw [if_pos (head?_trim_of_parse? hparse), hparse, Option.bind_some]
    exact (ofJson?_eq_some_iff 124).2 hform

/-! ## Written messages -/

/-- The tree of an optional value. -/
def optionalJson {α : Type} (write : α → Json) (o : Option α) : Json := o.elim .null write

theorem isOptional_optionalJson {α : Type} {write : α → Json} {r : α → Json → Prop}
    (h : ∀ a, r a (write a)) (o : Option α) : IsOptional r o (some (optionalJson write o)) := by
  cases o with
  | none => exact .null
  | some a => exact .given (h a)

/-- The tree of a span. -/
def spanJson (s : Span) : Json :=
  .record [("line_start", .num (.ofInt s.line.toNat)),
    ("column_start", .num (.ofInt s.column.toNat)), ("is_primary", .bool s.isPrimary)]

/-- The tree of a code. -/
def codeJson (code : String) : Json := .record [("code", .ofString code)]

/-- The tree of a message. -/
def toJson (m : Message) : Json :=
  .record [("$message_type", optionalJson .ofString m.type), ("message", .ofString m.text),
    ("code", optionalJson codeJson m.code), ("level", .ofString m.level),
    ("spans", .arr (m.spans.map spanJson))]

theorem isWord_ofInt (w : UInt32) : IsWord w (.num (.ofInt w.toNat)) := by
  have hlt : (w.toNat : ℤ) < UInt64.size :=
    lt_trans (by exact_mod_cast w.toNat_lt_size) (by decide : (UInt32.size : ℤ) < UInt64.size)
  exact ⟨_, rfl, Numeral.integer?_ofInt
    ((by decide : Int64.minValue.toInt ≤ 0).trans (by omega)) hlt⟩

theorem isForm_toJson (m : Message) : m.IsForm m.toJson := by
  have hspan (s : Span) : s.IsForm (spanJson s) :=
    ⟨_, _, _, rfl, isWord_ofInt s.line, isWord_ofInt s.column, .inr rfl⟩
  have hcode (code : String) : IsCode code (codeJson code) := rfl
  refine ⟨_, _, _, rfl, isOptional_optionalJson (r := fun s j => j = .ofString s) (fun _ => rfl) _,
    isOptional_optionalJson hcode _, .inr ⟨_, rfl, ?_⟩⟩
  exact List.forall₂_map_right_iff.2 (List.forall₂_same.2 fun s _ => hspan s)

theorem isStrict_optionalJson {α : Type} {write : α → Json} (h : ∀ a, (write a).IsStrict)
    (o : Option α) : (optionalJson write o).IsStrict := by
  cases o with
  | none => trivial
  | some a => exact h a

theorem isStrict_toJson (m : Message) : m.toJson.IsStrict := by
  have hspan (s : Span) : (spanJson s).IsStrict := by
    refine Json.isStrict_record fun p hp => ?_
    simp only [List.mem_cons, List.not_mem_nil, or_false] at hp
    rcases hp with rfl | rfl | rfl
    · exact Numeral.isStrict_ofInt _
    · exact Numeral.isStrict_ofInt _
    · trivial
  have htext (s : String) : (Json.ofString s).IsStrict := trivial
  have hcode (code : String) : (codeJson code).IsStrict := by
    refine Json.isStrict_record fun p hp => ?_
    obtain rfl := List.mem_singleton.1 hp
    trivial
  refine Json.isStrict_record fun p hp => ?_
  simp only [List.mem_cons, List.not_mem_nil, or_false] at hp
  rcases hp with rfl | rfl | rfl | rfl | rfl
  · exact isStrict_optionalJson htext m.type
  · trivial
  · exact isStrict_optionalJson hcode m.code
  · trivial
  · refine Json.areStrict_iff.2 fun j hj => ?_
    obtain ⟨s, -, rfl⟩ := List.mem_map.1 hj
    exact hspan s

/-- What is written for a message is one line. -/
theorem feed_notMem_write (m : Message) : '\n' ∉ m.toJson.write.toList := by
  rw [Json.write, String.toList_ofList]
  intro h
  exact absurd (Json.forall_mem_chars _ m.isStrict_toJson _ h) (by decide)

/-- What is written for an object has no blanks at its ends. -/
theorem trim_write (ms : List (String × Json)) :
    Text.trim (Json.record ms).write.toList = (Json.record ms).write.toList := by
  rw [Json.write, String.toList_ofList, Json.record, Json.chars, List.cons_append]
  refine Text.trim_cons rfl ?_
  rw [List.getLast_cons (by simp), List.getLast_append_singleton]
  rfl

/-- **Every message has a line.** -/
theorem isLine_write (m : Message) : m.IsLine m.toJson.write.toList := by
  have hparse : Json.parse? (Text.trim m.toJson.write.toList) = some m.toJson := by
    rw [toJson, trim_write]
    exact Json.parse?_write m.isStrict_toJson
  exact ⟨_, hparse, m.isForm_toJson⟩

/-! ## Entries -/

/-- The message is a diagnostic, and not of another type. -/
def IsReport (m : Message) : Prop := m.type = none ∨ m.type = some "diagnostic"

/-- The level begins with `error`. -/
def IsError (m : Message) : Prop := "error".toList <+: m.level.toList

/-- The place of a message. -/
inductive Points (m : Message) : UInt32 → UInt32 → Prop
  /-- The first primary span tells the place, wherever it stands. -/
  | primary {before s after} (h : m.spans = before ++ s :: after)
    (hbefore : ∀ x ∈ before, x.isPrimary = false) (hs : s.isPrimary = true) :
    Points m s.line s.column
  /-- Without a primary span, the first span tells it. -/
  | first {s after} (h : m.spans = s :: after) (hno : ∀ x ∈ m.spans, x.isPrimary = false) :
    Points m s.line s.column
  /-- Without a span, there is no place. -/
  | nowhere (h : m.spans = []) : Points m 0 0

/-- The entry that a message yields. -/
structure Yields (m : Message) (e : Entry) : Prop where
  report : m.IsReport
  level : m.IsError ∨ m.level = "warning"
  /-- A message without a span counts only if it is an error and no summary. -/
  counts : m.spans ≠ [] ∨ m.IsError ∧ ¬ "aborting due to".toList <+: m.text.toList
  severity : e.severity = .error ↔ m.IsError
  place : m.Points e.line e.column
  code : e.code = m.code.getD ""
  message : e.message = m.text

theorem isDiagnostic_iff : m.isDiagnostic = true ↔ m.IsReport := by
  rw [isDiagnostic, IsReport]
  cases m.type <;> simp

theorem points_iff {line column : UInt32} : m.Points line column ↔
    line = m.place?.elim 0 (·.line) ∧ column = m.place?.elim 0 (·.column) := by
  have hnone : m.spans.find? (·.isPrimary) = none ↔ ∀ x ∈ m.spans, x.isPrimary = false := by
    simp
  constructor
  · intro h
    cases h with
    | @primary before s after h hbefore hs =>
      have hfind : m.spans.find? (·.isPrimary) = some s :=
        List.find?_eq_some_iff_append.2 ⟨hs, before, after, h, by simpa using hbefore⟩
      rw [place?, hfind]
      exact ⟨rfl, rfl⟩
    | @first s after h hno =>
      rw [place?, hnone.2 hno, h]
      exact ⟨rfl, rfl⟩
    | nowhere h =>
      rw [place?, h]
      exact ⟨rfl, rfl⟩
  · rintro ⟨rfl, rfl⟩
    cases hfind : m.spans.find? (·.isPrimary) with
    | some s =>
      obtain ⟨hs, before, after, h, hbefore⟩ := List.find?_eq_some_iff_append.1 hfind
      rw [place?, hfind]
      exact .primary h (by simpa using hbefore) hs
    | none =>
      rw [place?, hfind]
      cases h : m.spans with
      | nil => exact .nowhere h
      | cons s after => exact .first h (hnone.1 hfind)

/-- A message has one place. -/
theorem Points.unique {line column line' column' : UInt32} (h : m.Points line column)
    (h' : m.Points line' column') : line = line' ∧ column = column' := by
  obtain ⟨rfl, rfl⟩ := points_iff.1 h
  obtain ⟨rfl, rfl⟩ := points_iff.1 h'
  exact ⟨rfl, rfl⟩

theorem place?_eq_none_iff : m.place? = none ↔ m.spans = [] := by
  rw [place?]
  cases h : m.spans with
  | nil => simp
  | cons s after => cases List.find? (·.isPrimary) (s :: after) <;> simp

theorem severity?_of_isError (h : m.IsError) : m.severity? = some .error := by
  rw [severity?, if_pos (List.isPrefixOf_iff_prefix.2 h)]

theorem severity?_of_not_isError (h : ¬ m.IsError) :
    m.severity? = if m.level = "warning" then some .warning else none := by
  rw [severity?, if_neg (mt List.isPrefixOf_iff_prefix.1 h)]

/-- A warning is no error. -/
theorem not_isError_of_warning (h : m.level = "warning") : ¬ m.IsError := by
  rw [IsError, h]
  decide

/-- The entry of a message of a given severity. -/
def entry (m : Message) (severity : Severity) : Entry :=
  ⟨severity, m.place?.elim 0 (·.line), m.place?.elim 0 (·.column), m.code.getD "", m.text⟩

theorem yield?_of_not_isReport (h : ¬ m.IsReport) : m.yield? = none := by
  rw [yield?, if_pos (by simp [← isDiagnostic_iff, ← Bool.not_eq_true] at h ⊢; exact h)]

theorem yield?_of_isError (hr : m.IsReport) (h : m.IsError) :
    m.yield? = if m.place? = none ∧ m.isSummary = true then none else some (m.entry .error) := by
  rw [yield?, if_neg (by simp [isDiagnostic_iff.2 hr]), entry]
  dsimp only
  rw [severity?_of_isError h]
  cases m.place? <;> simp

theorem yield?_of_warning (hr : m.IsReport) (h : m.level = "warning") :
    m.yield? = if m.place? = none then none else some (m.entry .warning) := by
  rw [yield?, if_neg (by simp [isDiagnostic_iff.2 hr]), entry]
  dsimp only
  rw [severity?_of_not_isError (not_isError_of_warning h), if_pos h]
  cases m.place? <;> simp

theorem yield?_of_level (h : ¬ m.IsError) (hw : m.level ≠ "warning") : m.yield? = none := by
  rw [yield?]
  split
  · rfl
  · dsimp only
    rw [severity?_of_not_isError h, if_neg hw]
    cases m.place? <;> rfl

theorem yields_entry {severity : Severity} (hr : m.IsReport) (hl : m.IsError ∨ m.level = "warning")
    (hc : m.spans ≠ [] ∨ m.IsError ∧ ¬ "aborting due to".toList <+: m.text.toList)
    (hs : severity = .error ↔ m.IsError) : m.Yields (m.entry severity) :=
  ⟨hr, hl, hc, hs, points_iff.2 ⟨rfl, rfl⟩, rfl, rfl⟩

theorem isSummary_iff : m.isSummary = true ↔ "aborting due to".toList <+: m.text.toList :=
  List.isPrefixOf_iff_prefix

/-- Two entries that a message yields are the same. -/
theorem Yields.eq {e' : Entry} (h : m.Yields e) (h' : m.Yields e') : e = e' := by
  obtain ⟨severity, line, column, code, message⟩ := e
  obtain ⟨severity', line', column', code', message'⟩ := e'
  have hseverity : severity = .error ↔ severity' = .error := h.severity.trans h'.severity.symm
  obtain ⟨hline, hcolumn⟩ := h.place.unique h'.place
  rw [Entry.mk.injEq]
  refine ⟨?_, hline, hcolumn, h.code.trans h'.code.symm, h.message.trans h'.message.symm⟩
  cases severity <;> cases severity' <;> simp at hseverity ⊢

/-- A message yields an entry, or there is none for it. -/
theorem yields_or_eq_none (m : Message) :
    (∃ e, m.yield? = some e ∧ m.Yields e) ∨ m.yield? = none ∧ ∀ e, ¬ m.Yields e := by
  by_cases hr : m.IsReport
  swap
  · exact .inr ⟨yield?_of_not_isReport hr, fun e h => hr h.report⟩
  by_cases herror : m.IsError
  · rw [yield?_of_isError hr herror]
    split
    next h =>
      obtain ⟨hplace, hsummary⟩ := h
      have hspans : m.spans = [] := place?_eq_none_iff.1 hplace
      exact .inr ⟨rfl, fun e he => he.counts.elim (fun hne => hne hspans)
        fun hs => hs.2 (isSummary_iff.1 hsummary)⟩
    next h =>
      refine .inl ⟨_, rfl, yields_entry hr (.inl herror) ?_ (iff_of_true rfl herror)⟩
      by_cases hspans : m.spans = []
      · refine .inr ⟨herror, fun hsummary => h ?_⟩
        exact ⟨place?_eq_none_iff.2 hspans, isSummary_iff.2 hsummary⟩
      · exact .inl hspans
  by_cases hwarning : m.level = "warning"
  · rw [yield?_of_warning hr hwarning]
    split
    next h =>
      exact .inr ⟨rfl, fun e he => he.counts.elim (fun hspans => hspans (place?_eq_none_iff.1 h))
        fun hs => herror hs.1⟩
    next h =>
      exact .inl ⟨_, rfl, yields_entry hr (.inr hwarning) (.inl (mt place?_eq_none_iff.2 h))
        (iff_of_false nofun herror)⟩
  · exact .inr ⟨yield?_of_level herror hwarning, fun e h => h.level.elim herror hwarning⟩

/-- **What a message yields.** -/
theorem yield?_eq_some_iff : m.yield? = some e ↔ m.Yields e := by
  rcases m.yields_or_eq_none with ⟨e', heq, he'⟩ | ⟨heq, hno⟩
  · rw [heq, Option.some_inj]
    exact ⟨fun h => h ▸ he', fun h => he'.eq h⟩
  · rw [heq]
    exact iff_of_false nofun (hno e)

theorem exists_yields (hr : m.IsReport) (hl : m.IsError ∨ m.level = "warning")
    (hc : m.spans ≠ [] ∨ m.IsError ∧ ¬ "aborting due to".toList <+: m.text.toList) :
    ∃ e, m.Yields e := by
  by_cases herror : m.IsError
  · exact ⟨_, yields_entry hr hl hc (iff_of_true rfl herror)⟩
  · have hs : Severity.warning = .error ↔ m.IsError := iff_of_false nofun herror
    exact ⟨_, yields_entry hr hl hc hs⟩

theorem Yields.severity_eq_warning_iff (h : m.Yields e) :
    e.severity = .warning ↔ m.level = "warning" := by
  have hnot : e.severity = .warning ↔ ¬ e.severity = .error := by
    cases e.severity <;> simp
  rw [hnot, h.severity]
  exact ⟨h.level.resolve_left, not_isError_of_warning⟩

end Message

end LiveBuild.Compiler
