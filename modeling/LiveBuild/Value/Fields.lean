/-!
# Fields

Named entries in ascending order of their names, each name once. Names are compared by code points,
which is also the order of their UTF-8 bytes.

* `Fields.insert`: sets the entry of a name;
* `Fields.ofList`: the entries of a list, in which the last one of a name wins;
* `Fields.get?`: the entry of a name.

`sorted_insert` and `sorted_ofList` say that the order is kept, and `ofList_of_sorted` that a list
in this order is kept as it is.
-/

namespace LiveBuild.Fields

variable {α : Type}

/-- The names ascend, so each occurs once. -/
def Sorted (fields : List (String × α)) : Prop :=
  fields.Pairwise fun a b => a.1 < b.1

/-- Sets the entry of a name. -/
def insert (name : String) (v : α) : List (String × α) → List (String × α)
  | [] => [(name, v)]
  | (n, w) :: rest =>
    if name < n then (name, v) :: (n, w) :: rest
    else if name = n then (name, v) :: rest
    else (n, w) :: insert name v rest

/-- The entries of a list; of a repeated name the last one. -/
def ofList (entries : List (String × α)) : List (String × α) :=
  entries.foldl (fun fields e => insert e.1 e.2 fields) []

/-- The entry of a name. -/
def get? (name : String) (fields : List (String × α)) : Option α :=
  (fields.find? (·.1 == name)).map (·.2)

theorem fst_mem_insert {name : String} {v : α} {fields : List (String × α)} {e : String × α}
    (h : e ∈ insert name v fields) : e = (name, v) ∨ e ∈ fields := by
  induction fields with
  | nil => simpa [insert] using h
  | cons f rest ih =>
    obtain ⟨n, w⟩ := f
    rw [insert] at h
    split at h
    · simpa using h
    · split at h
      · rcases List.mem_cons.1 h with h | h
        · exact .inl h
        · exact .inr (List.mem_cons_of_mem _ h)
      · rcases List.mem_cons.1 h with h | h
        · exact .inr (h ▸ List.mem_cons_self)
        · exact (ih h).imp_right (List.mem_cons_of_mem _)

theorem sorted_insert {name : String} {v : α} {fields : List (String × α)} (h : Sorted fields) :
    Sorted (insert name v fields) := by
  induction fields with
  | nil => simp [insert, Sorted]
  | cons f rest ih =>
    obtain ⟨n, w⟩ := f
    obtain ⟨hf, hr⟩ := List.pairwise_cons.1 h
    rw [insert]
    split
    · rename_i hlt
      refine List.pairwise_cons.2 ⟨fun e he => ?_, h⟩
      rcases List.mem_cons.1 he with rfl | he
      · exact hlt
      · exact String.lt_trans hlt (hf e he)
    · split
      · rename_i heq
        subst heq
        exact List.pairwise_cons.2 ⟨hf, hr⟩
      · rename_i hlt hne
        refine List.pairwise_cons.2 ⟨fun e he => ?_, ih hr⟩
        rcases fst_mem_insert he with rfl | he
        · exact Decidable.byContradiction fun h =>
            hne (String.le_antisymm (String.not_lt.1 h) (String.not_lt.1 hlt))
        · exact hf e he

theorem sorted_ofList (entries : List (String × α)) : Sorted (ofList entries) := by
  suffices h : ∀ fields, Sorted fields →
      Sorted (entries.foldl (fun fields e => insert e.1 e.2 fields) fields) from
    h [] List.Pairwise.nil
  induction entries with
  | nil => exact fun _ h => h
  | cons e rest ih => exact fun fields h => ih _ (sorted_insert h)

theorem mem_of_mem_ofList {entries : List (String × α)} {e : String × α} (h : e ∈ ofList entries) :
    e ∈ entries := by
  suffices key : ∀ fields, e ∈ entries.foldl (fun fields e => insert e.1 e.2 fields) fields →
      e ∈ fields ∨ e ∈ entries from (key [] h).resolve_left List.not_mem_nil
  clear h
  induction entries with
  | nil => exact fun _ h => .inl h
  | cons f rest ih =>
    intro fields h
    rcases ih _ h with h | h
    · rcases fst_mem_insert h with rfl | h
      · exact .inr List.mem_cons_self
      · exact .inl h
    · exact .inr (List.mem_cons_of_mem _ h)

theorem insert_of_forall_lt {name : String} {v : α} {fields : List (String × α)}
    (h : ∀ e ∈ fields, e.1 < name) : insert name v fields = fields ++ [(name, v)] := by
  induction fields with
  | nil => rfl
  | cons f rest ih =>
    obtain ⟨n, w⟩ := f
    have hn : n < name := h _ List.mem_cons_self
    rw [insert, if_neg (String.lt_asymm hn), if_neg (String.ne_of_lt hn).symm,
      ih fun e he => h e (List.mem_cons_of_mem _ he), List.cons_append]

theorem ofList_of_sorted {fields : List (String × α)} (h : Sorted fields) :
    ofList fields = fields := by
  suffices key : ∀ done, Sorted (done ++ fields) →
      fields.foldl (fun fields e => insert e.1 e.2 fields) done = done ++ fields from key [] h
  clear h
  induction fields with
  | nil => exact fun done _ => (List.append_nil done).symm
  | cons e rest ih =>
    intro done h
    have hlt : ∀ d ∈ done, d.1 < e.1 := fun d hd =>
      (List.pairwise_append.1 h).2.2 d hd e List.mem_cons_self
    rw [List.foldl_cons, insert_of_forall_lt hlt, ih _ (by simpa using h), List.append_assoc,
      List.singleton_append]

end LiveBuild.Fields
