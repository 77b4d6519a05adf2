/-!
# Dictionaries

Finite maps from strings, kept as the list of their entries in ascending order of the keys (the
order of code points). The order makes the list unique: two dictionaries with the same values at
the same keys are the same list. Writing a key that is present replaces its value.
-/

namespace LakeCatalog

def insertEntry {α : Type} (key : String) (value : α) : List (String × α) → List (String × α)
  | [] => [(key, value)]
  | (k, v) :: rest =>
    if key < k then (key, value) :: (k, v) :: rest
    else if key = k then (key, value) :: rest
    else (k, v) :: insertEntry key value rest

/-- Entries in strictly ascending order of their keys. -/
def Ascending {α : Type} (entries : List (String × α)) : Prop :=
  entries.Pairwise fun a b => a.1 < b.1

theorem mem_of_mem_insertEntry {α : Type} {key : String} {value : α}
    {entries : List (String × α)} {e : String × α} (h : e ∈ insertEntry key value entries) :
    e = (key, value) ∨ e ∈ entries := by
  induction entries with
  | nil => simpa [insertEntry] using h
  | cons head rest ih =>
    unfold insertEntry at h
    split at h
    · simpa using h
    · split at h
      · rcases List.mem_cons.1 h with h | h
        · exact .inl h
        · exact .inr (by simp [h])
      · rcases List.mem_cons.1 h with h | h
        · exact .inr (by simp [h])
        · exact (ih h).imp_right (by simp +contextual)

theorem Ascending.insertEntry {α : Type} {entries : List (String × α)} (h : Ascending entries)
    (key : String) (value : α) : Ascending (insertEntry key value entries) := by
  induction entries with
  | nil => simp [Ascending, LakeCatalog.insertEntry]
  | cons head rest ih =>
    obtain ⟨hhead, hrest⟩ := List.pairwise_cons.1 h
    unfold LakeCatalog.insertEntry
    split
    · rename_i hlt
      refine List.pairwise_cons.2 ⟨fun e he => ?_, h⟩
      rcases List.mem_cons.1 he with rfl | he
      · exact hlt
      · exact String.lt_trans hlt (hhead e he)
    · split
      · rename_i heq
        refine List.pairwise_cons.2 ⟨fun e he => ?_, hrest⟩
        simpa [heq] using hhead e he
      · rename_i hnlt hne
        refine List.pairwise_cons.2 ⟨fun e he => ?_, ih hrest⟩
        rcases mem_of_mem_insertEntry he with rfl | he
        · exact Decidable.byContradiction fun hn =>
            hne (String.le_antisymm hn hnlt)
        · exact hhead e he

/-- A finite map from strings. -/
structure Dictionary (α : Type) where
  entries : List (String × α)
  ascending : Ascending entries
  deriving DecidableEq

namespace Dictionary

variable {α : Type}

def empty : Dictionary α :=
  ⟨[], List.Pairwise.nil⟩

instance : Inhabited (Dictionary α) :=
  ⟨empty⟩

def insert (d : Dictionary α) (key : String) (value : α) : Dictionary α :=
  ⟨insertEntry key value d.entries, d.ascending.insertEntry key value⟩

def get? (d : Dictionary α) (key : String) : Option α :=
  d.entries.lookup key

/-- The map with a value written at a key that has none. -/
def insertIfAbsent (d : Dictionary α) (key : String) (value : α) : Dictionary α :=
  if (d.get? key).isSome then d else d.insert key value

/-- The first map with the entries of a list written into it from first to last. -/
def insertMany (d : Dictionary α) (entries : List (String × α)) : Dictionary α :=
  entries.foldl (fun d e => d.insert e.1 e.2) d

/-- The map of a list; of entries with one key the last counts. -/
def ofList (entries : List (String × α)) : Dictionary α :=
  empty.insertMany entries

/-- The first map overridden by the second. -/
def overriddenBy (d e : Dictionary α) : Dictionary α :=
  d.insertMany e.entries

def keys (d : Dictionary α) : List String :=
  d.entries.map Prod.fst

end Dictionary

section

variable {α : Type}

theorem lookup_cons_entry (k' : String) (v : α) (rest : List (String × α)) (k : String) :
    ((k', v) :: rest).lookup k = if k = k' then some v else rest.lookup k := by
  rw [List.lookup_cons]
  by_cases h : k = k'
  · simp [h]
  · have hb : (k == k') = false := by simpa using h
    simp [hb, h]

theorem lookup_insertEntry {entries : List (String × α)} (key : String) (value : α)
    (k : String) :
    (insertEntry key value entries).lookup k =
      if k = key then some value else entries.lookup k := by
  induction entries with
  | nil => simp [insertEntry, lookup_cons_entry]
  | cons head rest ih =>
    obtain ⟨k', v'⟩ := head
    unfold insertEntry
    split
    · simp [lookup_cons_entry]
    · split
      · rename_i heq
        subst heq
        by_cases h : k = key <;> simp [lookup_cons_entry, h]
      · rename_i hne
        rw [lookup_cons_entry, lookup_cons_entry, ih]
        by_cases hk : k = k'
        · subst hk
          simp [Ne.symm hne]
        · simp [hk]

theorem lookup_map_values {β : Type} (f : α → β) (entries : List (String × α)) (k : String) :
    (entries.map fun e => (e.1, f e.2)).lookup k = (entries.lookup k).map f := by
  induction entries with
  | nil => rfl
  | cons e rest ih =>
    obtain ⟨key, value⟩ := e
    rw [List.map_cons, lookup_cons_entry, lookup_cons_entry, ih]
    by_cases h : k = key <;> simp [h]

/-- Among entries with different keys every one is found. -/
theorem lookup_eq_some_iff_mem {entries : List (String × α)}
    (distinct : entries.Pairwise fun a b => a.1 ≠ b.1) {k : String} {v : α} :
    entries.lookup k = some v ↔ (k, v) ∈ entries := by
  rw [List.lookup_eq_some_iff]
  constructor
  · rintro ⟨front, back, rfl, -⟩
    simp
  · intro h
    obtain ⟨front, back, rfl⟩ := List.append_of_mem h
    refine ⟨front, back, rfl, fun e he => ?_⟩
    have differs : e.1 ≠ k := (List.pairwise_append.mp distinct).2.2 e he (k, v) (by simp)
    simpa using differs.symm

theorem lookup_reverse {entries : List (String × α)}
    (distinct : entries.Pairwise fun a b => a.1 ≠ b.1) (k : String) :
    entries.reverse.lookup k = entries.lookup k := by
  have backwards : entries.reverse.Pairwise fun a b => a.1 ≠ b.1 :=
    List.pairwise_reverse.mpr (distinct.imp Ne.symm)
  refine Option.ext fun v => ?_
  rw [lookup_eq_some_iff_mem backwards, lookup_eq_some_iff_mem distinct, List.mem_reverse]

theorem Ascending.distinct {entries : List (String × α)} (h : Ascending entries) :
    entries.Pairwise fun a b => a.1 ≠ b.1 := by
  apply h.imp
  intro a b before same
  rw [same] at before
  exact String.lt_irrefl b.1 before

end

namespace Dictionary

variable {α : Type}

@[simp] theorem get?_empty (k : String) : (empty : Dictionary α).get? k = none := rfl

/-- Writing changes the value at the written key and no other. -/
@[simp] theorem get?_insert (d : Dictionary α) (key : String) (value : α) (k : String) :
    (d.insert key value).get? k = if k = key then some value else d.get? k :=
  lookup_insertEntry key value k

theorem get?_insertIfAbsent (d : Dictionary α) (key : String) (value : α) (k : String) :
    (d.insertIfAbsent key value).get? k = (d.get? k).or (if k = key then some value else none) := by
  unfold insertIfAbsent
  split
  · rename_i present
    obtain ⟨old, found⟩ := Option.isSome_iff_exists.mp present
    by_cases h : k = key
    · rw [h, found, Option.some_or]
    · rw [if_neg h, Option.or_none]
  · rename_i absent
    by_cases h : k = key
    · rw [h, Option.not_isSome_iff_eq_none.mp absent, Option.none_or, get?_insert, if_pos rfl,
        if_pos rfl]
    · rw [get?_insert, if_neg h, if_neg h, Option.or_none]

theorem get?_eq_some_iff_mem (d : Dictionary α) {k : String} {v : α} :
    d.get? k = some v ↔ (k, v) ∈ d.entries :=
  lookup_eq_some_iff_mem d.ascending.distinct

/-- A dictionary is determined by the values at its keys. -/
theorem ext_get? {d e : Dictionary α} (h : ∀ k, d.get? k = e.get? k) : d = e := by
  have same : ∀ x, x ∈ d.entries ↔ x ∈ e.entries := by
    rintro ⟨k, v⟩
    rw [← get?_eq_some_iff_mem, ← get?_eq_some_iff_mem, h]
  have nodup (f : Dictionary α) : f.entries.Nodup :=
    f.ascending.distinct.imp fun differs heq => differs (congrArg Prod.fst heq)
  have perm := (List.perm_ext_iff_of_nodup (nodup d) (nodup e)).mpr same
  have entries : d.entries = e.entries :=
    perm.eq_of_pairwise (fun a b _ _ hab hba => (String.lt_irrefl _ (String.lt_trans hab hba)).elim)
      d.ascending e.ascending
  cases d
  cases e
  cases entries
  rfl

/-- Of the entries that are written the last one with a key counts. -/
theorem get?_insertMany (d : Dictionary α) (entries : List (String × α)) (k : String) :
    (d.insertMany entries).get? k = (entries.reverse.lookup k).or (d.get? k) := by
  induction entries generalizing d with
  | nil => rfl
  | cons e rest ih =>
    have step : d.insertMany (e :: rest) = (d.insert e.1 e.2).insertMany rest := rfl
    rw [step, ih, List.reverse_cons, List.lookup_append, get?_insert, Option.or_assoc]
    have single : [e].lookup k = if k = e.1 then some e.2 else none := lookup_cons_entry ..
    rw [single]
    by_cases h : k = e.1 <;> simp [h]

theorem get?_insertMany_of_distinct (d : Dictionary α) {entries : List (String × α)}
    (distinct : entries.Pairwise fun a b => a.1 ≠ b.1) (k : String) :
    (d.insertMany entries).get? k = (entries.lookup k).or (d.get? k) := by
  rw [get?_insertMany, lookup_reverse distinct]

theorem get?_overriddenBy (d e : Dictionary α) (k : String) :
    (d.overriddenBy e).get? k = (e.get? k).or (d.get? k) :=
  get?_insertMany_of_distinct d e.ascending.distinct k

theorem get?_ofList (entries : List (String × α)) (k : String) :
    (ofList entries).get? k = entries.reverse.lookup k := by
  rw [ofList, get?_insertMany, get?_empty, Option.or_none]

/-- Entries that come later override those before. -/
theorem ofList_append (front back : List (String × α)) :
    ofList (front ++ back) = (ofList front).overriddenBy (ofList back) := by
  refine ext_get? fun k => ?_
  rw [get?_overriddenBy, get?_ofList, get?_ofList, get?_ofList, List.reverse_append,
    List.lookup_append]

theorem mem_of_mem_ofList {entries : List (String × α)} {e : String × α}
    (h : e ∈ (ofList entries).entries) : e ∈ entries := by
  have found := (ofList entries).get?_eq_some_iff_mem.mpr h
  rw [get?_ofList, List.lookup_eq_some_iff] at found
  obtain ⟨front, back, listed, -⟩ := found
  exact List.mem_reverse.mp (listed ▸ List.mem_append_right front List.mem_cons_self)

/-- The entries of a dictionary make it up in whatever order they are listed. -/
theorem ofList_of_perm {d : Dictionary α} {entries : List (String × α)}
    (listing : entries.Perm d.entries) : ofList entries = d := by
  have distinct : entries.Pairwise fun a b => a.1 ≠ b.1 :=
    (listing.pairwise_iff fun differs => Ne.symm differs).mpr d.ascending.distinct
  refine ext_get? fun k => Option.ext fun v => ?_
  rw [get?_ofList, lookup_reverse distinct, lookup_eq_some_iff_mem distinct, listing.mem_iff,
    get?_eq_some_iff_mem]

@[simp] theorem ofList_entries (d : Dictionary α) : ofList d.entries = d :=
  ofList_of_perm (List.Perm.refl _)

theorem mem_keys_iff {d : Dictionary α} {key : String} : key ∈ d.keys ↔ (d.get? key).isSome := by
  rw [get?, List.lookup_isSome_iff, keys, List.mem_map]
  exact ⟨fun ⟨e, he, same⟩ => ⟨e, he, beq_iff_eq.mpr same.symm⟩,
    fun ⟨e, he, same⟩ => ⟨e, he, (beq_iff_eq.mp same).symm⟩⟩

@[simp] theorem mem_keys_insertMany {d : Dictionary α} {entries : List (String × α)}
    {key : String} :
    key ∈ (d.insertMany entries).keys ↔ key ∈ d.keys ∨ ∃ e ∈ entries, e.1 = key := by
  simp only [mem_keys_iff, get?_insertMany, Option.isSome_or, Bool.or_eq_true,
    List.lookup_isSome_iff, List.mem_reverse, beq_iff_eq]
  rw [or_comm]
  simp only [eq_comm]

@[simp] theorem mem_keys_overriddenBy {d e : Dictionary α} {key : String} :
    key ∈ (d.overriddenBy e).keys ↔ key ∈ d.keys ∨ key ∈ e.keys := by
  rw [overriddenBy, mem_keys_insertMany, keys, keys, List.mem_map, List.mem_map]

@[simp] theorem mem_keys_ofList {entries : List (String × α)} {key : String} :
    key ∈ (ofList entries).keys ↔ ∃ e ∈ entries, e.1 = key := by
  rw [ofList, mem_keys_insertMany, or_iff_right]
  exact List.not_mem_nil

end Dictionary

end LakeCatalog
