import LakeCatalog.Proofs.Catalog.Listing
import LakeCatalog.Proofs.SharedDataset
import Mathlib.Data.List.Nodup

/-!
# The paths of the fields

The path of a field is made of the names that lead to its column, with points between them. Where
the columns of every record are distinctly named, a path can be cut into its names again and the
names lead to one column only. So no two fields have the same path, and a path without its last name
is that of the column above, whose field stands before.
-/

namespace LakeCatalog.Catalog

open Schema
open Avro (Within rowType)

lemma join_concat {names : List String} (filled : names ≠ []) (last : String) :
    Text.join "." (names ++ [last]) = Text.join "." names ++ "." ++ last := by
  induction names with
  | nil => exact absurd rfl filled
  | cons name more ih =>
    refine String.ext ?_
    cases more with
    | nil => simp [Text.join, Text.joined]
    | cons next more =>
      have inside := congrArg String.toList (ih (List.cons_ne_nil next more))
      simp only [Text.join, List.map_append, List.map_cons, List.map_nil, String.toList_append,
        String.toList_ofList, List.cons_append, Text.joined_cons_cons] at inside ⊢
      rw [inside]
      simp

/-- Names without points are found again in their path. -/
lemma pieces_path {names : List String} (filled : names ≠ [])
    (pointless : ∀ name ∈ names, '.' ∉ name.toList) :
    Text.pieces (· == '.') (Text.join "." names).toList = names.map String.toList := by
  rw [Text.join, String.toList_ofList]
  refine Text.pieces_joined (by rfl) (by simpa using filled) fun piece mem d hd => ?_
  obtain ⟨name, listed, rfl⟩ := List.mem_map.mp mem
  refine beq_eq_false_iff_ne.mpr ?_
  rintro rfl
  exact pointless name listed hd

lemma path_injective {names names' : List String} (filled : names ≠ []) (filled' : names' ≠ [])
    (pointless : ∀ name ∈ names, '.' ∉ name.toList)
    (pointless' : ∀ name ∈ names', '.' ∉ name.toList)
    (same : Text.join "." names = Text.join "." names') : names = names' := by
  have pieces := pieces_path filled pointless
  rw [same, pieces_path filled' pointless'] at pieces
  exact (List.map_injective_iff.mpr (fun _ _ => String.ext) pieces).symm

/-- A path is cut at its last point in one way only. -/
lemma last_name_unique {front front' name name' : String} (pointless : '.' ∉ name.toList)
    (pointless' : '.' ∉ name'.toList) (same : front ++ "." ++ name = front' ++ "." ++ name') :
    front = front' ∧ name = name' := by
  have letters : front.toList ++ '.' :: name.toList = front'.toList ++ '.' :: name'.toList := by
    simpa using congrArg String.toList same
  have counts : name.toList.count '.' = name'.toList.count '.' := by
    rw [List.count_eq_zero.mpr pointless, List.count_eq_zero.mpr pointless']
  obtain ⟨fronts, names⟩ := (append_cons_eq_iff_of_count_after counts).mp letters
  exact ⟨String.ext fronts, String.ext names⟩

section

variable {type : ColumnType} {columns : List Column} {name : String} {names : List String}
  {c d : Column}

lemma wellNamed_record_iff :
    WellNamed (.record name columns) ↔
      DistinctlyNamed columns ∧ ∀ c ∈ columns, WellNamed c.type := by
  constructor
  · intro named
    refine ⟨named name columns (.whole _), fun c listed record columns within => ?_⟩
    exact named record columns (.part (List.mem_map_of_mem listed) within)
  · rintro ⟨level, each⟩ record columns' within
    cases within with
    | whole => exact level
    | part part within =>
      obtain ⟨c, listed, rfl⟩ := List.mem_map.mp part
      exact each c listed record columns' within

lemma wellNamed_nil (name : String) : WellNamed (.record name []) :=
  wellNamed_record_iff.mpr ⟨⟨List.nodup_nil, nofun⟩, nofun⟩

lemma WellNamed.record_held (named : WellNamed type) (name : String) :
    WellNamed (.record name (held type)) := by
  induction type using held.induct with
  | case1 record columns => exact wellNamed_record_iff.mpr (wellNamed_record_iff.mp named)
  | case2 items nullable ih | case3 items nullable ih =>
    exact ih fun record columns within =>
      named record columns (.part (List.mem_singleton_self items) within)
  | case4 type noRecord noArray noMap =>
    have bare : held type = [] := by
      rw [held.eq_def]
      split <;> simp_all
    exact bare ▸ wellNamed_nil name

/-- A type shows the columns of the record that it holds, or none. -/
lemma unfolded_eq_or (type : ColumnType) : unfolded type = held type ∨ unfolded type = [] := by
  rw [unfolded.eq_def]
  split <;> simp [held]

lemma WellNamed.record_unfolded (named : WellNamed type) (name : String) :
    WellNamed (.record name (unfolded type)) := by
  obtain same | none' := unfolded_eq_or type
  · exact same ▸ named.record_held name
  · exact none' ▸ wellNamed_nil name

lemma Leads.to_held (leads : Leads unfolded columns names c) : Leads held columns names c := by
  induction leads with
  | here listed => exact .here listed
  | @further columns c d names listed leads ih =>
    obtain same | none' := unfolded_eq_or c.type
    · exact .further listed (same ▸ ih)
    · rw [none'] at leads
      cases leads with
      | here listed | further listed => cases listed

lemma Leads.pointless (leads : Leads held columns names c)
    (named : WellNamed (.record name columns)) : ∀ part ∈ names, '.' ∉ part.toList := by
  induction leads with
  | here listed =>
    obtain ⟨level, -⟩ := wellNamed_record_iff.mp named
    exact List.forall_mem_singleton.mpr (level.pointless _ listed)
  | further listed leads ih =>
    obtain ⟨level, each⟩ := wellNamed_record_iff.mp named
    exact List.forall_mem_cons.mpr ⟨level.pointless _ listed, ih ((each _ listed).record_held name)⟩

/-- Names lead to one column only. -/
lemma Leads.unique (leads : Leads held columns names c)
    (leads' : Leads held columns names d) (named : WellNamed (.record name columns)) :
    c = d := by
  induction leads with
  | @here columns c listed =>
    obtain ⟨level, -⟩ := wellNamed_record_iff.mp named
    generalize same : [c.name] = names at leads'
    cases leads' with
    | here listed' =>
      exact List.inj_on_of_nodup_map level.distinct listed listed' (List.cons.inj same).1
    | further listed' deeper => exact absurd (List.cons.inj same).2.symm deeper.ne_nil
  | @further columns e c names listed leads ih =>
    obtain ⟨level, each⟩ := wellNamed_record_iff.mp named
    generalize same : e.name :: names = names' at leads'
    cases leads' with
    | here listed' => exact absurd (List.cons.inj same).2 leads.ne_nil
    | further listed' deeper =>
      obtain ⟨first, rfl⟩ := List.cons.inj same
      cases List.inj_on_of_nodup_map level.distinct listed listed' first
      exact ih deeper ((each _ listed).record_held name)

/-- Without its last name, what leads to a column below another one leads to that one. -/
lemma Leads.exists_above {below : ColumnType → List Column} (leads : Leads below columns names c) :
    names = [c.name] ∧ c ∈ columns ∨
      ∃ front above, names = front ++ [c.name] ∧ Leads below columns front above ∧
        c ∈ below above.type := by
  induction leads with
  | here listed => exact .inl ⟨rfl, listed⟩
  | @further columns e c names listed leads ih =>
    right
    obtain ⟨rfl, inside⟩ | ⟨front, above, rfl, leads, inside⟩ := ih
    · exact ⟨[e.name], e, rfl, .here listed, inside⟩
    · exact ⟨e.name :: front, above, rfl, .further listed leads, inside⟩

/-- Names lead to columns with the same path only if they are the same names. -/
lemma Leads.names_unique {names' : List String} (leads : Leads held columns names c)
    (leads' : Leads held columns names' d) (named : WellNamed (.record name columns))
    (same : Text.join "." names = Text.join "." names') : names = names' :=
  path_injective leads.ne_nil leads'.ne_nil (leads.pointless named) (leads'.pointless named) same

namespace Field

lemma path_along (parent : Option String) (names : List String) (c : Column) :
    (along parent names c).path = pathUnder parent (Text.join "." names) := rfl

lemma along_concat (filled : names ≠ []) {parent : Option String} (above c : Column) :
    along parent (names ++ [c.name]) c =
      along (some (along parent names above).path) [c.name] c := by
  rw [along, along, path_along, join_concat filled]
  cases parent <;> simp [pathUnder, Text.join, Text.joined, String.append_assoc]

lemma pathUnder_injective (parent : Option String) : Function.Injective (pathUnder parent) := by
  intro name name' same
  cases parent with
  | none => exact same
  | some path => exact (String.append_right_inj (path ++ ".")).mp same

/-- Names that lead to the columns of two fields are the same if the fields have the same path. -/
lemma names_of_path {names' : List String} {parent : Option String}
    (leads : Leads unfolded columns names c) (leads' : Leads unfolded columns names' d)
    (named : WellNamed (.record name columns))
    (same : (along parent names c).path = (along parent names' d).path) : names = names' :=
  leads.to_held.names_unique leads'.to_held named (pathUnder_injective parent same)

/-- A column and those below it have other paths than the columns after it. -/
lemma disjoint_paths {rest : List Column} (named : WellNamed (.record name (c :: rest)))
    (parent : Option String) : ((ofColumn parent c).map (·.path)).Disjoint
      ((ofColumns parent rest).map (·.path)) := by
  intro path mem mem'
  obtain ⟨f, inside, rfl⟩ := List.mem_map.mp mem
  obtain ⟨g, inside', same⟩ := List.mem_map.mp mem'
  obtain ⟨names, d, leads, rfl⟩ := leads_of_mem_ofColumn inside
  obtain ⟨names', d', leads', rfl⟩ := leads_of_mem inside'
  have first : [c] ⊆ c :: rest := List.cons_subset_cons c (List.nil_subset rest)
  cases names_of_path (leads'.mono (List.subset_cons_self c rest)) (leads.mono first) named same
  -- The names begin with that of the column and with that of one after it.
  obtain ⟨e, listed, more, rfl, -⟩ := leads'.exists_first
  obtain ⟨e', listed', more', same', -⟩ := leads.exists_first
  cases List.mem_singleton.mp listed'
  obtain ⟨level, -⟩ := wellNamed_record_iff.mp named
  have distinct := (List.nodup_cons.mp level.distinct).1
  exact distinct (List.mem_map.mpr ⟨e, listed, (List.cons.inj same').1⟩)

lemma nodup_paths (named : WellNamed (.record name columns)) (parent : Option String) :
    ((ofColumns parent columns).map (·.path)).Nodup := by
  induction columns using induction_on_columns generalizing parent with
  | step columns deeper =>
    induction columns with
    | nil => exact List.nodup_nil
    | cons c rest ih =>
      obtain ⟨level, each⟩ := wellNamed_record_iff.mp named
      obtain ⟨here, later⟩ := List.forall_mem_cons.mp each
      rw [ofColumns, List.map_append]
      refine List.Nodup.append ?_ ?_ (disjoint_paths named parent)
      · rw [ofColumn_eq, List.map_cons, List.nodup_cons]
        refine ⟨fun mem => ?_, deeper c List.mem_cons_self (here.record_unfolded name) _⟩
        obtain ⟨f, inside, same⟩ := List.mem_map.mp mem
        obtain ⟨names, d, leads, rfl⟩ := leads_of_mem inside
        rw [along_cons leads.ne_nil] at same
        have names' := names_of_path (.further List.mem_cons_self leads) (.here List.mem_cons_self)
          named same
        exact leads.ne_nil (List.cons.inj names').2
      · refine ih (fun d listed => deeper d (List.mem_cons_of_mem c listed)) ?_
        refine wellNamed_record_iff.mpr ⟨⟨(List.nodup_cons.mp level.distinct).2, ?_⟩, later⟩
        exact fun d listed => level.pointless d (List.mem_cons_of_mem c listed)

/-- The field for a column stands before that for a column below it. -/
lemma exists_split_below {above : Column} (leads : Leads unfolded columns names above)
    (inside : c ∈ unfolded above.type) :
    ∃ before after, ofColumns none columns = before ++ along none (names ++ [c.name]) c :: after ∧
      along none names above ∈ before := by
  have below : along none (names ++ [c.name]) c ∈
      nested (along none names above).path above.type := by
    rw [nested_eq, mem_ofColumns_iff]
    exact ⟨[c.name], c, .here inside, along_concat leads.ne_nil above c⟩
  obtain ⟨first, second, parts⟩ := List.append_of_mem below
  obtain ⟨earlier, later, whole⟩ : along none names above ::
      nested (along none names above).path above.type <:+: ofColumns none columns :=
    infix_of_leads leads
  refine ⟨earlier ++ along none names above :: first, second ++ later, ?_, by simp⟩
  rw [← whole, parts]
  simp

/-- The field for a column below another one stands behind the field for that one. -/
lemma path_above_mem (named : WellNamed (.record name columns)) {before after : List Field}
    {f : Field} (split : ofColumns none columns = before ++ f :: after) {parent last : String}
    (path : f.path = parent ++ "." ++ last) (pointless : '.' ∉ last.toList) :
    parent ∈ before.map (·.path) := by
  have once : f ∉ before ++ after := by
    have distinct := (nodup_paths named none).of_map
    rw [split] at distinct
    exact (List.nodup_cons.mp (List.nodup_middle.mp distinct)).1
  have mem : f ∈ ofColumns none columns := split ▸ List.mem_append_right before List.mem_cons_self
  obtain ⟨names, c, leads, rfl⟩ := leads_of_mem mem
  have plain := leads.to_held.pointless named
  obtain ⟨rfl, -⟩ | ⟨front, above, rfl, leads, inside⟩ := leads.exists_above
  · have dotted : '.' ∈ c.name.toList := by
      have whole := congrArg String.toList path
      simp [path_along, pathUnder, Text.join, Text.joined] at whole
      simp [whole]
    exact absurd dotted (plain c.name (List.mem_singleton_self _))
  · have isLast := plain c.name (List.mem_append_right _ (List.mem_singleton_self _))
    have cut := path
    rw [path_along, join_concat leads.ne_nil] at cut
    obtain ⟨rfl, -⟩ := last_name_unique isLast pointless cut
    obtain ⟨earlier, later, split', ahead⟩ := exists_split_below leads inside
    -- The field is in the list only once, so both ways to cut the list there are the same.
    obtain ⟨notBefore, notAfter⟩ := not_or.mp (List.mem_append.not.mp once)
    obtain ⟨rfl, -⟩ :=
      (List.append_cons_inj_of_notMem notBefore notAfter).mp (split.symm.trans split')
    exact List.mem_map.mpr ⟨along none front above, ahead, rfl⟩

end Field

end

/-- Where the columns of every record are distinctly named, the fields of a schema have different
paths, and of the fields before one that lies below another column, exactly one has the path of that
column. -/
theorem field_paths_unambiguous (schema : TableSchema) (platform : Urn) (schemaName : String)
    (named : WellNamed (rowType schema)) :
    let fields := (SchemaAspect.ofTable schema platform schemaName).fields
    (fields.map (·.path)).Nodup ∧
    ∀ before f after, fields = before ++ f :: after →
      ∀ parent last, f.path = parent ++ "." ++ last → '.' ∉ last.toList →
        (before.map (·.path)).count parent = 1 := by
  intro fields
  have distinct : (fields.map (·.path)).Nodup := Field.nodup_paths named none
  refine ⟨distinct, fun before f after split parent last path pointless => ?_⟩
  refine List.count_eq_one_of_mem ?_ (Field.path_above_mem named split path pointless)
  rw [split, List.map_append] at distinct
  exact (List.nodup_append.mp distinct).1

lemma wellNamed_simple (type : SimpleType) : WellNamed (.simple type) := by
  intro name columns within
  cases within with
  | part listed => cases listed

lemma wellNamed_array {items : ColumnType} (named : WellNamed items) (nullable : Bool) :
    WellNamed (.array items nullable) := by
  intro name columns within
  cases within with
  | part listed within =>
    cases List.mem_singleton.mp listed
    exact named name columns within

lemma wellNamed_stop : WellNamed stop :=
  wellNamed_record_iff.mpr ⟨⟨by decide, by decide⟩, by simp [wellNamed_simple]⟩

lemma wellNamed_deliveries {stops : ColumnType} (named : WellNamed stops) :
    WellNamed (rowType (deliveries stops)) :=
  wellNamed_record_iff.mpr ⟨⟨by simp [deliveries], by simp [deliveries]⟩,
    by simp [deliveries, wellNamed_simple, wellNamed_stop, named]⟩

/-- The stops of a delivery and its depot have columns of one name, but not of one path. -/
theorem field_paths_unambiguous_of_deliveries :
    WellNamed (rowType (deliveries (.array stop true))) ∧
    let fields := (SchemaAspect.ofTable (deliveries (.array stop true)) lake "sales").fields
    fields.map (·.path) = ["id", "depot", "depot.name", "stops", "stops.name"] ∧
      (fields.map (·.path)).Nodup ∧ ((fields.take 4).map (·.path)).count "stops" = 1 := by
  have named := wellNamed_deliveries (wellNamed_array wellNamed_stop true)
  obtain ⟨distinct, above⟩ := field_paths_unambiguous _ lake "sales" named
  refine ⟨named, by decide +kernel, distinct, ?_⟩
  exact above _ _ [] (by rfl) "stops" "name" (by rfl) (by decide)

end LakeCatalog.Catalog
