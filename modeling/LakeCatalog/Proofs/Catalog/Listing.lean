import LakeCatalog.Catalog.Field
import LakeCatalog.Catalog.Proposal
import Mathlib.Data.List.Infix
import Mathlib.Tactic.Common

/-!
# The list of the fields

The fields of a table are those of the columns to which names lead, each column before the columns
below it. The fields for a column and for all that lies below it stand together, and all of them
begin with the name of the column. So moving the fields with a prefix behind the others moves whole
columns, unless the prefix has a point in it.
-/

namespace LakeCatalog.Catalog

open Schema

variable {below : ColumnType → List Column} {columns : List Column} {names : List String}
  {c : Column} {parent : Option String} {start : String}

lemma sizeOf_unfolded_le (type : ColumnType) : sizeOf (unfolded type) ≤ sizeOf type := by
  have nonempty : sizeOf ([] : List Column) ≤ sizeOf type := by
    cases type <;> simp <;> omega
  rw [unfolded.eq_def]
  split
  case h_4 => exact nonempty
  all_goals simp <;> omega

/-- What holds of a list of columns whenever it holds of the columns below each of them, holds of
every list of columns. -/
theorem induction_on_columns {motive : List Column → Prop}
    (step : ∀ columns, (∀ c ∈ columns, motive (unfolded c.type)) → motive columns)
    (columns : List Column) : motive columns :=
  step columns fun c _ => induction_on_columns step (unfolded c.type)
termination_by sizeOf columns
decreasing_by
  rename_i listed
  have smaller := List.sizeOf_lt_of_mem listed
  have below := sizeOf_unfolded_le c.type
  have whole : sizeOf c = 1 + sizeOf c.name + sizeOf c.type + sizeOf c.nullable + sizeOf c.doc := by
    cases c
    simp
  omega

lemma Leads.ne_nil (leads : Leads below columns names c) : names ≠ [] := by
  cases leads <;> exact List.cons_ne_nil _ _

/-- The first name is that of one of the columns. -/
lemma Leads.exists_first (leads : Leads below columns names c) :
    ∃ d ∈ columns, ∃ rest, names = d.name :: rest ∧ Leads below [d] names c := by
  cases leads with
  | here listed => exact ⟨c, listed, [], rfl, .here (List.mem_singleton_self c)⟩
  | @further _ d _ rest listed leads =>
    exact ⟨d, listed, rest, rfl, .further (List.mem_singleton_self d) leads⟩

lemma Leads.mono {more : List Column} (subset : columns ⊆ more)
    (leads : Leads below columns names c) : Leads below more names c := by
  cases leads with
  | here listed => exact .here (subset listed)
  | further listed leads => exact .further (subset listed) leads

namespace Field

lemma nested_eq (path : String) (type : ColumnType) :
    nested path type = ofColumns (some path) (unfolded type) := by
  rw [nested.eq_def, unfolded.eq_def]
  split <;> simp_all [ofColumns]

lemma ofColumn_eq (parent : Option String) (c : Column) :
    ofColumn parent c =
      along parent [c.name] c :: ofColumns (some (pathUnder parent c.name)) (unfolded c.type) := by
  rw [ofColumn, nested_eq]
  simp [along, Text.join, Text.joined]

lemma ofColumns_append (parent : Option String) (front back : List Column) :
    ofColumns parent (front ++ back) = ofColumns parent front ++ ofColumns parent back := by
  induction front with
  | nil => rfl
  | cons c front ih => rw [List.cons_append, ofColumns, ofColumns, ih, List.append_assoc]

/-- The path of a column below another one begins with the path of that one. -/
lemma along_cons (filled : names ≠ []) (name : String) (c : Column) :
    along (some (pathUnder parent name)) names c = along parent (name :: names) c := by
  obtain ⟨next, more, rfl⟩ := List.exists_cons_of_ne_nil filled
  have joined : Text.join "." (name :: next :: more) =
      name ++ "." ++ Text.join "." (next :: more) := by
    refine String.ext ?_
    simp [Text.join, Text.joined_cons_cons]
  cases parent <;> simp [along, pathUnder, joined, String.append_assoc]

lemma leads_of_mem {f : Field} (listed : f ∈ ofColumns parent columns) :
    ∃ names c, Leads unfolded columns names c ∧ f = along parent names c := by
  induction columns using induction_on_columns generalizing parent with
  | step columns deeper =>
    induction columns with
    | nil => cases listed
    | cons c rest ih =>
      rw [ofColumns, ofColumn_eq, List.cons_append, List.mem_cons, List.mem_append] at listed
      obtain rfl | inside | later := listed
      · exact ⟨[c.name], c, .here List.mem_cons_self, rfl⟩
      · obtain ⟨names, d, leads, rfl⟩ := deeper c List.mem_cons_self inside
        exact ⟨c.name :: names, d, .further List.mem_cons_self leads,
          along_cons leads.ne_nil c.name d⟩
      · obtain ⟨names, d, leads, same⟩ :=
          ih (fun d listed => deeper d (List.mem_cons_of_mem c listed)) later
        exact ⟨names, d, leads.mono (List.subset_cons_self c rest), same⟩

lemma leads_of_mem_ofColumn {f : Field} (mem : f ∈ ofColumn parent c) :
    ∃ names d, Leads unfolded [c] names d ∧ f = along parent names d := by
  refine leads_of_mem ?_
  rwa [ofColumns, ofColumns, List.append_nil]

lemma infix_of_mem (listed : c ∈ columns) : ofColumn parent c <:+: ofColumns parent columns := by
  obtain ⟨front, back, rfl⟩ := List.append_of_mem listed
  rw [ofColumns_append, ofColumns]
  exact ⟨ofColumns parent front, ofColumns parent back, List.append_assoc _ _ _⟩

/-- The field for a column is followed by those for all columns below it. -/
lemma infix_of_leads (leads : Leads unfolded columns names c) :
    along parent names c :: nested (along parent names c).path c.type <:+:
      ofColumns parent columns := by
  induction leads generalizing parent with
  | @here columns c listed =>
    have own : along parent [c.name] c :: nested (along parent [c.name] c).path c.type =
        ofColumn parent c := by
      rw [ofColumn_eq, nested_eq]
      simp [along, Text.join, Text.joined]
    exact own ▸ infix_of_mem listed
  | @further columns c d names listed leads ih =>
    rw [← along_cons leads.ne_nil c.name d]
    refine ih.trans (List.IsInfix.trans ?_ (infix_of_mem listed))
    rw [ofColumn_eq]
    exact (List.suffix_cons _ _).isInfix

/-- The fields of a table are those of the columns to which names lead. -/
theorem mem_ofColumns_iff {f : Field} :
    f ∈ ofColumns parent columns ↔
      ∃ names c, Leads unfolded columns names c ∧ f = along parent names c := by
  refine ⟨leads_of_mem, ?_⟩
  rintro ⟨names, c, leads, rfl⟩
  exact (infix_of_leads leads).subset List.mem_cons_self

/-- A text without a point begins a path exactly if it begins the first name in it. -/
lemma isPrefixOf_path (pointless : '.' ∉ start.toList) (name : String) (rest : List String) :
    start.toList.isPrefixOf (Text.join "." (name :: rest)).toList =
      start.toList.isPrefixOf name.toList := by
  rw [Bool.eq_iff_iff, List.isPrefixOf_iff_prefix, List.isPrefixOf_iff_prefix]
  cases rest with
  | nil => simp [Text.join, Text.joined]
  | cons next more =>
    have path : (Text.join "." (name :: next :: more)).toList =
        name.toList ++ '.' :: (Text.join "." (next :: more)).toList := by
      simp [Text.join, Text.joined_cons_cons]
    rw [path]
    refine ⟨fun starts => ?_, fun starts => starts.trans (List.prefix_append _ _)⟩
    obtain short | ⟨beyond, long⟩ := List.prefix_or_prefix_of_prefix starts (List.prefix_append _ _)
    · exact short
    · rw [← long] at starts pointless ⊢
      obtain ⟨tail, same⟩ := starts
      rw [List.append_assoc, List.append_cancel_left_eq] at same
      cases beyond with
      | nil => rw [List.append_nil]
      | cons d beyond =>
        cases (List.cons.inj same).1
        simp at pointless

/-- The field for a column and those for all columns below it begin alike. -/
lemma startsWith_of_mem_ofColumn (pointless : '.' ∉ start.toList) {f : Field}
    (mem : f ∈ ofColumn none c) : f.startsWith start = nameStartsWith start c := by
  obtain ⟨names, d, leads, rfl⟩ := leads_of_mem_ofColumn mem
  obtain ⟨first, listed, rest, rfl, -⟩ := leads.exists_first
  cases List.mem_singleton.mp listed
  exact isPrefixOf_path pointless c.name rest

/-- Where all fields of a column are kept or none, whole columns are kept. -/
lemma filter_ofColumns {keep : Field → Bool} {keepColumn : Column → Bool}
    (alike : ∀ c ∈ columns, ∀ f ∈ ofColumn none c, keep f = keepColumn c) :
    (ofColumns none columns).filter keep = ofColumns none (columns.filter keepColumn) := by
  induction columns with
  | nil => rfl
  | cons c rest ih =>
    obtain ⟨here, later⟩ := List.forall_mem_cons.mp alike
    rw [ofColumns, List.filter_append, ih later]
    cases kept : keepColumn c with
    | true =>
      have all : (ofColumn none c).filter keep = ofColumn none c :=
        List.filter_eq_self.mpr fun f mem => (here f mem).trans kept
      rw [List.filter_cons_of_pos kept, ofColumns, all]
    | false =>
      have none' : (ofColumn none c).filter keep = [] :=
        List.filter_eq_nil_iff.mpr fun f mem => by simp [here f mem, kept]
      rw [List.filter_cons_of_neg (by simp [kept]), none', List.nil_append]

lemma filter_reorder (start : String) (fields : List Field) (keep : Bool) :
    (reorder start fields).filter (startsWith start · == keep) =
      fields.filter (startsWith start · == keep) := by
  rw [reorder, List.filter_append, List.filter_filter, List.filter_filter]
  cases keep <;> simp

lemma reorder_perm (start : String) (fields : List Field) :
    (reorder start fields).Perm fields := by
  rw [reorder]
  exact List.perm_append_comm.trans (List.filter_append_perm _ fields)

lemma reorder_pairwise (start : String) (fields : List Field) :
    (reorder start fields).Pairwise fun f g =>
      f.startsWith start = true → g.startsWith start = true := by
  rw [reorder, List.pairwise_append]
  refine ⟨?_, ?_, ?_⟩
  · refine List.pairwise_of_forall_mem_list fun f mem g _ starts => ?_
    have other := (List.mem_filter.mp mem).2
    rw [starts] at other
    cases other
  · exact List.pairwise_of_forall_mem_list fun f _ g mem _ => (List.mem_filter.mp mem).2
  · exact fun f _ g mem _ => (List.mem_filter.mp mem).2

lemma reorder_reorder (start : String) (fields : List Field) :
    reorder start (reorder start fields) = reorder start fields := by
  have others := filter_reorder start fields false
  have moved := filter_reorder start fields true
  simp only [beq_false, beq_true] at others moved
  rw [reorder, others, moved, reorder]

end Field

def lake : Urn := ⟨"urn:li:dataPlatform:lake", by decide +kernel⟩

def stop : ColumnType := .record "stop" [⟨"name", .simple .string, true, none⟩]

/-- A table whose last column is of a given type. -/
def deliveries (stops : ColumnType) : TableSchema where
  name := "deliveries"
  spaceName := none
  columns := [⟨"id", .simple .long, false, none⟩, ⟨"depot", stop, false, none⟩,
    ⟨"stops", stops, false, none⟩]
  raw := ""

def Publisher.ofDeliveries (metadataStart : String) : Publisher where
  identity := ⟨⟨"urn:li:dataset:deliveries", by decide +kernel⟩,
    ⟨"urn:li:container:deliveries", by decide +kernel⟩, lake, "deliveries", "sales"⟩
  domain := none
  undoSoftDelete := false
  metadataStart := metadataStart

namespace Publisher

/-- With a prefix that has no point in it, the fields of a schema are those of the columns whose
names do not begin with it and then those of the others, in the order of the columns. No field is
lost or there twice, and the field for a column is followed by those for all columns below it. For
any fields and any prefix, moving the fields with the prefix behind the others keeps all of them and
the order in both groups, and doing it twice is doing it once. -/
theorem schema_fields_in_order (p : Publisher) (schema : TableSchema) :
    ('.' ∉ p.metadataStart.toList →
      (p.schemaAspect schema).fields =
        Field.ofColumns none (schema.columns.filter (!nameStartsWith p.metadataStart ·)) ++
          Field.ofColumns none (schema.columns.filter (nameStartsWith p.metadataStart)) ∧
      (p.schemaAspect schema).fields.Perm (Field.ofColumns none schema.columns) ∧
      ∀ names c, Leads unfolded schema.columns names c →
        Field.along none names c :: Field.nested (Field.along none names c).path c.type <:+:
          (p.schemaAspect schema).fields) ∧
    ∀ (start : String) (fields : List Field),
      (Field.reorder start fields).Perm fields ∧
      (∀ keep, (Field.reorder start fields).filter (Field.startsWith start · == keep) =
        fields.filter (Field.startsWith start · == keep)) ∧
      (Field.reorder start fields).Pairwise (fun f g =>
        f.startsWith start = true → g.startsWith start = true) ∧
      Field.reorder start (Field.reorder start fields) = Field.reorder start fields := by
  refine ⟨fun pointless => ?_, fun start fields => ?_⟩
  · have alike : ∀ c ∈ schema.columns, ∀ f ∈ Field.ofColumn none c,
        f.startsWith p.metadataStart = nameStartsWith p.metadataStart c :=
      fun c _ f mem => Field.startsWith_of_mem_ofColumn pointless mem
    have others : ∀ c ∈ schema.columns, ∀ f ∈ Field.ofColumn none c,
        (!f.startsWith p.metadataStart) = !nameStartsWith p.metadataStart c :=
      fun c listed f mem => congrArg (!·) (alike c listed f mem)
    have ordered : (p.schemaAspect schema).fields =
        Field.ofColumns none (schema.columns.filter (!nameStartsWith p.metadataStart ·)) ++
          Field.ofColumns none (schema.columns.filter (nameStartsWith p.metadataStart)) := by
      rw [← Field.filter_ofColumns alike, ← Field.filter_ofColumns others]
      rfl
    refine ⟨ordered, Field.reorder_perm _ _, fun names c leads => ?_⟩
    rw [ordered]
    obtain ⟨first, listed, -, -, leads⟩ := leads.exists_first
    have whole {kept : Column → Bool} (keep : kept first = true) :
        Field.along none names c :: Field.nested (Field.along none names c).path c.type <:+:
          Field.ofColumns none (schema.columns.filter kept) :=
      Field.infix_of_leads <| leads.mono fun d mem =>
        List.mem_singleton.mp mem ▸ List.mem_filter.mpr ⟨listed, keep⟩
    cases starts : nameStartsWith p.metadataStart first with
    | true => exact (whole starts).trans (List.suffix_append _ _).isInfix
    | false => exact (whole (by rw [starts]; rfl)).trans (List.prefix_append _ _).isInfix
  · exact ⟨Field.reorder_perm start fields, Field.filter_reorder start fields,
      Field.reorder_pairwise start fields, Field.reorder_reorder start fields⟩

/-- The depot of a delivery is moved behind its stops together with what lies below it. -/
theorem schema_fields_in_order_of_deliveries :
    let schema := deliveries (.array stop true)
    let fields := ((ofDeliveries "de").schemaAspect schema).fields
    '.' ∉ "de".toList ∧ fields.Perm (Field.ofColumns none schema.columns) ∧
      fields.map (·.path) = ["id", "stops", "stops.name", "depot", "depot.name"] := by
  intro schema fields
  have pointless : '.' ∉ "de".toList := by decide
  obtain ⟨ordered, same, -⟩ := (schema_fields_in_order (ofDeliveries "de") schema).1 pointless
  refine ⟨pointless, same, ?_⟩
  calc fields.map (·.path) = _ := congrArg (List.map (·.path)) ordered
    _ = ["id", "stops", "stops.name", "depot", "depot.name"] := by decide +kernel

end Publisher

end LakeCatalog.Catalog
