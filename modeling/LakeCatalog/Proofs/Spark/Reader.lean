import LakeCatalog.Proofs.Json.RoundTrip
import LakeCatalog.Spark.Reader

/-!
# Reading back a type

The JSON text of a type says all about it: whatever the type is and however deep it is nested,
reading the text gives it back. Objects are read with their members in another order than they are
written in, so members are looked up by name.
-/

namespace LakeCatalog.Spark

open Json (Fits ordered)

lemma memberJsons_eq_map (ms : List (MemberOf DataType)) : memberJsons ms = ms.map memberJson := by
  induction ms with
  | nil => rfl
  | cons m ms ih => rw [memberJsons, ih, List.map_cons]

mutual

lemma exists_fits_json : ∀ type : DataType, ∃ depth, Fits depth type.json
  | .simple _ => ⟨0, trivial⟩
  | .struct ms => by
    obtain ⟨depth, fits⟩ := exists_fits_members ms
    exact ⟨depth + 2, List.forall_mem_cons.mpr ⟨trivial, List.forall_mem_singleton.mpr fits⟩⟩
  | .array element _ => by
    obtain ⟨depth, fits⟩ := exists_fits_json element
    exact ⟨depth + 2, List.forall_mem_cons.mpr ⟨trivial, List.forall_mem_cons.mpr
      ⟨fits.mono (Nat.le_succ depth), List.forall_mem_singleton.mpr trivial⟩⟩⟩
  | .map value _ => by
    obtain ⟨depth, fits⟩ := exists_fits_json value
    exact ⟨depth + 2, List.forall_mem_cons.mpr ⟨trivial, List.forall_mem_cons.mpr
      ⟨trivial, List.forall_mem_cons.mpr
        ⟨fits.mono (Nat.le_succ depth), List.forall_mem_singleton.mpr trivial⟩⟩⟩⟩

lemma exists_fits_members : ∀ ms : List (MemberOf DataType),
    ∃ depth, ∀ j ∈ memberJsons ms, Fits depth j
  | [] => ⟨0, nofun⟩
  | m :: ms => by
    obtain ⟨depth, first⟩ := exists_fits_member m
    obtain ⟨depth', others⟩ := exists_fits_members ms
    exact ⟨max depth depth', List.forall_mem_cons.mpr ⟨first.mono (by omega),
      fun j hj => (others j hj).mono (by omega)⟩⟩

lemma exists_fits_member : ∀ m : MemberOf DataType, ∃ depth, Fits depth (memberJson m)
  | ⟨_, type, _⟩ => by
    obtain ⟨depth, fits⟩ := exists_fits_json type
    exact ⟨depth + 2, List.forall_mem_cons.mpr ⟨trivial, List.forall_mem_cons.mpr
      ⟨fits.mono (Nat.le_succ depth), List.forall_mem_cons.mpr
        ⟨trivial, List.forall_mem_singleton.mpr nofun⟩⟩⟩⟩

end

section

variable {type? : Json → Option DataType}

lemma memberOf?_ordered {m : MemberOf DataType}
    (read : type? (ordered m.type.json) = some m.type) :
    memberOf? type? (ordered (memberJson m)) = some m := by
  obtain ⟨name, type, nullable⟩ := m
  have found := Json.member?_ordered [("name", .string name), ("type", type.json),
    ("nullable", .bool nullable), ("metadata", .object [])] (by simp)
  rw [memberJson]
  generalize ordered _ = j at found ⊢
  simp [memberOf?, flag?, found, lookup_cons_entry, ordered, Json.string?, read]

lemma compound?_struct {ms : List (MemberOf DataType)}
    (read : ∀ m ∈ ms, type? (ordered m.type.json) = some m.type) :
    compound? type? (ordered (DataType.struct ms).json) = some (.struct ms) := by
  have found := Json.member?_ordered [("type", .string "struct"),
    ("fields", .array (memberJsons ms))] (by simp)
  have all : (Json.orderedItems (memberJsons ms)).mapM (memberOf? type?) = some ms := by
    rw [Json.orderedItems_eq_map, memberJsons_eq_map, List.map_map]
    exact Text.mapM_map_eq_some fun m hm => memberOf?_ordered (read m hm)
  rw [DataType.json]
  generalize ordered _ = j at found ⊢
  simp [compound?, found, lookup_cons_entry, ordered, Json.string?, Json.array?, all]

lemma compound?_array {element : DataType} (read : type? (ordered element.json) = some element)
    (containsNull : Bool) : compound? type? (ordered (DataType.array element containsNull).json) =
      some (.array element containsNull) := by
  have found := Json.member?_ordered [("type", .string "array"),
    ("elementType", element.json), ("containsNull", .bool containsNull)] (by simp)
  rw [DataType.json]
  generalize ordered _ = j at found ⊢
  simp [compound?, flag?, found, lookup_cons_entry, ordered, Json.string?, read]

lemma compound?_map {value : DataType} (key : type? (.string "string") = some (.simple "string"))
    (read : type? (ordered value.json) = some value) (containsNull : Bool) :
    compound? type? (ordered (DataType.map value containsNull).json) =
      some (.map value containsNull) := by
  have found := Json.member?_ordered [("type", .string "map"),
    ("keyType", .string "string"), ("valueType", value.json),
    ("valueContainsNull", .bool containsNull)] (by simp)
  rw [DataType.json]
  generalize ordered _ = j at found ⊢
  simp [compound?, flag?, found, lookup_cons_entry, ordered, Json.string?, key, read]

end

/-- A type is read back from its JSON value, at any depth that the value fits. -/
lemma ofJson?_ordered {depth : Nat} {type : DataType} (fits : Fits depth type.json) :
    DataType.ofJson? depth (ordered type.json) = some type := by
  induction depth generalizing type with
  | zero =>
    cases type with
    | simple name => rfl
    | _ => exact fits.elim
  | succ depth ih =>
    cases type with
    | simple name => rfl
    | struct ms =>
      refine compound?_struct fun ⟨name, type, nullable⟩ hm => ih ?_
      have fields : Fits depth (.array (memberJsons ms)) := fits ("fields", _) (by simp)
      have field := fields.of_mem_items (memberJsons_eq_map ms ▸ List.mem_map_of_mem hm)
      exact Fits.of_mem_members field (m := ("type", type.json)) (by simp)
    | array element containsNull =>
      exact compound?_array (ih (fits ("elementType", element.json) (by simp))) containsNull
    | map value containsNull =>
      refine compound?_map ?_ (ih (fits ("valueType", value.json) (by simp))) containsNull
      cases depth <;> rfl

/-- Every type is read back from its text. -/
theorem read?_compact (type : DataType) : DataType.read? type.json.compact = some type := by
  obtain ⟨depth, fits⟩ := exists_fits_json type
  have read := Json.readValue?_text fits.length_text (show Json.EndsNumber [] from nofun)
  rw [List.append_nil] at read
  rw [DataType.read?, Json.compact, String.length_ofList, String.toList_ofList, read]
  exact ofJson?_ordered fits.length_text

end LakeCatalog.Spark
