import OtelSqlite.Model.Canonical
import OtelSqlite.Sqlite.Identity

/-!
# Resource columns and resource JSON

The service and host columns come from a search from the end of the attribute list, the JSON
from sorted indices of which equal keys are skipped. Both take the last attribute with a key,
as long as the `u32` indices reach every attribute.
-/

namespace OtelSqlite.Sqlite

open OtelSqlite.Lib OtelSqlite.Model

/-- The attributes that stand in the JSON of a list. -/
def keptAttributes (attributes : List Attribute) : List (String × AttributeValue) :=
  objectEntries (attributes.length % 2 ^ 32) (attributes.map fun a => (a.key, a.value))

/-- The JSON shows these attributes and nothing else. -/
theorem writeAttributesJson_eq_kept (formats : Formats) (attributes : List Attribute) :
    writeAttributesJson formats attributes = String.ofList (jsonObject
      ((keptAttributes attributes).map fun e => (e.1, e.2.serialize formats))) := by
  rw [keptAttributes, ← objectEntries_map, List.map_map]
  rfl

/-- A search from the end finds the value a key was given last. -/
theorem get_eq_lastValue (resource : Resource) (key : String) :
    resource.get key = lastValue (resource.attributes.map fun a => (a.key, a.value)) key := by
  obtain ⟨id, attributes, schemaUrl⟩ := resource
  induction attributes using List.reverseRecOn with
  | nil => rfl
  | append_singleton attributes a ih =>
    rw [List.map_append, List.map_singleton, lastValue_concat, ← ih]
    simp only [Resource.get, List.reverse_concat, List.find?_cons]
    by_cases h : a.key = key
    · simp [h]
    · simp [h, Ne.symm h]

theorem get_of_absent {resource : Resource} {key : String}
    (h : ∀ a ∈ resource.attributes, a.key ≠ key) : resource.get key = none := by
  rw [Resource.get, List.find?_eq_none.mpr, Option.map_none]
  intro a ha
  simpa using h a (List.mem_reverse.mp ha)

variable {resource : Resource}

section

variable (h : resource.attributes.length < 2 ^ 32)
include h

/-- The value that the JSON keeps for a key is the one the search finds. -/
theorem lookup_keptAttributes (key : String) :
    (keptAttributes resource.attributes).lookup key = resource.get key := by
  rw [get_eq_lastValue, keptAttributes, Nat.mod_eq_of_lt h, ← lookup_objectEntries,
    List.length_map]

/-- The text that a column takes for a key. -/
theorem asStr_get_of_string {key name : String}
    (hkept : (keptAttributes resource.attributes).lookup key = some (.string name)) :
    (resource.get key).bind AttributeValue.asStr = some name := by
  rw [← lookup_keptAttributes h, hkept]
  rfl

theorem asStr_get_of_not_string {key : String}
    (hkept : ∀ name, (keptAttributes resource.attributes).lookup key ≠ some (.string name)) :
    (resource.get key).bind AttributeValue.asStr = none := by
  rw [← lookup_keptAttributes h]
  cases hvalue : (keptAttributes resource.attributes).lookup key with
  | none => rfl
  | some value =>
    cases value with
    | string name => exact absurd hvalue (hkept name)
    | _ => rfl

end

/-- For fewer than `2 ^ 32` attributes the columns for the service and the host are what the
JSON of the row shows under their keys: the text, an empty host name as NULL, and what a
resource without the key has if the JSON shows no text there. -/
theorem resource_columns_agree_with_json (formats : Formats) (resource : Resource)
    (h : resource.attributes.length < 2 ^ 32) :
    let kept := keptAttributes resource.attributes
    let columns := resourceColumns formats resource
    columns.attributesJson =
      String.ofList (jsonObject (kept.map fun e => (e.1, e.2.serialize formats))) ∧
    (∀ name, kept.lookup "service.name" = some (.string name) → columns.serviceName = name) ∧
    ((∀ name, kept.lookup "service.name" ≠ some (.string name)) →
      ∀ absent : Resource, (∀ a ∈ absent.attributes, a.key ≠ "service.name") →
        columns.serviceName = (resourceColumns formats absent).serviceName) ∧
    (∀ name, kept.lookup "host.name" = some (.string name) →
      columns.hostName = if name = "" then none else some name) ∧
    ((∀ name, kept.lookup "host.name" ≠ some (.string name)) →
      ∀ absent : Resource, (∀ a ∈ absent.attributes, a.key ≠ "host.name") →
        columns.hostName = (resourceColumns formats absent).hostName) := by
  dsimp only [resourceColumns, Resource.serviceName, Resource.hostName]
  refine ⟨writeAttributesJson_eq_kept formats _, fun name hkept => ?_,
    fun hkept absent habsent => ?_, fun name hkept => ?_, fun hkept absent habsent => ?_⟩
  · rw [asStr_get_of_string h hkept, Option.getD_some]
  · rw [asStr_get_of_not_string h hkept, get_of_absent habsent, Option.bind_none]
  · rw [asStr_get_of_string h hkept, Option.getD_some, nonEmpty]
  · rw [asStr_get_of_not_string h hkept, get_of_absent habsent, Option.bind_none]

/-- A text that a number overrides, and a host given twice. -/
def repeatedKeys : List Attribute :=
  [⟨"service.name", .string "api"⟩, ⟨"host.name", .string "a"⟩, ⟨"service.name", .int 1⟩,
    ⟨"host.name", .string "b"⟩]

theorem resource_columns_of_repeated_keys :
    (resourceColumns lengthDigest.formats ⟨"", repeatedKeys, ""⟩).serviceName = "" ∧
      (resourceColumns lengthDigest.formats ⟨"", repeatedKeys, ""⟩).hostName = some "b" := by
  have hkeys : keptAttributes repeatedKeys =
      [("host.name", .string "b"), ("service.name", .int 1)] := by rfl
  obtain ⟨-, -, hservice, hhost, -⟩ :=
    resource_columns_agree_with_json lengthDigest.formats ⟨"", repeatedKeys, ""⟩ (by decide)
  refine ⟨(hservice ?_ ⟨"", [], ""⟩ (by simp)).trans rfl, (hhost "b" ?_).trans (if_neg (by decide))⟩
  · intro name
    rw [hkeys]
    exact fun h => by cases h
  · rw [hkeys]
    rfl

section Wrapped

theorem keptAttributes_of_wrapped {attributes : List Attribute}
    (h : attributes.length % 2 ^ 32 = 0) : keptAttributes attributes = [] := by
  rw [keptAttributes, h]
  rfl

theorem get_replicate {n : Nat} (hn : n ≠ 0) (a : Attribute) :
    Resource.get ⟨"", List.replicate n a, ""⟩ a.key = some a.value := by
  simp [Resource.get, hn]

/-- With `2 ^ 32` attributes no index is left and the JSON is empty, but the column is not. -/
theorem resource_json_empty_past_u32 :
    ∃ resource : Resource, resource.attributes.length = 2 ^ 32 ∧
      (keptAttributes resource.attributes).lookup "service.name" = none ∧
      (resourceColumns lengthDigest.formats resource).serviceName = "api" ∧
      (resourceColumns lengthDigest.formats ⟨"", [], ""⟩).serviceName = "" := by
  refine ⟨⟨"", List.replicate (2 ^ 32) ⟨"service.name", .string "api"⟩, ""⟩,
    List.length_replicate, ?_, ?_, rfl⟩
  · rw [keptAttributes_of_wrapped (by rw [List.length_replicate, Nat.mod_self])]
    rfl
  · have hget := get_replicate (n := 2 ^ 32) (by decide) ⟨"service.name", .string "api"⟩
    simp only [resourceColumns, Resource.serviceName, hget]
    rfl

end Wrapped

end OtelSqlite.Sqlite
