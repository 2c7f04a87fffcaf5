import OtelSqlite.Model.Log

/-!
# OTLP messages

The protobuf messages of a logs export, with the fields the mapping reads. An empty
`AnyValue` is its own constructor. `AnyValue` contains itself through arrays and through
the entries of key-value lists; `AnyValue.nested` is the induction that goes with it.
-/

namespace OtelSqlite.Mapping

open OtelSqlite.Lib OtelSqlite.Model

mutual
inductive AnyValue where
  | unset
  | stringValue (value : String)
  | boolValue (value : Bool)
  | intValue (value : Int64)
  | doubleValue (value : F64)
  | arrayValue (values : List AnyValue)
  | kvlistValue (values : List KeyValue)
  | bytesValue (value : Bytes)
  | stringValueStrindex (index : Int32)

structure KeyValue where
  key : String
  value : Option AnyValue
end

/-- `value.unwrap_or_default()`. -/
def KeyValue.valueOrDefault (entry : KeyValue) : AnyValue := entry.value.getD .unset

structure InstrumentationScope where
  name : String
  version : String
  attributes : List KeyValue

structure ProtoResource where
  attributes : List KeyValue

structure ProtoLogRecord where
  timeUnixNano : UInt64
  observedTimeUnixNano : UInt64
  severityNumber : Int32
  severityText : String
  body : Option AnyValue
  attributes : List KeyValue
  droppedAttributesCount : UInt32
  flags : UInt32
  traceId : Bytes
  spanId : Bytes
  eventName : String

structure ScopeLogs where
  scope : Option InstrumentationScope
  logRecords : List ProtoLogRecord
  schemaUrl : String

structure ResourceLogs where
  resource : Option ProtoResource
  scopeLogs : List ScopeLogs
  schemaUrl : String

section Sizes

theorem KeyValue.sizeOf_valueOrDefault_lt (entry : KeyValue) :
    sizeOf entry.valueOrDefault < sizeOf entry := by
  obtain ⟨key, _ | value⟩ := entry
  · simp [valueOrDefault]
  · simp [valueOrDefault]
    omega

theorem AnyValue.sizeOf_entry_lt {entry : KeyValue} {values : List KeyValue} (h : entry ∈ values) :
    sizeOf entry.valueOrDefault < sizeOf (AnyValue.kvlistValue values) := by
  have hmem := List.sizeOf_lt_of_mem h
  have hvalue := entry.sizeOf_valueOrDefault_lt
  simp only [AnyValue.kvlistValue.sizeOf_spec]
  omega

theorem AnyValue.sizeOf_item_lt {value : AnyValue} {values : List AnyValue} (h : value ∈ values) :
    sizeOf value < sizeOf (AnyValue.arrayValue values) := by
  have hmem := List.sizeOf_lt_of_mem h
  simp only [AnyValue.arrayValue.sizeOf_spec]
  omega

end Sizes

/-- Induction over nested values: containers from what they hold, everything else
directly. -/
theorem AnyValue.nested {motive : AnyValue → Prop}
    (leaf : ∀ value, (∀ values, value ≠ .arrayValue values) →
      (∀ values, value ≠ .kvlistValue values) → motive value)
    (array : ∀ values, (∀ value ∈ values, motive value) → motive (.arrayValue values))
    (kvlist : ∀ values : List KeyValue, (∀ entry ∈ values, motive entry.valueOrDefault) →
      motive (.kvlistValue values)) :
    ∀ value, motive value
  | .arrayValue values => array values fun value _ => AnyValue.nested leaf array kvlist value
  | .kvlistValue values =>
    kvlist values fun entry _ => AnyValue.nested leaf array kvlist entry.valueOrDefault
  | .unset => leaf _ (by simp) (by simp)
  | .stringValue _ => leaf _ (by simp) (by simp)
  | .boolValue _ => leaf _ (by simp) (by simp)
  | .intValue _ => leaf _ (by simp) (by simp)
  | .doubleValue _ => leaf _ (by simp) (by simp)
  | .bytesValue _ => leaf _ (by simp) (by simp)
  | .stringValueStrindex _ => leaf _ (by simp) (by simp)
termination_by value => sizeOf value
decreasing_by
  · exact AnyValue.sizeOf_item_lt ‹_›
  · exact AnyValue.sizeOf_entry_lt ‹_›

/-- How many values there are in a value, itself included. -/
def AnyValue.nodes : AnyValue → Nat
  | .arrayValue values => (values.map nodes).sum + 1
  | .kvlistValue values => (values.map fun entry => nodes entry.valueOrDefault).sum + 1
  | _ => 1
termination_by value => sizeOf value
decreasing_by
  · exact AnyValue.sizeOf_item_lt ‹_›
  · exact AnyValue.sizeOf_entry_lt ‹_›

theorem AnyValue.nodes_pos (value : AnyValue) : 0 < value.nodes := by
  unfold nodes
  split <;> omega

theorem AnyValue.sum_nodes_items_lt (values : List AnyValue) :
    (values.map nodes).sum < (arrayValue values).nodes := by
  rw [nodes]
  omega

theorem AnyValue.sum_nodes_entries_lt (values : List KeyValue) :
    ((values.filterMap KeyValue.value).map nodes).sum < (kvlistValue values).nodes := by
  rw [nodes]
  apply Nat.lt_succ_of_le
  induction values with
  | nil => simp
  | cons entry values ih =>
    obtain ⟨key, _ | value⟩ := entry
    · simp only [List.filterMap_cons_none, List.map_cons, List.sum_cons]
      omega
    · simpa [KeyValue.valueOrDefault] using ih

end OtelSqlite.Mapping
