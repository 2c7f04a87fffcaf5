import OtelSqlite.Lib.Sequence
import OtelSqlite.Lib.StackWalk
import OtelSqlite.Mapping.Otlp

/-!
# Conversion helpers and bounds of the mapping

`attribute_value` recurses and counts its depth, `check_any_value` and `any_value_size`
walk an explicit stack. The sizes of the Rust structs are parameters (`StructSizes`).
The counters of lost values are left out.
-/

namespace OtelSqlite.Mapping

open OtelSqlite.Lib OtelSqlite.Model

inductive IngressError where
  | mapping (message : String)
  deriving DecidableEq, Repr

/-- The limits of `IngressConfig` with their defaults. -/
structure IngressConfig where
  maxAttributesPerRecord : Nat := 1000
  maxAttributeKeyBytes : Nat := 512
  maxAttributeValueBytes : Nat := 64 * 1024
  maxBodyBytes : Nat := 1024 * 1024
  maxScopeMetadataExpansionBytes : Nat := 16 * 1024 * 1024
  deriving DecidableEq, Repr

def maxNestingDepth : Nat := 32

def rejectIf (p : Prop) [Decidable p] (message : String) : Except IngressError Unit :=
  if p then .error (.mapping message) else .ok ()

theorem rejectIf_ok_iff {p : Prop} [Decidable p] {message : String} :
    rejectIf p message = .ok () ↔ ¬p := by
  unfold rejectIf
  split <;> simp [*]

section Ids

inductive ParsedId (n : Nat) where
  | absent
  | valid (id : Vector UInt8 n)
  | invalid
  deriving DecidableEq, Repr

def ParsedId.intoId {n : Nat} : ParsedId n → Option (Vector UInt8 n)
  | .valid id => some id
  | .absent => none
  | .invalid => none

def parseId (n : Nat) (value : Bytes) : ParsedId n :=
  if value.isEmpty then .absent
  else if h : value.length = n then
    let id : Vector UInt8 n := ⟨value.toArray, h⟩
    if id ≠ Vector.replicate n 0 then .valid id else .invalid
  else .invalid

def parseTraceId (value : Bytes) : ParsedId 16 := parseId 16 value

def parseSpanId (value : Bytes) : ParsedId 8 := parseId 8 value

end Ids

/-- Instants past the largest `i64` become the largest one. -/
def timestamp (value : UInt64) : Int64 :=
  if value.toNat < 2 ^ 63 then value.toInt64 else Int64.maxValue

section Conversion

def nestingError : IngressError :=
  .mapping s!"attribute value exceeds maximum nesting depth of {maxNestingDepth}"

def attributeValueWithDepth : AnyValue → Nat → Except IngressError AttributeValue
  | .stringValue value, _ => .ok (.string value)
  | .intValue value, _ => .ok (.int value)
  | .doubleValue value, _ => .ok (.double value)
  | .boolValue value, _ => .ok (.bool value)
  | .bytesValue value, _ => .ok (.bytes value)
  | .arrayValue values, depth =>
    if maxNestingDepth ≤ depth then .error nestingError
    else do
      let items ← values.mapM fun nested => attributeValueWithDepth nested (depth + 1)
      return .array items
  | .kvlistValue values, depth =>
    if maxNestingDepth ≤ depth then .error nestingError
    else do
      let entries ← values.mapM fun (entry : KeyValue) => do
        let value ← attributeValueWithDepth entry.valueOrDefault (depth + 1)
        return { key := entry.key, value }
      return .kvlist entries
  | .stringValueStrindex _, _ => .ok .null
  | .unset, _ => .ok .null
termination_by value => sizeOf value
decreasing_by
  · exact AnyValue.sizeOf_item_lt ‹_›
  · exact AnyValue.sizeOf_entry_lt ‹_›

def attributeValue (value : AnyValue) : Except IngressError AttributeValue :=
  attributeValueWithDepth value 0

def attributes (values : List KeyValue) : Except IngressError (List Attribute) :=
  values.mapM fun (entry : KeyValue) => do
    let value ← attributeValue entry.valueOrDefault
    return { key := entry.key, value }

def convertResource (value : ProtoResource) (schemaUrl : String) :
    Except IngressError Resource := do
  let attributes ← attributes value.attributes
  return { id := "", attributes, schemaUrl }

end Conversion

section Checks

variable (limits : IngressConfig) (what : String)

def checkLength (shown : String) (length limit : Nat) : Except IngressError Unit :=
  rejectIf (limit < length) s!"{shown} exceeds {length} bytes (limit {limit})"

def checkPlainString (value : String) : Except IngressError Unit :=
  checkLength what value.utf8ByteSize limits.maxAttributeValueBytes

/-- The body of the loop of `check_any_value`: what is checked of the popped value and
what is pushed. -/
def visitValue : Unit → AnyValue × Nat → Except IngressError (Unit × List (AnyValue × Nat))
  | _, (.stringValue value, _) => do
    checkLength (what ++ " string value") value.utf8ByteSize limits.maxAttributeValueBytes
    return ((), [])
  | _, (.bytesValue value, _) => do
    checkLength (what ++ " bytes value") value.length limits.maxAttributeValueBytes
    return ((), [])
  | _, (.arrayValue values, depth) => do
    rejectIf (maxNestingDepth ≤ depth) s!"{what} exceeds maximum nesting depth of {maxNestingDepth}"
    return ((), values.map (·, depth + 1))
  | _, (.kvlistValue values, depth) => do
    rejectIf (maxNestingDepth ≤ depth) s!"{what} exceeds maximum nesting depth of {maxNestingDepth}"
    values.forM fun entry =>
      checkLength (what ++ " nested key") entry.key.utf8ByteSize limits.maxAttributeKeyBytes
    return ((), (values.filterMap KeyValue.value).map (·, depth + 1))
  | _, _ => return ((), [])

theorem lighter_visitValue {s s' : Unit} {a : AnyValue × Nat} {pushed : List (AnyValue × Nat)}
    (h : visitValue limits what s a = .ok (s', pushed)) :
    (pushed.map fun b => b.1.nodes).sum < a.1.nodes := by
  obtain ⟨value, depth⟩ := a
  cases value with
  | arrayValue values =>
    obtain ⟨-, h⟩ := then_ok_iff.mp h
    cases h
    simpa [Function.comp_def] using AnyValue.sum_nodes_items_lt values
  | kvlistValue values =>
    obtain ⟨-, h⟩ := then_ok_iff.mp h
    obtain ⟨-, h⟩ := then_ok_iff.mp h
    cases h
    simpa [Function.comp_def] using AnyValue.sum_nodes_entries_lt values
  | stringValue value | bytesValue value =>
    obtain ⟨-, h⟩ := then_ok_iff.mp h
    cases h
    exact AnyValue.nodes_pos _
  | unset | boolValue value | intValue value | doubleValue value | stringValueStrindex index =>
    cases h; exact AnyValue.nodes_pos _

def checkWalk : StackWalk (AnyValue × Nat) Unit IngressError where
  visit := visitValue limits what
  weight a := a.1.nodes
  lighter := lighter_visitValue limits what

def checkAnyValue (value : AnyValue) : Except IngressError Unit :=
  (checkWalk limits what).run () [(value, 0)]

def checkAttribute (entry : KeyValue) : Except IngressError Unit := do
  checkLength (what ++ " key") entry.key.utf8ByteSize limits.maxAttributeKeyBytes
  match entry.value with
  | some value => checkAnyValue limits what value
  | none => return

def checkAttributes (values : List KeyValue) : Except IngressError Unit := do
  rejectIf (limits.maxAttributesPerRecord < values.length)
    s!"{what} holds {values.length} attributes, limit is {limits.maxAttributesPerRecord}"
  values.forM (checkAttribute limits what)

end Checks

section Expansion

def usizeMax : Nat := 2 ^ 64 - 1

def saturatingAdd (a b : Nat) : Nat := min (a + b) usizeMax

/-- `size_of` of the types the estimate counts. -/
structure StructSizes where
  anyValueBytes : Nat
  keyValueBytes : Nat
  attributeBytes : Nat
  deriving DecidableEq, Repr

variable (sizes : StructSizes)

/-- The body of the loop of `any_value_size`. -/
def visitSize (total : Nat) (value : AnyValue) : Except Empty (Nat × List AnyValue) :=
  let total := saturatingAdd total sizes.anyValueBytes
  match value with
  | .stringValue value => .ok (saturatingAdd total value.utf8ByteSize, [])
  | .bytesValue value => .ok (saturatingAdd total value.length, [])
  | .arrayValue values => .ok (total, values)
  | .kvlistValue values =>
    .ok (values.foldl (fun total entry =>
        saturatingAdd total (saturatingAdd entry.key.utf8ByteSize sizes.keyValueBytes)) total,
      values.filterMap KeyValue.value)
  | _ => .ok (total, [])

theorem lighter_visitSize {s s' : Nat} {a : AnyValue} {pushed : List AnyValue}
    (h : visitSize sizes s a = .ok (s', pushed)) : (pushed.map AnyValue.nodes).sum < a.nodes := by
  cases a with
  | arrayValue values => cases h; exact AnyValue.sum_nodes_items_lt _
  | kvlistValue values => cases h; exact AnyValue.sum_nodes_entries_lt _
  | _ => cases h; exact AnyValue.nodes_pos _

def sizeWalk : StackWalk AnyValue Nat Empty where
  visit := visitSize sizes
  weight := AnyValue.nodes
  lighter := lighter_visitSize sizes

def anyValueSize (value : AnyValue) : Nat :=
  match (sizeWalk sizes).run 0 [value] with
  | .ok total => total

def addAttributeBytes (total : Nat) (entry : KeyValue) : Nat :=
  let total := saturatingAdd total (saturatingAdd entry.key.utf8ByteSize sizes.attributeBytes)
  match entry.value with
  | some value => saturatingAdd total (anyValueSize sizes value)
  | none => total

def scopeMetadataBytes (scope : Option InstrumentationScope) (schemaUrl : String) : Nat :=
  match scope with
  | none => schemaUrl.utf8ByteSize
  | some scope =>
    scope.attributes.foldl (addAttributeBytes sizes)
      (saturatingAdd (saturatingAdd scope.name.utf8ByteSize scope.version.utf8ByteSize)
        schemaUrl.utf8ByteSize)

def checkScopeExpansion (limits : IngressConfig) (what : String) (metadataBytes members : Nat) :
    Except IngressError Unit :=
  if members = 0 ∨ metadataBytes = 0 then .ok ()
  else
    let budget := limits.maxScopeMetadataExpansionBytes
    rejectIf (budget / members < metadataBytes)
      (s!"{what} scope metadata ({metadataBytes} bytes) repeated across {members} records " ++
        s!"exceeds the {budget}-byte expansion budget; " ++
        "reduce scope attributes or split the request")

end Expansion

end OtelSqlite.Mapping
