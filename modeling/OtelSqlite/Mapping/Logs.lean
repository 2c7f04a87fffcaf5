import OtelSqlite.Mapping.Common

/-!
# Mapping and validation of a logs export

`map_chunks` turns each `ResourceLogs` group into one chunk; `validate_request` walks the
same groups first and refuses what would cost too much.
-/

namespace OtelSqlite.Mapping

open OtelSqlite.Lib OtelSqlite.Model

variable (formats : Formats)

/-- Negative numbers and numbers past 24 are unspecified. -/
def severity (value : Int32) : Severity :=
  if 0 ≤ value.toInt ∧ value.toInt < 256 then
    (Severity.fromU8 (UInt8.ofNat value.toInt.toNat)).getD .unspecified
  else .unspecified

/-- The text of a body and, for an array or a key-value list, its JSON. -/
def bodyValue (value : Option AnyValue) : Except IngressError (String × Option String) :=
  match value.getD .unset with
  | .stringValue value => .ok (value, none)
  | .intValue value => .ok (toString value.toInt, none)
  | .doubleValue value => .ok (formats.displayDouble value, none)
  | .boolValue value => .ok (toString value, none)
  | .bytesValue value => .ok (formats.utf8Lossy value, none)
  | .arrayValue values => do
    let items ← values.mapM attributeValue
    return ("", some ((AttributeValue.array items).toCanonicalJson formats))
  | .kvlistValue values => do
    let entries ← attributes values
    return ("", some ((AttributeValue.kvlist entries).toCanonicalJson formats))
  | .stringValueStrindex _ => .ok ("", none)
  | .unset => .ok ("", none)

def convertRecord (scope : LogScope) (value : ProtoLogRecord) : Except IngressError LogRecord := do
  let traceId := (parseTraceId value.traceId).intoId
  let spanId := (parseSpanId value.spanId).intoId
  let (body, bodyJson) ← bodyValue formats value.body
  let observedTimeUnixNano := timestamp value.observedTimeUnixNano
  let timeUnixNano :=
    if value.timeUnixNano = 0 then observedTimeUnixNano else timestamp value.timeUnixNano
  let attributes ← attributes value.attributes
  return {
    timeUnixNano, observedTimeUnixNano
    severityNumber := severity value.severityNumber
    severityText := value.severityText
    traceId := traceId.getD (Vector.replicate 16 0)
    spanId := spanId.getD (Vector.replicate 8 0)
    body, bodyJson, attributes
    droppedAttributesCount := value.droppedAttributesCount
    flags := value.flags
    eventName := value.eventName
    scope }

/-- The name, version and attributes of a scope, empty without one. -/
def scopeFields (scope : Option InstrumentationScope) : String × String × List KeyValue :=
  match scope with
  | some scope => (scope.name, scope.version, scope.attributes)
  | none => ("", "", [])

/-- One round of the loop over the `ScopeLogs` of a group. -/
def convertScope (group : ScopeLogs) : Except IngressError (List LogRecord) := do
  let (name, version, scopeAttributes) := scopeFields group.scope
  let scopeAttributes ← attributes scopeAttributes
  if group.logRecords.isEmpty then return []
  else
    let scope := LogScope.new formats name version scopeAttributes group.schemaUrl
    group.logRecords.mapM (convertRecord formats scope)

def tryConvertBatch (value : ResourceLogs) : Except IngressError LogChunk := do
  let resource ← value.resource.mapM (convertResource · value.schemaUrl)
  let records ← value.scopeLogs.mapM (convertScope formats)
  return {
    origin := { resource, schemaUrl := value.schemaUrl }
    records := records.flatten
    commitSeq := 0 }

def count (resourceLogs : List ResourceLogs) : Nat :=
  ((resourceLogs.flatMap (·.scopeLogs)).flatMap (·.logRecords)).length

/-- Groups without records give no chunk. -/
def mapChunks (resourceLogs : List ResourceLogs) : Except IngressError (List IngestMessage) := do
  let chunks ← resourceLogs.mapM (tryConvertBatch formats)
  return (chunks.filter fun chunk => !chunk.records.isEmpty).map .logs

section Validation

variable (sizes : StructSizes) (limits : IngressConfig)

def checkBody (body : Option AnyValue) : Except IngressError Unit :=
  match body with
  | none => .ok ()
  | some (.stringValue value) => checkLength "log body" value.utf8ByteSize limits.maxBodyBytes
  | some (.bytesValue value) => checkLength "log body" value.length limits.maxBodyBytes
  | some value => checkAnyValue limits "log.body" value

def checkRecord (record : ProtoLogRecord) : Except IngressError Unit := do
  checkAttributes limits "log.attributes" record.attributes
  checkPlainString limits "severity_text" record.severityText
  checkPlainString limits "event_name" record.eventName
  checkBody limits record.body

def checkScope (scope : Option InstrumentationScope) : Except IngressError Unit :=
  match scope with
  | none => .ok ()
  | some scope => do
    checkAttributes limits "scope.attributes" scope.attributes
    checkPlainString limits "scope.name" scope.name
    checkPlainString limits "scope.version" scope.version

def checkScopeLogs (group : ScopeLogs) : Except IngressError Unit := do
  checkScope limits group.scope
  checkPlainString limits "scope.schema_url" group.schemaUrl
  checkScopeExpansion limits "log" (scopeMetadataBytes sizes group.scope group.schemaUrl)
    group.logRecords.length
  group.logRecords.forM (checkRecord limits)

def checkResourceLogs (group : ResourceLogs) : Except IngressError Unit := do
  checkPlainString limits "resource.schema_url" group.schemaUrl
  checkAttributes limits "resource.attributes"
    ((group.resource.map ProtoResource.attributes).getD [])
  group.scopeLogs.forM (checkScopeLogs sizes limits)

def validateRequest (resourceLogs : List ResourceLogs) : Except IngressError Unit :=
  resourceLogs.forM (checkResourceLogs sizes limits)

end Validation

end OtelSqlite.Mapping
