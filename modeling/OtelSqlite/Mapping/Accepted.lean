import OtelSqlite.Mapping.Values

/-!
# Every accepted request is mapped whole

`RecordOf` and `ChunkOf` say what a record and a chunk have to carry. `recordOf` and
`chunkOf` are the values the conversions end with on what the validator lets through.
-/

namespace OtelSqlite.Mapping

open OtelSqlite.Lib OtelSqlite.Model

variable (formats : Formats) {sizes : StructSizes}

/-- The records of a group, each with the `ScopeLogs` it stands in. -/
def ResourceLogs.members (group : ResourceLogs) : List (ScopeLogs × ProtoLogRecord) :=
  group.scopeLogs.flatMap fun scopeLogs => scopeLogs.logRecords.map (scopeLogs, ·)

/-- Text and JSON of a body. -/
def bodyOf (value : Option AnyValue) : String × Option String :=
  match value.getD .unset with
  | .stringValue value => (value, none)
  | .intValue value => (toString value.toInt, none)
  | .doubleValue value => (formats.displayDouble value, none)
  | .boolValue value => (toString value, none)
  | .bytesValue value => (formats.utf8Lossy value, none)
  | .arrayValue values => ("", some ((AnyValue.arrayValue values).model.toCanonicalJson formats))
  | .kvlistValue values => ("", some ((AnyValue.kvlistValue values).model.toCanonicalJson formats))
  | .stringValueStrindex _ => ("", none)
  | .unset => ("", none)

/-- A mapped record with everything of its source record and of its `ScopeLogs`. -/
structure RecordOf (scopeLogs : ScopeLogs) (source : ProtoLogRecord) (record : LogRecord) :
    Prop where
  time : record.timeUnixNano = timestamp
    (if source.timeUnixNano = 0 then source.observedTimeUnixNano else source.timeUnixNano)
  observedTime : record.observedTimeUnixNano = timestamp source.observedTimeUnixNano
  severityNumber : record.severityNumber = severity source.severityNumber
  severityText : record.severityText = source.severityText
  traceId : record.traceId =
    (parseTraceId source.traceId).intoId.getD (Vector.replicate 16 0)
  spanId : record.spanId = (parseSpanId source.spanId).intoId.getD (Vector.replicate 8 0)
  body : (record.body, record.bodyJson) = bodyOf formats source.body
  attributes : record.attributes = source.attributes.map KeyValue.model
  droppedAttributesCount : record.droppedAttributesCount = source.droppedAttributesCount
  flags : record.flags = source.flags
  eventName : record.eventName = source.eventName
  scopeName : record.scope.name = (scopeLogs.scope.map InstrumentationScope.name).getD ""
  scopeVersion : record.scope.version = (scopeLogs.scope.map InstrumentationScope.version).getD ""
  scopeAttributes : record.scope.attributesJson = writeAttributesJson formats
    (((scopeLogs.scope.map InstrumentationScope.attributes).getD []).map KeyValue.model)
  scopeSchemaUrl : record.scope.schemaUrl = scopeLogs.schemaUrl

structure ChunkOf (group : ResourceLogs) (chunk : LogChunk) : Prop where
  resource : chunk.origin.resource = group.resource.map fun resource =>
    { id := "", attributes := resource.attributes.map KeyValue.model, schemaUrl := group.schemaUrl }
  schemaUrl : chunk.origin.schemaUrl = group.schemaUrl
  records : List.Forall₂ (fun member record => RecordOf formats member.1 member.2 record)
    group.members chunk.records

section Targets

def scopeOf (group : ScopeLogs) : LogScope :=
  let (name, version, scopeAttributes) := scopeFields group.scope
  LogScope.new formats name version (scopeAttributes.map KeyValue.model) group.schemaUrl

def recordOf (member : ScopeLogs × ProtoLogRecord) : LogRecord where
  timeUnixNano := if member.2.timeUnixNano = 0 then timestamp member.2.observedTimeUnixNano
    else timestamp member.2.timeUnixNano
  observedTimeUnixNano := timestamp member.2.observedTimeUnixNano
  severityNumber := severity member.2.severityNumber
  severityText := member.2.severityText
  traceId := (parseTraceId member.2.traceId).intoId.getD (Vector.replicate 16 0)
  spanId := (parseSpanId member.2.spanId).intoId.getD (Vector.replicate 8 0)
  body := (bodyOf formats member.2.body).1
  bodyJson := (bodyOf formats member.2.body).2
  attributes := member.2.attributes.map KeyValue.model
  droppedAttributesCount := member.2.droppedAttributesCount
  flags := member.2.flags
  eventName := member.2.eventName
  scope := scopeOf formats member.1

def chunkOf (group : ResourceLogs) : LogChunk where
  origin := {
    resource := group.resource.map fun resource =>
      { id := "", attributes := resource.attributes.map KeyValue.model
        schemaUrl := group.schemaUrl }
    schemaUrl := group.schemaUrl }
  records := group.members.map (recordOf formats)
  commitSeq := 0

theorem recordOf_spec (member : ScopeLogs × ProtoLogRecord) :
    RecordOf formats member.1 member.2 (recordOf formats member) := by
  obtain ⟨⟨scope, logRecords, schemaUrl⟩, source⟩ := member
  constructor
  case time => exact (apply_ite timestamp _ _ _).symm
  all_goals first | rfl | cases scope <;> rfl

theorem chunkOf_spec (group : ResourceLogs) : ChunkOf formats group (chunkOf formats group) where
  resource := rfl
  schemaUrl := rfl
  records := by
    rw [chunkOf, List.forall₂_map_right_iff, List.forall₂_same]
    exact fun member _ => recordOf_spec formats member

end Targets

section Conversion

variable {limits : IngressConfig} {group : ScopeLogs}

theorem bodyValue_of_checkBody {body : Option AnyValue} (h : checkBody limits body = .ok ()) :
    bodyValue formats body = .ok (bodyOf formats body) := by
  obtain _ | value := body
  · rfl
  cases value with
  | arrayValue values =>
    have hfits := checkAnyValue_ok_iff.mp h
    rw [Fits] at hfits
    show (values.mapM attributeValue >>= _) = _
    rw [mapM_ok_of_forall fun value hvalue => attributeValue_of_fits (hfits.2 value hvalue)]
    show _ = Except.ok ("", some ((AnyValue.arrayValue values).model.toCanonicalJson formats))
    rw [AnyValue.model]
    rfl
  | kvlistValue values =>
    have hfits := checkAnyValue_ok_iff.mp h
    rw [Fits] at hfits
    show (attributes values >>= _) = _
    rw [attributes_of_fits fun entry hentry => (hfits.2 entry hentry).2]
    show _ = Except.ok ("", some ((AnyValue.kvlistValue values).model.toCanonicalJson formats))
    rw [AnyValue.model]
    rfl
  | _ => rfl

theorem convertRecord_of_checkRecord {record : ProtoLogRecord}
    (h : checkRecord limits record = .ok ()) :
    convertRecord formats (scopeOf formats group) record = .ok (recordOf formats (group, record)) := by
  obtain ⟨hattributes, h⟩ := then_ok_iff.mp h
  obtain ⟨-, h⟩ := then_ok_iff.mp h
  obtain ⟨-, hbody⟩ := then_ok_iff.mp h
  rw [convertRecord, bodyValue_of_checkBody formats hbody,
    (checkAttributes_ok_iff.mp hattributes).attributes]
  rfl

theorem attributes_of_checkScope {scope : Option InstrumentationScope}
    (h : checkScope limits scope = .ok ()) :
    attributes (scopeFields scope).2.2 = .ok ((scopeFields scope).2.2.map KeyValue.model) := by
  obtain _ | scope := scope
  · rfl
  · obtain ⟨hattributes, -⟩ := then_ok_iff.mp h
    exact (checkAttributes_ok_iff.mp hattributes).attributes

theorem convertScope_of_checkScopeLogs (h : checkScopeLogs sizes limits group = .ok ()) :
    convertScope formats group =
      .ok ((group.logRecords.map (group, ·)).map (recordOf formats)) := by
  obtain ⟨hscope, h⟩ := then_ok_iff.mp h
  obtain ⟨-, h⟩ := then_ok_iff.mp h
  obtain ⟨-, hrecords⟩ := then_ok_iff.mp h
  rw [convertScope]
  simp only [attributes_of_checkScope hscope]
  show (if group.logRecords.isEmpty then _
    else group.logRecords.mapM (convertRecord formats (scopeOf formats group))) = _
  split
  · next hempty =>
    rw [List.isEmpty_iff.mp hempty]
    rfl
  · rw [List.map_map]
    exact mapM_ok_of_forall fun record hrecord =>
      convertRecord_of_checkRecord formats (forM_ok_iff.mp hrecords record hrecord)

theorem convertResource_of_fits {resource : ProtoResource} {schemaUrl : String}
    (h : AttributesFit limits resource.attributes) :
    convertResource resource schemaUrl = .ok
      { id := "", attributes := resource.attributes.map KeyValue.model, schemaUrl } := by
  rw [convertResource, h.attributes]
  rfl

theorem tryConvertBatch_of_checkResourceLogs {group : ResourceLogs}
    (h : checkResourceLogs sizes limits group = .ok ()) :
    tryConvertBatch formats group = .ok (chunkOf formats group) := by
  obtain ⟨-, h⟩ := then_ok_iff.mp h
  obtain ⟨hattributes, hscopes⟩ := then_ok_iff.mp h
  have hresource : group.resource.mapM (convertResource · group.schemaUrl) =
      .ok (chunkOf formats group).origin.resource := by
    obtain ⟨_ | resource, scopeLogs, schemaUrl⟩ := group
    · rfl
    · show some <$> convertResource resource schemaUrl = _
      rw [convertResource_of_fits (checkAttributes_ok_iff.mp hattributes)]
      rfl
  have hrecords : group.scopeLogs.mapM (convertScope formats) =
      .ok (group.scopeLogs.map fun scopeLogs =>
        (scopeLogs.logRecords.map (scopeLogs, ·)).map (recordOf formats)) :=
    mapM_ok_of_forall fun scopeLogs hmem =>
      convertScope_of_checkScopeLogs formats (forM_ok_iff.mp hscopes scopeLogs hmem)
  have hflatten : (group.scopeLogs.map fun scopeLogs =>
      (scopeLogs.logRecords.map (scopeLogs, ·)).map (recordOf formats)).flatten =
        group.members.map (recordOf formats) := by
    rw [ResourceLogs.members, List.map_flatMap, List.flatMap_def]
  rw [tryConvertBatch, hresource, hrecords]
  show Except.ok _ = _
  rw [hflatten]
  rfl

end Conversion

section Request

theorem length_flatMap_members (resourceLogs : List ResourceLogs) :
    (resourceLogs.flatMap ResourceLogs.members).length = count resourceLogs := by
  simp only [count, ResourceLogs.members, List.flatMap_assoc, List.length_flatMap, List.length_map]

theorem flatMap_members_filter (resourceLogs : List ResourceLogs) :
    (resourceLogs.filter fun group => !group.members.isEmpty).flatMap ResourceLogs.members =
      resourceLogs.flatMap ResourceLogs.members := by
  induction resourceLogs with
  | nil => rfl
  | cons group rest ih =>
    rw [List.filter_cons]
    split
    · rw [List.flatMap_cons, List.flatMap_cons, ih]
    · next hempty =>
      have hnil : group.members = [] := by simpa using hempty
      rw [List.flatMap_cons, hnil, ih, List.nil_append]

theorem mapChunks_of_validateRequest {limits : IngressConfig} {resourceLogs : List ResourceLogs}
    (h : validateRequest sizes limits resourceLogs = .ok ()) :
    mapChunks formats resourceLogs =
      .ok (((resourceLogs.filter fun group => !group.members.isEmpty).map (chunkOf formats)).map
        .logs) := by
  have hchunks := mapM_ok_of_forall fun group hgroup =>
    tryConvertBatch_of_checkResourceLogs formats (forM_ok_iff.mp h group hgroup)
  have hempty : (fun chunk : LogChunk => !chunk.records.isEmpty) ∘ chunkOf formats =
      fun group => !group.members.isEmpty := by
    funext group
    simp [chunkOf]
  rw [mapChunks, hchunks]
  show Except.ok _ = _
  rw [List.filter_map, hempty]

/-- **What validation accepts is mapped, whole and in order.** There is a chunk for each group that
has members and a record for each member, converted field by field, and no record is lost. -/
theorem accepted_request_mapped (sizes : StructSizes) (limits : IngressConfig)
    (resourceLogs : List ResourceLogs)
    (h : validateRequest sizes limits resourceLogs = .ok ()) :
    ∃ chunks : List LogChunk, mapChunks formats resourceLogs = .ok (chunks.map .logs) ∧
      List.Forall₂ (ChunkOf formats)
        (resourceLogs.filter fun group => !group.members.isEmpty) chunks ∧
      List.Forall₂ (fun member record => RecordOf formats member.1 member.2 record)
        (resourceLogs.flatMap ResourceLogs.members) (chunks.flatMap fun chunk => chunk.records) ∧
      (chunks.flatMap fun chunk => chunk.records).length = count resourceLogs := by
  have hrecords : ((resourceLogs.filter fun group => !group.members.isEmpty).map
      (chunkOf formats)).flatMap (fun chunk => chunk.records) =
        (resourceLogs.flatMap ResourceLogs.members).map (recordOf formats) := by
    rw [← flatMap_members_filter, List.map_flatMap, List.flatMap_map]
    rfl
  refine ⟨_, mapChunks_of_validateRequest formats h, ?_, ?_, ?_⟩
  · rw [List.forall₂_map_right_iff, List.forall₂_same]
    exact fun group _ => chunkOf_spec formats group
  · rw [hrecords, List.forall₂_map_right_iff, List.forall₂_same]
    exact fun member _ => recordOf_spec formats member
  · rw [hrecords, List.length_map, length_flatMap_members]

section Sample

def sampleFormats : Formats where
  jsonDouble _ := "0.5"
  displayDouble _ := "0.5"
  utf8Lossy _ := ""

def sampleSizes : StructSizes where
  anyValueBytes := 32
  keyValueBytes := 64
  attributeBytes := 56

def sampleRecord (body : Option AnyValue) : ProtoLogRecord where
  timeUnixNano := 0
  observedTimeUnixNano := 7
  severityNumber := 9
  severityText := "INFO"
  body
  attributes := [{ key := "n", value := some (.intValue 3) }, { key := "none", value := none }]
  droppedAttributesCount := 0
  flags := 0
  traceId := []
  spanId := [1, 2]
  eventName := ""

/-- Three groups: one with a nested body, one without records, one without a resource. -/
def sampleRequest : List ResourceLogs :=
  [{ resource := some { attributes := [{ key := "service.name", value := some (.stringValue "a") }] }
     scopeLogs := [
      { scope := some { name := "lib", version := "1", attributes := [] }
        logRecords := [
          sampleRecord (some (.arrayValue [.kvlistValue [{ key := "k", value := none }]])),
          sampleRecord (some (.stringValue "text"))]
        schemaUrl := "s" },
      { scope := none, logRecords := [], schemaUrl := "" }]
     schemaUrl := "r" },
   { resource := none, scopeLogs := [], schemaUrl := "" },
   { resource := none
     scopeLogs := [{ scope := none, logRecords := [sampleRecord none], schemaUrl := "t" }]
     schemaUrl := "" }]

end Sample

theorem accepted_request_mapped_sample :
    validateRequest sampleSizes {} sampleRequest = .ok () ∧
      ∃ chunks : List LogChunk, mapChunks sampleFormats sampleRequest = .ok (chunks.map .logs) ∧
        List.Forall₂ (ChunkOf sampleFormats)
          (sampleRequest.filter fun group => !group.members.isEmpty) chunks ∧
        List.Forall₂ (fun member record => RecordOf sampleFormats member.1 member.2 record)
          (sampleRequest.flatMap ResourceLogs.members)
          (chunks.flatMap fun chunk => chunk.records) ∧
        (chunks.flatMap fun chunk => chunk.records).length = count sampleRequest :=
  have h : validateRequest sampleSizes {} sampleRequest = .ok () := by decide +kernel
  ⟨h, accepted_request_mapped sampleFormats sampleSizes {} sampleRequest h⟩

end Request

end OtelSqlite.Mapping
