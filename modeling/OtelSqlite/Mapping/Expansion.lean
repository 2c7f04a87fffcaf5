import OtelSqlite.Mapping.Values

/-!
# The scope-expansion budget over a whole request

The budget is documented for the request, the check is made for each `ScopeLogs` on its
own. `validateRequest_ok_iff` says what acceptance amounts to: every group is within the
size limits and every `ScopeLogs` alone is within the budget. The request as a whole is
then only bounded by the budget times the number of `ScopeLogs` that expand.
-/

namespace OtelSqlite.Mapping

open OtelSqlite.Lib OtelSqlite.Model

variable (sizes : StructSizes) (limits : IngressConfig)

/-- Metadata bytes times member records. -/
def ScopeLogs.expansion (group : ScopeLogs) : Nat :=
  scopeMetadataBytes sizes group.scope group.schemaUrl * group.logRecords.length

def allScopeLogs (resourceLogs : List ResourceLogs) : List ScopeLogs :=
  resourceLogs.flatMap ResourceLogs.scopeLogs

def requestExpansion (resourceLogs : List ResourceLogs) : Nat :=
  ((allScopeLogs resourceLogs).map (ScopeLogs.expansion sizes)).sum

section Limits

/-- A text bounded like an attribute value. -/
def TextFits (text : String) : Prop := text.utf8ByteSize ≤ limits.maxAttributeValueBytes

def BodyFits : Option AnyValue → Prop
  | none => True
  | some (.stringValue value) => value.utf8ByteSize ≤ limits.maxBodyBytes
  | some (.bytesValue value) => value.length ≤ limits.maxBodyBytes
  | some value => Fits limits 0 value

structure RecordFits (record : ProtoLogRecord) : Prop where
  attributes : AttributesFit limits record.attributes
  severityText : TextFits limits record.severityText
  eventName : TextFits limits record.eventName
  body : BodyFits limits record.body

structure ScopeFits (scope : InstrumentationScope) : Prop where
  attributes : AttributesFit limits scope.attributes
  name : TextFits limits scope.name
  version : TextFits limits scope.version

structure ScopeLogsFit (group : ScopeLogs) : Prop where
  scope : ∀ scope ∈ group.scope, ScopeFits limits scope
  schemaUrl : TextFits limits group.schemaUrl
  records : ∀ record ∈ group.logRecords, RecordFits limits record

/-- Everything the validator checks of a group apart from the expansion. -/
structure ResourceLogsFit (group : ResourceLogs) : Prop where
  schemaUrl : TextFits limits group.schemaUrl
  attributes : AttributesFit limits ((group.resource.map ProtoResource.attributes).getD [])
  scopeLogs : ∀ scopeLogs ∈ group.scopeLogs, ScopeLogsFit limits scopeLogs

end Limits

variable {sizes limits} {group : ScopeLogs} {resourceLogs : List ResourceLogs}

theorem checkPlainString_ok_iff {what text : String} :
    checkPlainString limits what text = .ok () ↔ TextFits limits text := checkLength_ok_iff

/-- The division stands for the product. -/
theorem checkScopeExpansion_ok_iff {what : String} {metadataBytes members : Nat} :
    checkScopeExpansion limits what metadataBytes members = .ok () ↔
      metadataBytes * members ≤ limits.maxScopeMetadataExpansionBytes := by
  unfold checkScopeExpansion
  split
  · next hzero => rcases hzero with rfl | rfl <;> simp
  · next hzero =>
    rw [rejectIf_ok_iff, Nat.not_lt]
    exact Nat.le_div_iff_mul_le (by omega)

theorem checkBody_ok_iff {body : Option AnyValue} :
    checkBody limits body = .ok () ↔ BodyFits limits body := by
  obtain _ | value := body
  · exact iff_of_true rfl trivial
  · cases value with
    | stringValue value | bytesValue value => exact checkLength_ok_iff
    | _ => exact checkAnyValue_ok_iff

theorem checkRecord_ok_iff {record : ProtoLogRecord} :
    checkRecord limits record = .ok () ↔ RecordFits limits record := by
  rw [checkRecord, then_ok_iff, then_ok_iff, then_ok_iff, checkAttributes_ok_iff,
    checkPlainString_ok_iff, checkPlainString_ok_iff, checkBody_ok_iff]
  exact ⟨fun ⟨ha, hs, he, hb⟩ => ⟨ha, hs, he, hb⟩, fun ⟨ha, hs, he, hb⟩ => ⟨ha, hs, he, hb⟩⟩

theorem checkScope_ok_iff {scope : Option InstrumentationScope} :
    checkScope limits scope = .ok () ↔ ∀ s ∈ scope, ScopeFits limits s := by
  obtain _ | scope := scope
  · exact iff_of_true rfl (by simp)
  · simp only [checkScope, then_ok_iff, checkAttributes_ok_iff, checkPlainString_ok_iff,
      Option.mem_def, Option.some.injEq, forall_eq']
    exact ⟨fun ⟨ha, hn, hv⟩ => ⟨ha, hn, hv⟩, fun ⟨ha, hn, hv⟩ => ⟨ha, hn, hv⟩⟩

theorem checkScopeLogs_ok_iff :
    checkScopeLogs sizes limits group = .ok () ↔
      ScopeLogsFit limits group ∧
        group.expansion sizes ≤ limits.maxScopeMetadataExpansionBytes := by
  rw [checkScopeLogs, then_ok_iff, then_ok_iff, then_ok_iff, checkScope_ok_iff,
    checkPlainString_ok_iff, checkScopeExpansion_ok_iff, forM_ok_iff]
  simp only [checkRecord_ok_iff]
  exact ⟨fun ⟨hs, hu, he, hr⟩ => ⟨⟨hs, hu, hr⟩, he⟩, fun ⟨⟨hs, hu, hr⟩, he⟩ => ⟨hs, hu, he, hr⟩⟩

theorem checkResourceLogs_ok_iff {group : ResourceLogs} :
    checkResourceLogs sizes limits group = .ok () ↔
      ResourceLogsFit limits group ∧ ∀ scopeLogs ∈ group.scopeLogs,
        scopeLogs.expansion sizes ≤ limits.maxScopeMetadataExpansionBytes := by
  rw [checkResourceLogs, then_ok_iff, then_ok_iff, checkPlainString_ok_iff, checkAttributes_ok_iff,
    forM_ok_iff]
  simp only [checkScopeLogs_ok_iff]
  constructor
  · rintro ⟨hurl, hattributes, hscopes⟩
    exact ⟨⟨hurl, hattributes, fun s hs => (hscopes s hs).1⟩, fun s hs => (hscopes s hs).2⟩
  · rintro ⟨⟨hurl, hattributes, hfits⟩, hexpansion⟩
    exact ⟨hurl, hattributes, fun s hs => ⟨hfits s hs, hexpansion s hs⟩⟩

theorem validateRequest_ok_iff :
    validateRequest sizes limits resourceLogs = .ok () ↔
      (∀ group ∈ resourceLogs, ResourceLogsFit limits group) ∧
        ∀ scopeLogs ∈ allScopeLogs resourceLogs,
          scopeLogs.expansion sizes ≤ limits.maxScopeMetadataExpansionBytes := by
  rw [validateRequest, forM_ok_iff]
  simp only [checkResourceLogs_ok_iff, allScopeLogs, List.mem_flatMap]
  constructor
  · intro h
    exact ⟨fun group hgroup => (h group hgroup).1,
      fun scopeLogs ⟨group, hgroup, hmem⟩ => (h group hgroup).2 scopeLogs hmem⟩
  · intro h group hgroup
    exact ⟨h.1 group hgroup, fun scopeLogs hmem => h.2 scopeLogs ⟨group, hgroup, hmem⟩⟩

/-- What acceptance does give for the request: the budget once for every `ScopeLogs` that
expands. -/
theorem requestExpansion_le_of_accepted (h : validateRequest sizes limits resourceLogs = .ok ()) :
    requestExpansion sizes resourceLogs ≤
      ((allScopeLogs resourceLogs).countP fun scopeLogs => scopeLogs.expansion sizes ≠ 0) *
        limits.maxScopeMetadataExpansionBytes := by
  have hexpansion := (validateRequest_ok_iff.mp h).2
  unfold requestExpansion
  generalize allScopeLogs resourceLogs = groups at hexpansion ⊢
  induction groups with
  | nil => simp
  | cons scopeLogs rest ih =>
    rw [List.forall_mem_cons] at hexpansion
    have hrest := ih hexpansion.2
    rw [List.map_cons, List.sum_cons, List.countP_cons]
    split
    · rw [Nat.add_mul, Nat.one_mul]
      omega
    · next hzero =>
      have hexpands : scopeLogs.expansion sizes = 0 := by simpa using hzero
      rw [hexpands, Nat.zero_add, Nat.add_zero]
      exact hrest

/-- An accepted request with at most one `ScopeLogs` that expands is within the budget. -/
theorem requestExpansion_le_of_countP
    (hone : ((allScopeLogs resourceLogs).countP fun scopeLogs => scopeLogs.expansion sizes ≠ 0) ≤ 1)
    (h : validateRequest sizes limits resourceLogs = .ok ()) :
    requestExpansion sizes resourceLogs ≤ limits.maxScopeMetadataExpansionBytes :=
  (requestExpansion_le_of_accepted h).trans
    ((Nat.mul_le_mul_right _ hone).trans_eq (Nat.one_mul _))

section Single

/-- A record without any content. -/
def emptyRecord : ProtoLogRecord where
  timeUnixNano := 0
  observedTimeUnixNano := 0
  severityNumber := 0
  severityText := ""
  body := none
  attributes := []
  droppedAttributesCount := 0
  flags := 0
  traceId := []
  spanId := []
  eventName := ""

theorem emptyRecord_fits : RecordFits limits emptyRecord where
  attributes := ⟨Nat.zero_le _, by simp [emptyRecord]⟩
  severityText := Nat.zero_le _
  eventName := Nat.zero_le _
  body := trivial

/-- More copies of one group than the budget has bytes. -/
def copies (limits : IngressConfig) (group : ScopeLogs) : List ResourceLogs :=
  [{ resource := none
     scopeLogs := List.replicate (limits.maxScopeMetadataExpansionBytes + 1) group
     schemaUrl := "" }]

/-- If one group that expands is accepted, then so is a request that exceeds the budget. -/
theorem copies_exceed_budget (hfits : ScopeLogsFit limits group) (hpos : 0 < group.expansion sizes)
    (hle : group.expansion sizes ≤ limits.maxScopeMetadataExpansionBytes) :
    validateRequest sizes limits (copies limits group) = .ok () ∧
      limits.maxScopeMetadataExpansionBytes < requestExpansion sizes (copies limits group) := by
  constructor
  · rw [validateRequest_ok_iff]
    simp only [copies, allScopeLogs, List.forall_mem_singleton, List.flatMap_cons, List.flatMap_nil,
      List.append_nil, List.mem_replicate]
    refine ⟨⟨Nat.zero_le _, ⟨Nat.zero_le _, by simp⟩, ?_⟩, ?_⟩
    · rintro scopeLogs hmem
      exact (List.eq_of_mem_replicate hmem) ▸ hfits
    · rintro scopeLogs ⟨-, rfl⟩
      exact hle
  · simp only [copies, requestExpansion, allScopeLogs, List.flatMap_cons, List.flatMap_nil,
      List.append_nil, List.map_replicate, List.sum_replicate_nat]
    exact Nat.lt_of_lt_of_le (Nat.lt_succ_self _) (Nat.le_mul_of_pos_right _ hpos)

/-- One byte of metadata, where texts may have one. -/
def oneByteScope : ScopeLogs where
  scope := none
  logRecords := [emptyRecord]
  schemaUrl := "u"

/-- A scope with one attribute, where texts may not. -/
def oneAttributeScope : ScopeLogs where
  scope := some { name := "", version := "", attributes := [⟨"", none⟩] }
  logRecords := [emptyRecord]
  schemaUrl := ""

theorem oneByteScope_fits (htexts : 0 < limits.maxAttributeValueBytes) :
    ScopeLogsFit limits oneByteScope where
  scope := by simp [oneByteScope]
  schemaUrl := htexts
  records := by simp [oneByteScope, emptyRecord_fits]

theorem oneAttributeScope_fits (hattributes : 0 < limits.maxAttributesPerRecord) :
    ScopeLogsFit limits oneAttributeScope where
  scope := by
    simp only [oneAttributeScope, Option.mem_def, Option.some.injEq, forall_eq']
    exact ⟨⟨hattributes, by simp [KeyValue.valueOrDefault, fits_unset]⟩, Nat.zero_le _,
      Nat.zero_le _⟩
  schemaUrl := Nat.zero_le _
  records := by simp [oneAttributeScope, emptyRecord_fits]

theorem expansion_oneAttributeScope (hrange : sizes.attributeBytes ≤ usizeMax) :
    oneAttributeScope.expansion sizes = sizes.attributeBytes := by
  simp [ScopeLogs.expansion, oneAttributeScope, scopeMetadataBytes, addAttributeBytes,
    saturatingAdd, hrange]

end Single

section Nothing

variable (hrange : sizes.attributeBytes ≤ usizeMax)
include hrange

theorem attributeBytes_le_addAttributeBytes (total : Nat) (entry : KeyValue) :
    sizes.attributeBytes ≤ addAttributeBytes sizes total entry := by
  have hadd : sizes.attributeBytes ≤
      saturatingAdd total (saturatingAdd entry.key.utf8ByteSize sizes.attributeBytes) := by
    simp only [saturatingAdd]
    omega
  simp only [addAttributeBytes]
  split
  · exact Nat.le_min.mpr ⟨hadd.trans (Nat.le_add_right _ _), hrange⟩
  · exact hadd

/-- Without texts the metadata of a scope is that of its attributes. -/
theorem attributeBytes_le_scopeMetadataBytes (htexts : limits.maxAttributeValueBytes = 0)
    (hfits : ScopeLogsFit limits group)
    (hpos : 0 < scopeMetadataBytes sizes group.scope group.schemaUrl) :
    0 < limits.maxAttributesPerRecord ∧
      sizes.attributeBytes ≤ scopeMetadataBytes sizes group.scope group.schemaUrl := by
  have hurl : group.schemaUrl.utf8ByteSize = 0 := Nat.le_zero.mp (htexts ▸ hfits.schemaUrl)
  cases hscope : group.scope with
  | none =>
    rw [hscope, scopeMetadataBytes, hurl] at hpos
    exact absurd hpos (Nat.lt_irrefl 0)
  | some scope =>
    obtain ⟨⟨hlength, -⟩, hname, hversion⟩ := hfits.scope scope hscope
    rcases List.eq_nil_or_concat scope.attributes with hnil | ⟨init, last, hlast⟩
    · have hname : scope.name.utf8ByteSize = 0 := Nat.le_zero.mp (htexts ▸ hname)
      have hversion : scope.version.utf8ByteSize = 0 := Nat.le_zero.mp (htexts ▸ hversion)
      simp [hscope, scopeMetadataBytes, hnil, hname, hversion, hurl, saturatingAdd] at hpos
    · rw [List.concat_eq_append] at hlast
      rw [hlast, List.length_append, List.length_singleton] at hlength
      refine ⟨by omega, ?_⟩
      rw [scopeMetadataBytes, hlast, List.foldl_concat]
      exact attributeBytes_le_addAttributeBytes hrange _ _

/-- Where no text has a byte, and no attribute is allowed or one is too much already, a
group that is accepted does not expand. -/
theorem expansion_eq_zero (htexts : limits.maxAttributeValueBytes = 0)
    (hnone : limits.maxAttributesPerRecord = 0 ∨
      limits.maxScopeMetadataExpansionBytes < sizes.attributeBytes)
    (hfits : ScopeLogsFit limits group)
    (hle : group.expansion sizes ≤ limits.maxScopeMetadataExpansionBytes) :
    group.expansion sizes = 0 := by
  by_contra hne
  have hpos := Nat.pos_of_ne_zero (left_ne_zero_of_mul hne)
  obtain ⟨hsome, hbytes⟩ := attributeBytes_le_scopeMetadataBytes hrange htexts hfits hpos
  have hmembers := Nat.pos_of_ne_zero (right_ne_zero_of_mul hne)
  have hproduct := hbytes.trans (Nat.le_mul_of_pos_right _ hmembers)
  rw [ScopeLogs.expansion] at hle
  omega

end Nothing

/-- The budget bounds every accepted request only where no group can expand at all; apart
from that it bounds those in which at most one group does. -/
theorem request_expansion_bounded_iff (sizes : StructSizes) (limits : IngressConfig)
    (hpos : 0 < sizes.attributeBytes) (hrange : sizes.attributeBytes ≤ usizeMax) :
    ((∀ resourceLogs, validateRequest sizes limits resourceLogs = .ok () →
        requestExpansion sizes resourceLogs ≤ limits.maxScopeMetadataExpansionBytes) ↔
      limits.maxScopeMetadataExpansionBytes = 0 ∨ limits.maxAttributeValueBytes = 0 ∧
        (limits.maxAttributesPerRecord = 0 ∨
          limits.maxScopeMetadataExpansionBytes < sizes.attributeBytes)) ∧
    ∀ resourceLogs,
      ((allScopeLogs resourceLogs).countP fun scopeLogs => scopeLogs.expansion sizes ≠ 0) ≤ 1 →
      validateRequest sizes limits resourceLogs = .ok () →
        requestExpansion sizes resourceLogs ≤ limits.maxScopeMetadataExpansionBytes := by
  refine ⟨⟨fun hall => ?_, fun hlimits resourceLogs haccepted => ?_⟩,
    fun _ => requestExpansion_le_of_countP⟩
  · -- a group that expands may be repeated until the budget is exceeded
    have hzero : ∀ group, ScopeLogsFit limits group → 0 < group.expansion sizes →
        limits.maxScopeMetadataExpansionBytes < group.expansion sizes := by
      intro group hfits hexpands
      by_contra hle
      obtain ⟨haccepted, hlt⟩ := copies_exceed_budget hfits hexpands (Nat.not_lt.mp hle)
      exact absurd (hall _ haccepted) (Nat.not_le.mpr hlt)
    by_contra hnot
    rw [not_or, not_and_or, not_or] at hnot
    obtain ⟨hbudget, htexts | ⟨hattributes, hbytes⟩⟩ := hnot
    · have hlt : _ < 1 := hzero _ (oneByteScope_fits (Nat.pos_of_ne_zero htexts)) Nat.one_pos
      omega
    · have hlt := hzero _ (oneAttributeScope_fits (Nat.pos_of_ne_zero hattributes))
        (by rwa [expansion_oneAttributeScope hrange])
      rw [expansion_oneAttributeScope hrange] at hlt
      exact hbytes hlt
  · obtain ⟨hfits, hexpansion⟩ := validateRequest_ok_iff.mp haccepted
    rcases hlimits with hbudget | ⟨htexts, hnone⟩
    · have hle := requestExpansion_le_of_accepted haccepted
      rwa [hbudget, Nat.mul_zero, ← hbudget] at hle
    · refine requestExpansion_le_of_countP ?_ haccepted
      rw [List.countP_eq_zero.mpr]
      · exact Nat.zero_le 1
      · intro scopeLogs hmem
        obtain ⟨group, hgroup, hin⟩ := List.mem_flatMap.mp hmem
        have hzero := expansion_eq_zero hrange htexts hnone
          ((hfits group hgroup).scopeLogs scopeLogs hin) (hexpansion scopeLogs hmem)
        simp [hzero]

/-- At the default limits some accepted request exceeds the budget. -/
theorem request_expansion_bounded_iff_default :
    ¬ ∀ resourceLogs,
      validateRequest { anyValueBytes := 32, keyValueBytes := 64, attributeBytes := 56 } {}
          resourceLogs = .ok () →
        requestExpansion { anyValueBytes := 32, keyValueBytes := 64, attributeBytes := 56 }
          resourceLogs ≤ 16 * 1024 * 1024 := by
  rw [(request_expansion_bounded_iff
    { anyValueBytes := 32, keyValueBytes := 64, attributeBytes := 56 } {} (by decide) (by decide)).1]
  decide

section Overrun

/-- A budget of ten bytes. -/
def smallBudget : IngressConfig := { maxScopeMetadataExpansionBytes := 10 }

/-- Nine bytes of metadata and one record. -/
def nineByteScope : ScopeLogs where
  scope := none
  logRecords := [
    { timeUnixNano := 1, observedTimeUnixNano := 1, severityNumber := 0, severityText := ""
      body := none, attributes := [], droppedAttributesCount := 0, flags := 0, traceId := []
      spanId := [], eventName := "" }]
  schemaUrl := "urn:nine9"

def splitRequest : List ResourceLogs :=
  [{ resource := none, scopeLogs := [nineByteScope, nineByteScope], schemaUrl := "" }]

end Overrun

/-- Two `ScopeLogs` of nine bytes each pass a budget of ten. -/
theorem split_scopes_exceed_budget :
    validateRequest { anyValueBytes := 32, keyValueBytes := 64, attributeBytes := 56 } smallBudget
        splitRequest = .ok () ∧
      smallBudget.maxScopeMetadataExpansionBytes <
        requestExpansion { anyValueBytes := 32, keyValueBytes := 64, attributeBytes := 56 }
          splitRequest := by
  decide +kernel

end OtelSqlite.Mapping
