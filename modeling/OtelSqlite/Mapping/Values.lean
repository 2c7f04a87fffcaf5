import OtelSqlite.Mapping.Logs

/-!
# What the validator accepts of a value, and what the mapper makes of it

`Fits` is the recursive meaning of `check_any_value` and `AnyValue.model` the model value
without a depth. The validator accepts exactly the values that fit; a value that fits is
converted to its model value. A structured body is converted one level higher than it is
checked, so a value that fits at some depth has to fit at every smaller one.
-/

namespace OtelSqlite.Mapping

open OtelSqlite.Lib OtelSqlite.Model

variable {limits : IngressConfig} {what : String} {depth : Nat} {value : AnyValue}
  {values : List KeyValue}

/-- A value whose containers are less deep than the limit and whose texts, bytes and
nested keys are within their limits. -/
def Fits (limits : IngressConfig) : Nat → AnyValue → Prop
  | _, .stringValue value => value.utf8ByteSize ≤ limits.maxAttributeValueBytes
  | _, .bytesValue value => value.length ≤ limits.maxAttributeValueBytes
  | depth, .arrayValue values =>
    depth < maxNestingDepth ∧ ∀ value ∈ values, Fits limits (depth + 1) value
  | depth, .kvlistValue values =>
    depth < maxNestingDepth ∧ ∀ entry ∈ values,
      entry.key.utf8ByteSize ≤ limits.maxAttributeKeyBytes ∧
        Fits limits (depth + 1) entry.valueOrDefault
  | _, _ => True
termination_by _ value => sizeOf value
decreasing_by
  · exact AnyValue.sizeOf_item_lt ‹_›
  · exact AnyValue.sizeOf_entry_lt ‹_›

def AnyValue.model : AnyValue → AttributeValue
  | .stringValue value => .string value
  | .intValue value => .int value
  | .doubleValue value => .double value
  | .boolValue value => .bool value
  | .bytesValue value => .bytes value
  | .arrayValue values => .array (values.map model)
  | .kvlistValue values =>
    .kvlist (values.map fun entry => { key := entry.key, value := model entry.valueOrDefault })
  | .stringValueStrindex _ => .null
  | .unset => .null
termination_by value => sizeOf value
decreasing_by
  · exact AnyValue.sizeOf_item_lt ‹_›
  · exact AnyValue.sizeOf_entry_lt ‹_›

def KeyValue.model (entry : KeyValue) : Attribute :=
  { key := entry.key, value := entry.valueOrDefault.model }

section Checks

theorem checkLength_ok_iff {shown : String} {length limit : Nat} :
    checkLength shown length limit = .ok () ↔ length ≤ limit := by
  rw [checkLength, rejectIf_ok_iff]
  exact Nat.not_lt

theorem fits_unset (depth : Nat) : Fits limits depth .unset := by
  simp [Fits]

/-- An entry without a value counts as one with the empty value. -/
theorem fits_valueOrDefault_iff {entry : KeyValue} :
    Fits limits depth entry.valueOrDefault ↔ ∀ value, entry.value = some value →
      Fits limits depth value := by
  obtain ⟨key, _ | value⟩ := entry
  · simp [KeyValue.valueOrDefault, fits_unset]
  · simp [KeyValue.valueOrDefault]

/-- One round of the walk: the popped value passes, and what it pushes fits one level
deeper. -/
theorem fits_iff_visitValue (s : Unit) (a : AnyValue × Nat) :
    Fits limits a.2 a.1 ↔ ∃ s' pushed, visitValue limits what s a = .ok (s', pushed) ∧
      ∀ b ∈ pushed, Fits limits b.2 b.1 := by
  obtain ⟨value, depth⟩ := a
  cases value with
  | arrayValue values =>
    simp only [Fits, visitValue, then_ok_iff, rejectIf_ok_iff, Nat.not_le]
    constructor
    · rintro ⟨hdepth, hfits⟩
      refine ⟨(), _, ⟨hdepth, rfl⟩, ?_⟩
      simpa using hfits
    · rintro ⟨s', pushed, ⟨hdepth, hpushed⟩, hfits⟩
      cases hpushed
      exact ⟨hdepth, by simpa using hfits⟩
  | kvlistValue values =>
    simp only [Fits, visitValue, then_ok_iff, rejectIf_ok_iff, Nat.not_le, forM_ok_iff,
      checkLength_ok_iff, fits_valueOrDefault_iff]
    constructor
    · rintro ⟨hdepth, hentries⟩
      refine ⟨(), _, ⟨hdepth, fun entry h => (hentries entry h).1, rfl⟩, ?_⟩
      intro b hb
      simp only [List.mem_map, List.mem_filterMap] at hb
      obtain ⟨value, ⟨entry, hentry, hvalue⟩, rfl⟩ := hb
      exact (hentries entry hentry).2 value hvalue
    · rintro ⟨s', pushed, ⟨hdepth, hkeys, hpushed⟩, hfits⟩
      cases hpushed
      refine ⟨hdepth, fun entry hentry => ⟨hkeys entry hentry, fun value hvalue => ?_⟩⟩
      have hmem : value ∈ values.filterMap KeyValue.value :=
        List.mem_filterMap.mpr ⟨entry, hentry, hvalue⟩
      exact hfits (value, depth + 1) (List.mem_map_of_mem hmem)
  | stringValue value | bytesValue value =>
    simp only [Fits, visitValue, then_ok_iff, checkLength_ok_iff]
    exact ⟨fun h => ⟨(), [], ⟨h, rfl⟩, by simp⟩, fun ⟨_, _, ⟨h, _⟩, _⟩ => h⟩
  | _ =>
    refine iff_of_true ?_ ⟨(), [], rfl, by simp⟩
    simp [Fits]

theorem checkAnyValue_ok_iff : checkAnyValue limits what value = .ok () ↔ Fits limits 0 value := by
  have hwalk := StackWalk.run_ok_iff (w := checkWalk limits what) fits_iff_visitValue ()
    [(value, 0)]
  rw [List.forall_mem_singleton] at hwalk
  rw [← hwalk]
  exact ⟨fun h => ⟨(), h⟩, fun ⟨(), h⟩ => h⟩

theorem checkAttribute_ok_iff {entry : KeyValue} :
    checkAttribute limits what entry = .ok () ↔
      entry.key.utf8ByteSize ≤ limits.maxAttributeKeyBytes ∧
        Fits limits 0 entry.valueOrDefault := by
  rw [checkAttribute, then_ok_iff, checkLength_ok_iff]
  apply and_congr_right
  intro _
  obtain ⟨key, _ | value⟩ := entry
  · exact iff_of_true rfl (fits_unset 0)
  · exact checkAnyValue_ok_iff

/-- Attribute lists that pass: not too long, with short keys and values that fit. -/
def AttributesFit (limits : IngressConfig) (values : List KeyValue) : Prop :=
  values.length ≤ limits.maxAttributesPerRecord ∧
    ∀ entry ∈ values, entry.key.utf8ByteSize ≤ limits.maxAttributeKeyBytes ∧
      Fits limits 0 entry.valueOrDefault

theorem checkAttributes_ok_iff :
    checkAttributes limits what values = .ok () ↔ AttributesFit limits values := by
  rw [checkAttributes, then_ok_iff, rejectIf_ok_iff, Nat.not_lt, forM_ok_iff]
  simp only [checkAttribute_ok_iff, AttributesFit]

end Checks

section Conversion

theorem Fits.shallower {depth' : Nat} (h : Fits limits depth value) (hle : depth' ≤ depth) :
    Fits limits depth' value := by
  induction value using AnyValue.nested generalizing depth depth' with
  | leaf value harray hkvlist =>
    cases value with
    | arrayValue values => exact absurd rfl (harray values)
    | kvlistValue values => exact absurd rfl (hkvlist values)
    | stringValue value | bytesValue value => simpa [Fits] using h
    | _ => simp [Fits]
  | array values ih =>
    rw [Fits] at h ⊢
    exact ⟨by omega, fun value hvalue => ih value hvalue (h.2 value hvalue) (by omega)⟩
  | kvlist values ih =>
    rw [Fits] at h ⊢
    refine ⟨by omega, fun entry hentry => ?_⟩
    obtain ⟨hkey, hfits⟩ := h.2 entry hentry
    exact ⟨hkey, ih entry hentry hfits (by omega)⟩

theorem attributeValueWithDepth_of_fits (h : Fits limits depth value) :
    attributeValueWithDepth value depth = .ok value.model := by
  induction value using AnyValue.nested generalizing depth with
  | leaf value harray hkvlist =>
    cases value with
    | arrayValue values => exact absurd rfl (harray values)
    | kvlistValue values => exact absurd rfl (hkvlist values)
    | _ => simp only [attributeValueWithDepth, AnyValue.model]
  | array values ih =>
    rw [Fits] at h
    rw [attributeValueWithDepth, if_neg (Nat.not_le.mpr h.1), AnyValue.model,
      mapM_ok_of_forall fun value hvalue => ih value hvalue (h.2 value hvalue)]
    rfl
  | kvlist values ih =>
    rw [Fits] at h
    have hentries : ∀ entry ∈ values, (do
        let value ← attributeValueWithDepth entry.valueOrDefault (depth + 1)
        return { key := entry.key, value }) = Except.ok (ε := IngressError) entry.model := by
      intro entry hentry
      rw [ih entry hentry (h.2 entry hentry).2]
      rfl
    rw [attributeValueWithDepth, if_neg (Nat.not_le.mpr h.1), AnyValue.model,
      mapM_ok_of_forall hentries]
    rfl

theorem attributeValue_of_fits (h : Fits limits depth value) :
    attributeValue value = .ok value.model :=
  attributeValueWithDepth_of_fits (h.shallower (Nat.zero_le depth))

theorem attributes_of_fits (h : ∀ entry ∈ values, Fits limits depth entry.valueOrDefault) :
    attributes values = .ok (values.map KeyValue.model) := by
  apply mapM_ok_of_forall
  intro entry hentry
  rw [attributeValue_of_fits (h entry hentry)]
  rfl

theorem AttributesFit.attributes (h : AttributesFit limits values) :
    attributes values = .ok (values.map KeyValue.model) :=
  attributes_of_fits fun entry hentry => (h.2 entry hentry).2

end Conversion

/-- The loop of the validator ends within as many rounds as the value has nodes (and one), it
accepts exactly the values that fit, and what it accepts is converted. -/
theorem check_any_value_exact (limits : IngressConfig) (what : String) (value : AnyValue) :
    (checkWalk limits what).loop (value.nodes + 1) () [(value, 0)] =
        some (checkAnyValue limits what value) ∧
      (checkAnyValue limits what value = .ok () ↔ Fits limits 0 value) ∧
      (checkAnyValue limits what value = .ok () → attributeValue value = .ok value.model) := by
  refine ⟨StackWalk.loop_eq_run ?_, checkAnyValue_ok_iff, fun h => ?_⟩
  · show value.nodes + 0 < value.nodes + 1
    omega
  · exact attributeValue_of_fits (checkAnyValue_ok_iff.mp h)

end OtelSqlite.Mapping
