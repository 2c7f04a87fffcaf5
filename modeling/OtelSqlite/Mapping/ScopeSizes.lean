import OtelSqlite.Mapping.Expansion

/-!
# The exact size of scope metadata

`scope_metadata_bytes` adds with saturation and walks nested values on an explicit stack.
Here are the sizes it estimates, as recursive sums without a bound. The estimate is the exact
size or the largest `usize`, whichever is less, and for a budget below that largest value
the expansion check decides by the exact product.
-/

namespace OtelSqlite.Mapping

open OtelSqlite.Lib OtelSqlite.Model

section Exact

variable (sizes : StructSizes)

/-- A value with everything below it. An entry without a value has only its key. -/
def AnyValue.exactSize : AnyValue → Nat
  | .stringValue value => sizes.anyValueBytes + value.utf8ByteSize
  | .bytesValue value => sizes.anyValueBytes + value.length
  | .arrayValue values => sizes.anyValueBytes + (values.map exactSize).sum
  | .kvlistValue values =>
    sizes.anyValueBytes + (values.map fun entry => entry.key.utf8ByteSize + sizes.keyValueBytes +
      if entry.value.isSome then exactSize entry.valueOrDefault else 0).sum
  | _ => sizes.anyValueBytes
termination_by value => sizeOf value
decreasing_by
  · exact AnyValue.sizeOf_item_lt ‹_›
  · exact AnyValue.sizeOf_entry_lt ‹_›

def KeyValue.exactValueSize (entry : KeyValue) : Nat :=
  (entry.value.map (AnyValue.exactSize sizes)).getD 0

def KeyValue.exactAttributeSize (entry : KeyValue) : Nat :=
  entry.key.utf8ByteSize + sizes.attributeBytes + entry.exactValueSize sizes

/-- What one group's scope and schema URL weigh. -/
def exactScopeSize (scope : Option InstrumentationScope) (schemaUrl : String) : Nat :=
  match scope with
  | none => schemaUrl.utf8ByteSize
  | some scope =>
    scope.name.utf8ByteSize + scope.version.utf8ByteSize + schemaUrl.utf8ByteSize +
      (scope.attributes.map (KeyValue.exactAttributeSize sizes)).sum

theorem exactSize_kvlistValue (values : List KeyValue) :
    (AnyValue.kvlistValue values).exactSize sizes = sizes.anyValueBytes +
      (values.map fun entry => entry.key.utf8ByteSize + sizes.keyValueBytes).sum +
      ((values.filterMap KeyValue.value).map (AnyValue.exactSize sizes)).sum := by
  rw [AnyValue.exactSize, Nat.add_assoc]
  congr 1
  induction values with
  | nil => rfl
  | cons entry values ih =>
    rw [List.map_cons, List.sum_cons, ih, List.map_cons, List.sum_cons]
    cases hvalue : entry.value with
    | none =>
      rw [List.filterMap_cons_none hvalue, Option.isSome_none, if_neg Bool.false_ne_true]
      omega
    | some value =>
      have hdefault : entry.valueOrDefault = value := by rw [KeyValue.valueOrDefault, hvalue]; rfl
      rw [List.filterMap_cons_some hvalue, List.map_cons, List.sum_cons, hdefault,
        Option.isSome_some, if_pos rfl]
      omega

end Exact

section Saturation

/-- What a `usize` counter that saturates holds for a count. -/
def clip (n : Nat) : Nat := min n usizeMax

theorem saturatingAdd_le (a b : Nat) : saturatingAdd a b ≤ usizeMax := Nat.min_le_right _ _

theorem saturatingAdd_clip (n m : Nat) : saturatingAdd (clip n) m = clip (n + m) := by
  rw [saturatingAdd, clip, clip]
  omega

theorem saturatingAdd_clip_clip (n m : Nat) : saturatingAdd (clip n) (clip m) = clip (n + m) := by
  rw [saturatingAdd, clip, clip, clip]
  omega

/-- A loop whose every round adds a size to the counter adds their sum. -/
theorem foldl_clip {α : Type} {round : Nat → α → Nat} {size : α → Nat}
    (h : ∀ n a, round (clip n) a = clip (n + size a)) (n : Nat) (items : List α) :
    items.foldl round (clip n) = clip (n + (items.map size).sum) := by
  induction items generalizing n with
  | nil => rfl
  | cons a items ih => rw [List.foldl_cons, h, ih, List.map_cons, List.sum_cons, Nat.add_assoc]

/-- The budget is out of reach of a clipped size only if it is out of reach of the size. -/
theorem clip_mul_le_iff {n members budget : Nat} (h : budget < usizeMax) :
    clip n * members ≤ budget ↔ n * members ≤ budget := by
  rcases Nat.le_total n usizeMax with hn | hn
  · rw [clip, Nat.min_eq_left hn]
  · rw [clip, Nat.min_eq_right hn]
    rcases Nat.eq_zero_or_pos members with rfl | hmembers
    · rw [Nat.mul_zero, Nat.mul_zero]
    · have hmax : usizeMax ≤ usizeMax * members := Nat.le_mul_of_pos_right _ hmembers
      have hmul : usizeMax * members ≤ n * members := Nat.mul_le_mul_right _ hn
      exact iff_of_false (by omega) (by omega)

end Saturation

section Estimate

variable (sizes : StructSizes)

/-- One round of the walk adds what the popped value has of its own. -/
theorem visitSize_clip (n : Nat) (value : AnyValue) :
    ∃ own pushed, visitSize sizes (clip n) value = .ok (clip (n + own), pushed) ∧
      value.exactSize sizes = own + (pushed.map (AnyValue.exactSize sizes)).sum := by
  cases value with
  | stringValue value =>
    refine ⟨sizes.anyValueBytes + value.utf8ByteSize, [], ?_, by rw [AnyValue.exactSize]; rfl⟩
    rw [visitSize, saturatingAdd_clip, saturatingAdd_clip, Nat.add_assoc]
  | bytesValue value =>
    refine ⟨sizes.anyValueBytes + value.length, [], ?_, by rw [AnyValue.exactSize]; rfl⟩
    rw [visitSize, saturatingAdd_clip, saturatingAdd_clip, Nat.add_assoc]
  | arrayValue values =>
    refine ⟨sizes.anyValueBytes, values, ?_, by rw [AnyValue.exactSize]⟩
    rw [visitSize, saturatingAdd_clip]
  | kvlistValue values =>
    refine ⟨_, values.filterMap KeyValue.value, ?_, exactSize_kvlistValue sizes values⟩
    have hentry (n : Nat) (entry : KeyValue) : saturatingAdd (clip n)
        (saturatingAdd entry.key.utf8ByteSize sizes.keyValueBytes) =
          clip (n + (entry.key.utf8ByteSize + sizes.keyValueBytes)) :=
      saturatingAdd_clip_clip n (entry.key.utf8ByteSize + sizes.keyValueBytes)
    rw [visitSize, saturatingAdd_clip, foldl_clip hentry, Nat.add_assoc]
  | _ =>
    refine ⟨sizes.anyValueBytes, [], ?_, by simp [AnyValue.exactSize]⟩
    exact congrArg (fun total => Except.ok (total, [])) (saturatingAdd_clip n sizes.anyValueBytes)

theorem visitSize_le {total total' : Nat} {value : AnyValue} {pushed : List AnyValue}
    (htotal : total ≤ usizeMax) (h : visitSize sizes total value = .ok (total', pushed)) :
    total' ≤ usizeMax := by
  obtain ⟨own, pushed', hvisit, -⟩ := visitSize_clip sizes total value
  rw [clip, Nat.min_eq_left htotal, h] at hvisit
  cases hvisit
  exact Nat.min_le_right _ _

theorem run_sizeWalk (value : AnyValue) :
    (sizeWalk sizes).run 0 [value] = .ok (clip (value.exactSize sizes)) := by
  have h := StackWalk.run_eq_sum (w := sizeWalk sizes) (visitSize_clip sizes) 0 [value]
  rwa [List.map_singleton, List.sum_singleton, Nat.zero_add] at h

theorem anyValueSize_eq (value : AnyValue) :
    anyValueSize sizes value = clip (value.exactSize sizes) := by
  rw [anyValueSize, run_sizeWalk]

theorem addAttributeBytes_clip (n : Nat) (entry : KeyValue) :
    addAttributeBytes sizes (clip n) entry = clip (n + entry.exactAttributeSize sizes) := by
  have hkey : saturatingAdd (clip n)
      (saturatingAdd entry.key.utf8ByteSize sizes.attributeBytes) =
        clip (n + (entry.key.utf8ByteSize + sizes.attributeBytes)) :=
    saturatingAdd_clip_clip n (entry.key.utf8ByteSize + sizes.attributeBytes)
  obtain ⟨key, _ | value⟩ := entry
  · exact hkey
  · refine Eq.trans ?_ (congrArg clip (Nat.add_assoc _ _ _))
    rw [addAttributeBytes, hkey]
    dsimp only
    rw [anyValueSize_eq, saturatingAdd_clip_clip]
    rfl

/-- The estimate is the exact size, cut off at the largest `usize`. -/
theorem scopeMetadataBytes_some (scope : InstrumentationScope) (schemaUrl : String) :
    scopeMetadataBytes sizes (some scope) schemaUrl =
      clip (exactScopeSize sizes (some scope) schemaUrl) := by
  have hhead : saturatingAdd
      (saturatingAdd scope.name.utf8ByteSize scope.version.utf8ByteSize) schemaUrl.utf8ByteSize =
        clip (scope.name.utf8ByteSize + scope.version.utf8ByteSize + schemaUrl.utf8ByteSize) :=
    saturatingAdd_clip (scope.name.utf8ByteSize + scope.version.utf8ByteSize) _
  rw [scopeMetadataBytes, hhead, foldl_clip (addAttributeBytes_clip sizes)]
  rfl

theorem addAttributeBytes_le (total : Nat) (entry : KeyValue) :
    addAttributeBytes sizes total entry ≤ usizeMax := by
  obtain ⟨key, _ | value⟩ := entry
  · exact saturatingAdd_le _ _
  · exact saturatingAdd_le _ _

end Estimate

section Check

/-- Division of `usize` values; `none` is the panic on a zero. -/
def checkedDiv (a b : Nat) : Option Nat := if b = 0 then none else some (a / b)

/-- `check_scope_expansion` with a division that can panic. -/
def checkScopeExpansionChecked (limits : IngressConfig) (what : String)
    (metadataBytes members : Nat) : Option (Except IngressError Unit) :=
  if members = 0 ∨ metadataBytes = 0 then some (.ok ())
  else do
    let budget := limits.maxScopeMetadataExpansionBytes
    let share ← checkedDiv budget members
    return rejectIf (share < metadataBytes)
      (s!"{what} scope metadata ({metadataBytes} bytes) repeated across {members} records " ++
        s!"exceeds the {budget}-byte expansion budget; " ++
        "reduce scope attributes or split the request")

theorem checkScopeExpansionChecked_eq (limits : IngressConfig) (what : String)
    (metadataBytes members : Nat) :
    checkScopeExpansionChecked limits what metadataBytes members =
      some (checkScopeExpansion limits what metadataBytes members) := by
  rw [checkScopeExpansionChecked, checkScopeExpansion]
  split
  · rfl
  · next hzero =>
    have hmembers : members ≠ 0 := fun h => hzero (.inl h)
    simp only [checkedDiv, if_neg hmembers]
    rfl

theorem scopeMetadataBytes_mul_le_iff {sizes : StructSizes} {scope : Option InstrumentationScope}
    {schemaUrl : String} {members budget : Nat} (h : budget < usizeMax) :
    scopeMetadataBytes sizes scope schemaUrl * members ≤ budget ↔
      exactScopeSize sizes scope schemaUrl * members ≤ budget := by
  cases scope with
  | none => exact Iff.rfl
  | some scope => rw [scopeMetadataBytes_some, clip_mul_le_iff h]

/-- The expansion check decides by the exact product, whatever is saturated on the way: no sum
leaves the range of `usize`, nothing is divided by zero, and the walk ends with the exact size. -/
theorem scope_expansion_check_exact (sizes : StructSizes) (limits : IngressConfig) (what : String)
    (scope : Option InstrumentationScope) (schemaUrl : String) (members : Nat)
    (hbudget : limits.maxScopeMetadataExpansionBytes < usizeMax) :
    (checkScopeExpansion limits what (scopeMetadataBytes sizes scope schemaUrl) members = .ok () ↔
      exactScopeSize sizes scope schemaUrl * members ≤ limits.maxScopeMetadataExpansionBytes) ∧
    checkScopeExpansionChecked limits what (scopeMetadataBytes sizes scope schemaUrl) members =
      some (checkScopeExpansion limits what (scopeMetadataBytes sizes scope schemaUrl) members) ∧
    (∀ a b, saturatingAdd a b ≤ usizeMax) ∧
    (∀ total entry, addAttributeBytes sizes total entry ≤ usizeMax) ∧
    (∀ total value total' pushed, total ≤ usizeMax →
      visitSize sizes total value = .ok (total', pushed) → total' ≤ usizeMax) ∧
    ∀ value : AnyValue, anyValueSize sizes value = min (value.exactSize sizes) usizeMax ∧
      ∀ rounds, value.nodes < rounds → (sizeWalk sizes).loop rounds 0 [value] =
        some (.ok (min (value.exactSize sizes) usizeMax)) := by
  refine ⟨checkScopeExpansion_ok_iff.trans (scopeMetadataBytes_mul_le_iff hbudget),
    checkScopeExpansionChecked_eq _ _ _ _, saturatingAdd_le, addAttributeBytes_le sizes,
    fun _ _ _ _ => visitSize_le sizes,
    fun value => ⟨anyValueSize_eq sizes value, fun rounds hrounds => ?_⟩⟩
  have hweight : ([value].map (sizeWalk sizes).weight).sum < rounds := by
    rw [List.map_singleton, List.sum_singleton]
    exact hrounds
  rw [StackWalk.loop_eq_run hweight, run_sizeWalk, clip]

/-- A scope with a nested list on three records, against the default budget. -/
def nestedScope : InstrumentationScope where
  name := "lib"
  version := "1"
  attributes := [⟨"k", some (.kvlistValue [⟨"a", none⟩, ⟨"b", some (.stringValue "xy")⟩])⟩]

theorem nested_scope_within_budget :
    checkScopeExpansion {} "log" (scopeMetadataBytes ⟨32, 56, 64⟩ (some nestedScope) "u") 3 =
        .ok () ∧
      exactScopeSize ⟨32, 56, 64⟩ (some nestedScope) "u" = 250 := by
  have hsize : exactScopeSize ⟨32, 56, 64⟩ (some nestedScope) "u" = 250 := by decide +kernel
  refine ⟨(scope_expansion_check_exact ⟨32, 56, 64⟩ {} "log" (some nestedScope) "u" 3
    (by decide)).1.mpr ?_, hsize⟩
  rw [hsize]
  decide

end Check

end OtelSqlite.Mapping
