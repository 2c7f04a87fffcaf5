import OtelSqlite.Model.LastWins
import OtelSqlite.Model.Scalars

/-!
# The canonical JSON is the normal form

The normal form of an attribute value says what its JSON is meant to keep: a list of
attributes is the map from each key to its last value. `document` is the JSON document
whose compact rendering the serializer writes. Its keys ascend, and its value is the normal
form, so the canonical JSON and the normal form determine each other.
-/

namespace OtelSqlite.Model

open OtelSqlite.Lib OtelSqlite.Lib.Json

variable {formats : Formats}

/-- Induction with the hypothesis for every value of an array or a list of attributes. -/
@[elab_as_elim]
theorem AttributeValue.induction {P : AttributeValue → Prop} (hnull : P .null)
    (hstring : ∀ value, P (.string value)) (hint : ∀ value, P (.int value))
    (hdouble : ∀ value, P (.double value)) (hbool : ∀ value, P (.bool value))
    (hbytes : ∀ value, P (.bytes value))
    (harray : ∀ values, (∀ v ∈ values, P v) → P (.array values))
    (hkvlist : ∀ attributes : List Attribute, (∀ a ∈ attributes, P a.value) →
      P (.kvlist attributes)) (v : AttributeValue) : P v :=
  @AttributeValue.rec P (fun a => P a.value) (fun values => ∀ v ∈ values, P v)
    (fun attributes => ∀ a ∈ attributes, P a.value) hnull hstring hint hdouble hbool hbytes
    harray hkvlist (fun _ _ h => h) (fun _ h => absurd h List.not_mem_nil)
    (fun _ _ hx hxs => List.forall_mem_cons.mpr ⟨hx, hxs⟩) (fun _ h => absurd h List.not_mem_nil)
    (fun _ _ ha has => List.forall_mem_cons.mpr ⟨ha, has⟩) v

/-- A double that is not finite becomes null. -/
def Scalar.ofDouble (d : F64) : Scalar :=
  if h : d.isFinite = true then .double ⟨d, h⟩ else .null

/-- Bytes become their hexadecimal digits. -/
def Scalar.ofBytes (bytes : Bytes) : Scalar := .string (String.ofList (hexEncode bytes))

/-- The normal form: what two values have in common if they are to have one JSON. -/
def AttributeValue.normal : AttributeValue → Value Scalar String
  | .null => .scalar .null
  | .string value => .scalar (.string value)
  | .int value => .scalar (.int value)
  | .double value => .scalar (.ofDouble value)
  | .bool value => .scalar (.bool value)
  | .bytes value => .scalar (.ofBytes value)
  | .array values => .array (values.map normal)
  | .kvlist attributes => .object (lastValue (attributes.map fun a => (a.key, a.value.normal)))
termination_by value => sizeOf value
decreasing_by
  · decreasing_tactic
  · exact sizeOf_value_lt ‹_›

/-- The document that the serializer writes. -/
def AttributeValue.document : AttributeValue → Document Scalar String
  | .null => .scalar .null
  | .string value => .scalar (.string value)
  | .int value => .scalar (.int value)
  | .double value => .scalar (.ofDouble value)
  | .bool value => .scalar (.bool value)
  | .bytes value => .scalar (.ofBytes value)
  | .array values => .array (values.map document)
  | .kvlist attributes =>
    .object (objectEntries attributes.length (attributes.map fun a => (a.key, a.value.document)))
termination_by value => sizeOf value
decreasing_by
  · decreasing_tactic
  · exact sizeOf_value_lt ‹_›

theorem text_ofDouble (d : F64) :
    (Scalar.ofDouble d).text formats =
      if d.isFinite then (formats.jsonDouble d).toList else jsonNull := by
  unfold Scalar.ofDouble
  split_ifs <;> rfl

theorem text_ofBytes (bytes : Bytes) :
    (Scalar.ofBytes bytes).text formats = jsonString (hexEncode bytes) := by
  rw [Scalar.ofBytes, Scalar.text, String.toList_ofList]

/-- An object's text, from the document of each entry. -/
theorem jsonObject_map (entries : List (String × Document Scalar String)) :
    jsonObject (entries.map fun e => (e.1, render (jsonTokens formats) e.2)) =
      render (jsonTokens formats) (.object entries) := by
  rw [jsonObject, render, List.map_map]
  rfl

theorem serialize_eq_render (v : AttributeValue) :
    v.serialize formats = render (jsonTokens formats) v.document := by
  induction v using AttributeValue.induction with
  | harray values ih =>
    rw [AttributeValue.serialize, AttributeValue.document, render, List.map_map,
      List.map_congr_left ih]
    rfl
  | hkvlist attributes ih =>
    have hentries : (attributes.map fun a => (a.key, a.value.serialize formats)) =
        (attributes.map fun a => (a.key, a.value.document)).map fun e =>
          (e.1, render (jsonTokens formats) e.2) := by
      rw [List.map_map]
      exact List.map_congr_left fun a ha => by rw [ih a ha]; rfl
    rw [AttributeValue.serialize, AttributeValue.document, hentries, objectEntries_map,
      jsonObject_map]
  | hdouble value =>
    simp [AttributeValue.serialize, AttributeValue.document, render, jsonTokens, text_ofDouble]
  | hbytes value =>
    simp [AttributeValue.serialize, AttributeValue.document, render, jsonTokens, text_ofBytes]
  | _ => simp [AttributeValue.serialize, AttributeValue.document, render, jsonTokens, Scalar.text]

section Order

instance : Std.Asymm fun a b : String => utf8 a < utf8 b := ⟨fun _ _ => List.lt_asymm⟩

theorem lookup_objectEntries {β : Type} (entries : List (String × β)) (key : String) :
    (objectEntries entries.length entries).lookup key = lastValue entries key := by
  apply Option.ext
  intro value
  rw [lookup_eq_some_iff_mem (pairwise_objectEntries entries), mem_objectEntries_iff]

/-- Keys ascend by their bytes, in every object of the document. -/
theorem keysAscending_document (v : AttributeValue) :
    KeysAscending (fun a b => utf8 a < utf8 b) v.document := by
  induction v using AttributeValue.induction with
  | harray values ih =>
    rw [AttributeValue.document]
    refine .array fun d hd => ?_
    obtain ⟨v, hv, rfl⟩ := List.mem_map.mp hd
    exact ih v hv
  | hkvlist attributes ih =>
    have hlength : attributes.length =
        (attributes.map fun a => (a.key, a.value.document)).length := (List.length_map _).symm
    rw [AttributeValue.document, hlength]
    refine .object (pairwise_objectEntries _) fun e he => ?_
    obtain ⟨a, ha, rfl⟩ := List.mem_map.mp (mem_of_mem_objectEntries he)
    exact ih a ha
  | _ =>
    rw [AttributeValue.document]
    exact .scalar _

/-- The document is the normal form with its objects in order. -/
theorem value_document (v : AttributeValue) : v.document.value = v.normal := by
  induction v using AttributeValue.induction with
  | harray values ih =>
    rw [AttributeValue.document, AttributeValue.normal, Document.value, List.map_map]
    exact congrArg _ (List.map_congr_left ih)
  | hkvlist attributes ih =>
    have hlength : attributes.length =
        (attributes.map fun a => (a.key, a.value.normal)).length := (List.length_map _).symm
    have hentries : ((attributes.map fun a => (a.key, a.value.document)).map fun e =>
        (e.1, e.2.value)) = attributes.map fun a => (a.key, a.value.normal) := by
      rw [List.map_map]
      exact List.map_congr_left fun a ha => congrArg (Prod.mk a.key) (ih a ha)
    rw [AttributeValue.document, AttributeValue.normal, Document.value, ← objectEntries_map,
      hentries, hlength]
    exact congrArg _ (funext (lookup_objectEntries _))
  | _ => rw [AttributeValue.document, AttributeValue.normal, Document.value]

end Order

/-- Equal JSON means equal normal forms, and the other way. -/
theorem serialize_eq_iff (h : formats.RendersNumbers) (v w : AttributeValue) :
    v.serialize formats = w.serialize formats ↔ v.normal = w.normal := by
  rw [serialize_eq_render, serialize_eq_render, render_inj (jsonTokens_readable h),
    ← value_document, ← value_document,
    value_inj (keysAscending_document v) (keysAscending_document w)]

section Scratch

/-- `AttributesJson::serialize`: the attributes in the given order, without those that
another one with their key follows. -/
def attributesJson (formats : Formats) (attributes : List Attribute) (order : List Nat) : Text :=
  jsonObject (lastOfEachKey (attributes.map fun a => (a.key, a.value.serialize formats)) order)

/-- The buffer with its contents dropped. -/
def cleared {α : Type} (buffer : List α) : List α := buffer.take 0

/-- `write_attributes_json_into` with its two buffers: the indices, which are `u32`, and the
text. -/
def writeAttributesJsonInto (formats : Formats) (attributes : List Attribute)
    (order : List Nat) (out : String) : List Nat × String :=
  let order := cleared order ++ List.range (attributes.length % 2 ^ 32)
  let order := order.insertionSort (InKeyOrder (attributes.map fun a => (a.key, a.value)))
  (order, String.ofList (cleared out.toList ++ attributesJson formats attributes order))

/-- What the buffers held before does not show. -/
theorem writeAttributesJsonInto_eq (attributes : List Attribute) (order : List Nat)
    (out : String) :
    (writeAttributesJsonInto formats attributes order out).2 =
      writeAttributesJson formats attributes := by
  have hentries : (attributes.map fun a => (a.key, a.value.serialize formats)) =
      (attributes.map fun a => (a.key, a.value)).map fun e =>
        (e.1, AttributeValue.serialize formats e.2) := by
    rw [List.map_map]
    rfl
  simp only [writeAttributesJsonInto, cleared, List.take_zero, List.nil_append, attributesJson,
    writeAttributesJson, hentries, objectEntries_map, lastOfEachKey_map]
  rfl

end Scratch

/-- With an injective rendering of finite doubles as numbers that are no integers: two
attribute values have the same canonical JSON exactly if they have the same normal form; the
canonical JSON is the compact rendering of a document whose value is the normal form and
whose keys ascend by their bytes in every object; and for fewer than `2 ^ 32` attributes
`write_attributes_json_into` writes the canonical JSON of the list of them, whatever its
buffers held. -/
theorem canonical_json_exact (formats : Formats) (h : formats.RendersNumbers) :
    (∀ v w : AttributeValue,
      v.toCanonicalJson formats = w.toCanonicalJson formats ↔ v.normal = w.normal) ∧
    (∀ v : AttributeValue, ∃ document : Document Scalar String,
      (v.toCanonicalJson formats).toList = render (jsonTokens formats) document ∧
      document.value = v.normal ∧
      KeysAscending (fun a b => utf8 a < utf8 b) document) ∧
    ∀ attributes : List Attribute, attributes.length < 2 ^ 32 → ∀ order out,
      (writeAttributesJsonInto formats attributes order out).2 =
        (AttributeValue.kvlist attributes).toCanonicalJson formats := by
  refine ⟨fun v w => ?_, fun v => ?_, fun attributes hlength order out => ?_⟩
  · rw [← serialize_eq_iff h]
    exact String.ofList_inj
  · refine ⟨v.document, ?_, value_document v, keysAscending_document v⟩
    rw [AttributeValue.toCanonicalJson, String.toList_ofList, serialize_eq_render]
  · rw [writeAttributesJsonInto_eq, writeAttributesJson, Nat.mod_eq_of_lt hlength,
      AttributeValue.toCanonicalJson, AttributeValue.serialize]

section Sample

/-- A double as the number of its bits and a half. -/
def halfFormats : Formats where
  jsonDouble := fun d => d.toNat.repr ++ ".5"
  displayDouble := fun d => d.toNat.repr
  utf8Lossy := fun _ => ""

theorem halfFormats_rendersNumbers : halfFormats.RendersNumbers where
  number := by
    intro d _
    have htext : (halfFormats.jsonDouble d).toList = d.toNat.repr.toList ++ ['.', '5'] :=
      String.toList_append
    rw [htext]
    refine ⟨by simp, fun c hc => ?_⟩
    rcases List.mem_append.mp hc with hc | hc
    · simp [isNumberChar, isDigit_of_mem_repr hc]
    · rcases List.mem_pair.mp hc with rfl | rfl
      · decide
      · decide
  injective := by
    intro d d' _ _ he
    have hrepr : d.toNat.repr = d'.toNat.repr := (String.append_left_inj _).mp he
    exact UInt64.toNat_inj.mp (Nat.repr_inj.mp hrepr)
  not_int := by
    intro d i _ he
    have hdot : '.' ∈ (toString i.toInt).toList := by
      rw [← he]
      exact String.toList_append ▸ List.mem_append_right _ List.mem_cons_self
    rcases mem_toString_int hdot with hdigit | hsign
    · exact absurd hdigit (by decide)
    · exact absurd hsign (by decide)

/-- A list that repeats a key, written into buffers with old contents. -/
theorem canonical_json_exact_repeated_key :
    halfFormats.RendersNumbers ∧
      (AttributeValue.kvlist [⟨"a", .null⟩, ⟨"b", .bool true⟩, ⟨"a", .int 7⟩]).toCanonicalJson
          halfFormats =
        (writeAttributesJsonInto halfFormats [⟨"a", .null⟩, ⟨"b", .bool true⟩, ⟨"a", .int 7⟩]
          [3, 1] "old").2 :=
  ⟨halfFormats_rendersNumbers,
    ((canonical_json_exact halfFormats halfFormats_rendersNumbers).2.2 _ (by decide) _ _).symm⟩

end Sample

end OtelSqlite.Model
