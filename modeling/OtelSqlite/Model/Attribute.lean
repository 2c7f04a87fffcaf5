import Mathlib.Algebra.Order.Ring.Nat
import Mathlib.Data.List.Sort
import OtelSqlite.Lib.Disk

/-!
# Attribute values and their canonical JSON

A double is its 64 bits. How the standard library and `serde_json` print a double, and
how bytes that are no UTF-8 are replaced, are parameters (`Formats`); everything else
of the rendering is computed here.
-/

namespace OtelSqlite.Model

open OtelSqlite.Lib

/-- A 64-bit floating point number by its bits. -/
abbrev F64 := UInt64

/-- The exponent bits are not all set. -/
def F64.isFinite (d : F64) : Bool := (d >>> 52) &&& 0x7FF != 0x7FF

/-- Text conversions of the libraries: a finite double as JSON and as text, and bytes
read as UTF-8 with replacement characters. -/
structure Formats where
  jsonDouble : F64 → String
  displayDouble : F64 → String
  utf8Lossy : Bytes → String

mutual
inductive AttributeValue where
  | null
  | string (value : String)
  | int (value : Int64)
  | double (value : F64)
  | bool (value : Bool)
  | bytes (value : Bytes)
  | array (values : List AttributeValue)
  | kvlist (attributes : List Attribute)

structure Attribute where
  key : String
  value : AttributeValue
end

section Json

/-- JSON documents are built as lists of characters. -/
abbrev Text := List Char

def hexDigit (n : Nat) : Char := if n < 10 then Char.ofNat (48 + n) else Char.ofNat (87 + n)

def hexEncode (bytes : Bytes) : Text :=
  bytes.flatMap fun b => [hexDigit (b.toNat / 16), hexDigit (b.toNat % 16)]

/-- A character inside a JSON string. -/
def escapeChar (c : Char) : Text :=
  match c.toNat with
  | 0x22 => ['\\', c]
  | 0x5C => ['\\', c]
  | 0x08 => ['\\', 'b']
  | 0x09 => ['\\', 't']
  | 0x0A => ['\\', 'n']
  | 0x0C => ['\\', 'f']
  | 0x0D => ['\\', 'r']
  | n => if n < 0x20 then ['\\', 'u', '0', '0', hexDigit (n / 16), hexDigit (n % 16)] else [c]

/-- The quotation mark. -/
def quote : Char := Char.ofNat 0x22

def jsonString (text : Text) : Text := quote :: (text.flatMap escapeChar ++ [quote])

def jsonBool (b : Bool) : Text := if b then "true".toList else "false".toList

def jsonNull : Text := "null".toList

def jsonArray (items : List Text) : Text := '[' :: (List.intercalate [','] items ++ [']'])

def jsonObject (entries : List (String × Text)) : Text :=
  Char.ofNat 0x7B ::
    (List.intercalate [','] (entries.map fun e => jsonString e.1.toList ++ ':' :: e.2) ++
      [Char.ofNat 0x7D])

end Json

section Objects

/-- Strings compare by their bytes. -/
def utf8 (s : String) : List UInt8 := s.toUTF8.data.toList

theorem utf8_injective : Function.Injective utf8 := by
  intro s t h
  apply String.toByteArray_inj.mp
  apply ByteArray.ext
  exact Array.ext' h

variable {β : Type}

/-- The bytes of the key at an index. -/
def keyAt (entries : List (String × β)) (i : Nat) : List UInt8 :=
  ((entries[i]?).map fun e => utf8 e.1).getD []

/-- The sort key of an index is the key of its entry, then the index itself. -/
def InKeyOrder (entries : List (String × β)) (i j : Nat) : Prop :=
  keyAt entries i < keyAt entries j ∨ keyAt entries i = keyAt entries j ∧ i ≤ j

instance (entries : List (String × β)) : DecidableRel (InKeyOrder entries) := fun i j =>
  inferInstanceAs (Decidable
    (keyAt entries i < keyAt entries j ∨ keyAt entries i = keyAt entries j ∧ i ≤ j))

/-- Walk the sorted indices and skip every entry that another one with its key follows. -/
def lastOfEachKey (entries : List (String × β)) : List Nat → List (String × β)
  | [] => []
  | [i] => entries[i]?.toList
  | i :: j :: rest =>
    if entries[j]?.map Prod.fst = entries[i]?.map Prod.fst then lastOfEachKey entries (j :: rest)
    else entries[i]?.toList ++ lastOfEachKey entries (j :: rest)

/-- The entries of a JSON object: the first `count` ones, keys ascending, the last value
of each key. -/
def objectEntries (count : Nat) (entries : List (String × β)) : List (String × β) :=
  lastOfEachKey entries ((List.range count).insertionSort (InKeyOrder entries))

end Objects

theorem sizeOf_value_lt {a : Attribute} {attributes : List Attribute} (h : a ∈ attributes) :
    sizeOf a.value < sizeOf (AttributeValue.kvlist attributes) := by
  have hmem := List.sizeOf_lt_of_mem h
  have hvalue : sizeOf a.value < sizeOf a := by
    cases a
    simp
  simp only [AttributeValue.kvlist.sizeOf_spec]
  omega

/-- The `Serialize` implementation. -/
def AttributeValue.serialize (formats : Formats) : AttributeValue → Text
  | .null => jsonNull
  | .int value => (toString value.toInt).toList
  | .double value => if value.isFinite then (formats.jsonDouble value).toList else jsonNull
  | .bool value => jsonBool value
  | .string value => jsonString value.toList
  | .bytes value => jsonString (hexEncode value)
  | .array values => jsonArray (values.map (serialize formats))
  | .kvlist attributes =>
    jsonObject (objectEntries attributes.length
      (attributes.map fun a => (a.key, serialize formats a.value)))
termination_by value => sizeOf value
decreasing_by
  · decreasing_tactic
  · exact sizeOf_value_lt ‹_›

def AttributeValue.toCanonicalJson (formats : Formats) (value : AttributeValue) : String :=
  String.ofList (value.serialize formats)

/-- `write_attributes_json_into` an empty buffer: the indices are `u32`. -/
def writeAttributesJson (formats : Formats) (attributes : List Attribute) : String :=
  String.ofList (jsonObject (objectEntries (attributes.length % 2 ^ 32)
    (attributes.map fun a => (a.key, a.value.serialize formats))))

end OtelSqlite.Model
