import OtelSqlite.Lib.LengthPrefix
import OtelSqlite.Sqlite.Schema

/-!
# Resource identity

The id of a resource is the SHA-256 fingerprint of the columns that identify it. SHA-256
is a parameter; `Collisionless` is what is assumed of it on the origins at hand, along
with the fact that the length of a Rust string fits its eight bytes.
-/

namespace OtelSqlite.Sqlite

open OtelSqlite.Lib OtelSqlite.Model

abbrev Digest := Vector UInt8 32

/-- Empty strings are stored as `NULL`. -/
def nonEmpty (value : String) : Option String := if value = "" then none else some value

/-- What the libraries compute: texts and SHA-256. -/
structure Libraries where
  formats : Formats
  sha256 : Bytes → Digest

/-- A digest that tells messages of different lengths below 256 apart. -/
def lengthDigest : Libraries where
  formats := ⟨fun _ => "", fun _ => "", fun _ => ""⟩
  sha256 message := Vector.replicate 32 (UInt8.ofNat message.length)

/-- `fingerprint_into`. -/
def fingerprint (sha256 : Bytes → Digest) (parts : List String) : String :=
  String.ofList (hexEncode (sha256 (framed (parts.map utf8))).toList)

def resourceColumns (formats : Formats) (resource : Resource) : ResourceColumns where
  serviceName := resource.serviceName
  hostName := nonEmpty resource.hostName
  schemaUrl := nonEmpty resource.schemaUrl
  attributesJson := writeAttributesJson formats resource.attributes

/-- The columns as they are hashed. -/
def ResourceColumns.parts (columns : ResourceColumns) : List String :=
  [columns.serviceName, columns.hostName.getD "", columns.schemaUrl.getD "",
    columns.attributesJson]

/-- The bytes that are hashed for a resource. -/
def hashed (formats : Formats) (resource : Resource) : Bytes :=
  framed ((resourceColumns formats resource).parts.map utf8)

/-- The resource of a batch: without one, an empty resource with the batch's schema URL. -/
def batchResource (origin : BatchOrigin) : Resource :=
  origin.resource.getD { id := "", attributes := [], schemaUrl := origin.schemaUrl }

variable (libraries : Libraries) {origins : List BatchOrigin}

/-- The id that `resolve_resource` computes. -/
def identity (resource : Resource) : String :=
  fingerprint libraries.sha256 (resourceColumns libraries.formats resource).parts

/-- No two resources of the list have messages that collide, and every hashed part is
shorter than 2^64 bytes. -/
structure CollisionFree (resources : List Resource) : Prop where
  fits : ∀ resource ∈ resources, ∀ part ∈ (resourceColumns libraries.formats resource).parts,
    part.utf8ByteSize < 2 ^ 64
  collisionFree : ∀ a ∈ resources, ∀ b ∈ resources,
    libraries.sha256 (hashed libraries.formats a) = libraries.sha256 (hashed libraries.formats b) →
      hashed libraries.formats a = hashed libraries.formats b

def columnsOf (origin : BatchOrigin) : ResourceColumns :=
  resourceColumns libraries.formats (batchResource origin)

def resourceId (origin : BatchOrigin) : String :=
  fingerprint libraries.sha256 (columnsOf libraries origin).parts

/-- `resolve_resource` on the database. -/
def resolveResource (db : Database) (origin : BatchOrigin) (now : String) : Database :=
  db.insertResource (resourceId libraries origin) ⟨columnsOf libraries origin, now⟩

/-- No two origins of the list have messages that collide, and every hashed part is
shorter than 2^64 bytes. -/
structure Collisionless (origins : List BatchOrigin) : Prop where
  fits : ∀ origin ∈ origins, ∀ part ∈ (columnsOf libraries origin).parts,
    part.utf8ByteSize < 2 ^ 64
  collisionless : ∀ a ∈ origins, ∀ b ∈ origins,
    libraries.sha256 (framed ((columnsOf libraries a).parts.map utf8)) =
        libraries.sha256 (framed ((columnsOf libraries b).parts.map utf8)) →
      framed ((columnsOf libraries a).parts.map utf8) =
        framed ((columnsOf libraries b).parts.map utf8)

section Hex

theorem hexDigit_inj {a b : Nat} (ha : a < 16) (hb : b < 16) (h : hexDigit a = hexDigit b) :
    a = b := by
  have hfin : ∀ a b : Fin 16, hexDigit a = hexDigit b → a = b := by decide
  exact congrArg Fin.val (hfin ⟨a, ha⟩ ⟨b, hb⟩ h)

theorem hexEncode_injective : Function.Injective hexEncode := by
  intro bytes
  induction bytes with
  | nil =>
    intro other h
    cases other with
    | nil => rfl
    | cons b other => simp [hexEncode] at h
  | cons a bytes ih =>
    intro other h
    cases other with
    | nil => simp [hexEncode] at h
    | cons b other =>
      have hdigits := List.cons.inj h
      have hrest := List.cons.inj hdigits.2
      have ha := a.toNat_lt
      have hb := b.toNat_lt
      have hhigh := hexDigit_inj (by omega) (by omega) hdigits.1
      have hlow := hexDigit_inj (by omega) (by omega) hrest.1
      rw [UInt8.toNat_inj.mp (show a.toNat = b.toNat by omega), ih hrest.2]

end Hex

@[simp] theorem getD_nonEmpty (s : String) : (nonEmpty s).getD "" = s := by
  unfold nonEmpty
  split
  · next h => exact h.symm
  · rfl

/-- The hashed parts determine the columns. -/
theorem resourceColumns_eq_of_parts {formats : Formats} {a b : Resource}
    (h : (resourceColumns formats a).parts = (resourceColumns formats b).parts) :
    resourceColumns formats a = resourceColumns formats b := by
  simp only [ResourceColumns.parts, resourceColumns, getD_nonEmpty, List.cons.injEq,
    and_true] at h ⊢
  obtain ⟨hservice, hhost, hschema, hjson⟩ := h
  rw [hservice, hhost, hschema, hjson]

/-- The hashed bytes determine a list of parts. -/
theorem framed_utf8_inj {parts parts' : List String} (h : ∀ p ∈ parts, p.utf8ByteSize < 2 ^ 64)
    (h' : ∀ p ∈ parts', p.utf8ByteSize < 2 ^ 64)
    (heq : framed (parts.map utf8) = framed (parts'.map utf8)) : parts = parts' := by
  have hfits : ∀ texts : List String, (∀ p ∈ texts, p.utf8ByteSize < 2 ^ 64) →
      ∀ part ∈ texts.map utf8, part.length < 2 ^ 64 := by
    intro texts htexts part hpart
    obtain ⟨text, htext, rfl⟩ := List.mem_map.mp hpart
    exact htexts text htext
  exact List.map_injective_iff.mpr utf8_injective (framed_inj (hfits _ h) (hfits _ h') heq)

/-- Resources with one id have one row. -/
theorem CollisionFree.columns_eq {libraries : Libraries} {resources : List Resource}
    {a b : Resource} (h : CollisionFree libraries resources) (ha : a ∈ resources)
    (hb : b ∈ resources) (hid : identity libraries a = identity libraries b) :
    resourceColumns libraries.formats a = resourceColumns libraries.formats b := by
  have hdigest := Vector.toList_inj.mp (hexEncode_injective (String.ofList_injective hid))
  have hframed := h.collisionFree a ha b hb hdigest
  exact resourceColumns_eq_of_parts (framed_utf8_inj (h.fits a ha) (h.fits b hb) hframed)

theorem Collisionless.collisionFree {libraries : Libraries} (h : Collisionless libraries origins) :
    CollisionFree libraries (origins.map batchResource) where
  fits := List.forall_mem_map.mpr h.fits
  collisionFree := List.forall_mem_map.mpr fun a ha =>
    List.forall_mem_map.mpr fun b hb => h.collisionless a ha b hb

/-- Origins with one resource id have one resource row. -/
theorem Collisionless.columns_eq {libraries : Libraries} {a b : BatchOrigin}
    (h : Collisionless libraries origins) (ha : a ∈ origins) (hb : b ∈ origins)
    (hid : resourceId libraries a = resourceId libraries b) :
    columnsOf libraries a = columnsOf libraries b :=
  h.collisionFree.columns_eq (List.mem_map_of_mem ha) (List.mem_map_of_mem hb) hid

end OtelSqlite.Sqlite
