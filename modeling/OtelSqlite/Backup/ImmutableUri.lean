import Mathlib.Data.List.Basic
import OtelSqlite.Lib.Disk
import OtelSqlite.Lib.Percent
import OtelSqlite.Model.Attribute

/-!
# The URI of an immutable inspection

`open_immutable` hands SQLite a `file:` URI with the percent-encoded path. SQLite is outside;
its rules for such a URI (`parseUri`) are written down here. A path is UTF-8, so
`to_string_lossy` leaves it as it is, and the system is not Windows. The encoded string is
ASCII and stands as its bytes.

The encoder keeps `/`. At the front of the path that is not always the same as encoding it:
two slashes there open an authority, and SQLite takes the path from behind it.
-/

namespace OtelSqlite.Backup

open OtelSqlite.Lib OtelSqlite.Model

section Encode

/-- The bytes `encode_uri_path` pushes as they are. -/
def isLiteral (byte : UInt8) : Bool :=
  (0x41 ≤ byte && byte ≤ 0x5A) || (0x61 ≤ byte && byte ≤ 0x7A) || (0x30 ≤ byte && byte ≤ 0x39) ||
    byte == 0x2D || byte == 0x2E || byte == 0x5F || byte == 0x7E || byte == 0x2F || byte == 0x3A

def encodeUriPath (path : String) : Bytes := percentEncode isLiteral (utf8 path)

def immutableQuery : Bytes := utf8 "?immutable=1"

/-- The URI that `open_immutable` opens. -/
def immutableUri (path : String) : Bytes := utf8 "file:" ++ (encodeUriPath path ++ immutableQuery)

end Encode

section Parse

inductive UriError where
  | invalidAuthority (authority : Bytes)
  deriving DecidableEq, Repr

/-- What SQLite takes from a URI: the file and the query parameters. -/
structure UriName where
  path : Bytes
  parameters : List (Bytes × Bytes)
  deriving DecidableEq, Repr

/-- A path, name or value with its escapes decoded; `%00` ends it. -/
def decoded (raw : Bytes) : Bytes := (percentDecode raw).takeWhile (· ≠ 0)

/-- After two slashes comes an authority, up to the next slash or the end of the string. -/
def skipAuthority : Bytes → Except UriError Bytes
  | 0x2F :: 0x2F :: rest =>
    let authority := rest.takeWhile (· ≠ 0x2F)
    if authority = [] ∨ authority = utf8 "localhost" then .ok (rest.dropWhile (· ≠ 0x2F))
    else .error (.invalidAuthority authority)
  | rest => .ok rest

/-- One `name=value`; a parameter with an empty name is ignored. -/
def parseParameter (raw : Bytes) : Option (Bytes × Bytes) :=
  let name := decoded (raw.takeWhile (· ≠ 0x3D))
  if name = [] then none else some (name, decoded (raw.dropWhile (· ≠ 0x3D)).tail)

/-- The path up to `?`, then the parameters between `&`; nothing is read from `#` on. -/
def readName (rest : Bytes) : UriName :=
  let text := rest.takeWhile (· ≠ 0x23)
  { path := decoded (text.takeWhile (· ≠ 0x3F))
    parameters := ((text.dropWhile (· ≠ 0x3F)).tail.splitOn 0x26).filterMap parseParameter }

/-- A string without the scheme is the name of the file itself. -/
def parseUri (uri : Bytes) : Except UriError UriName :=
  if uri.take 5 = utf8 "file:" then (skipAuthority (uri.drop 5)).map readName
  else .ok { path := uri, parameters := [] }

end Parse

section Structure

/-- Two slashes at the front. -/
def OpensAuthority (bytes : Bytes) : Prop := [0x2F, 0x2F] <+: bytes

instance (bytes : Bytes) : Decidable (OpensAuthority bytes) :=
  inferInstanceAs (Decidable ([0x2F, 0x2F] <+: bytes))

theorem skipAuthority_of_not_opens {body : Bytes} (h : ¬ OpensAuthority body) :
    skipAuthority body = .ok body := by
  fun_cases skipAuthority body with
  | case1 rest | case2 rest => exact absurd ⟨rest, rfl⟩ h
  | case3 => rfl

/-- What is skipped has neither an escape nor a `?` in it. -/
theorem skipAuthority_ok {body rest : Bytes} (h : skipAuthority body = .ok rest) :
    ∃ front, body = front ++ rest ∧ 0x25 ∉ front ∧ 0x3F ∉ front ∧
      (OpensAuthority body → front ≠ []) := by
  by_cases hopens : OpensAuthority body
  · obtain ⟨tail, rfl⟩ := hopens
    rw [List.cons_append, List.cons_append, List.nil_append, skipAuthority] at h
    split at h
    · next hauthority =>
      cases h
      refine ⟨0x2F :: 0x2F :: tail.takeWhile (· ≠ 0x2F), ?_,
        and_assoc.mp ⟨?_, fun _ => List.cons_ne_nil _ _⟩⟩
      · simp only [List.cons_append, List.nil_append, List.takeWhile_append_dropWhile]
      · rcases hauthority with hnone | hlocal
        · rw [hnone]; decide
        · rw [hlocal]; decide
    · cases h
  · rw [skipAuthority_of_not_opens hopens] at h
    cases h
    exact ⟨[], rfl, List.not_mem_nil, List.not_mem_nil, fun hopen => absurd hopen hopens⟩

end Structure

section Encoded

variable {bytes : Bytes}

theorem isLiteral_percent : isLiteral 0x25 = false := by decide

theorem ne_of_mem_encoded {c : UInt8} (h : c ∈ percentEncode isLiteral bytes) :
    c ≠ 0x3F ∧ c ≠ 0x23 := by
  have hhex : ∀ n : Fin 16, upperHex n ≠ 0x3F ∧ upperHex n ≠ 0x23 := by decide
  rcases mem_percentEncode h with hc | rfl | ⟨n, hn, rfl⟩
  · constructor
    · rintro rfl
      exact absurd hc (by decide)
    · rintro rfl
      exact absurd hc (by decide)
  · decide
  · exact hhex ⟨n, hn⟩

theorem decoded_encode (h : 0 ∉ bytes) : decoded (percentEncode isLiteral bytes) = bytes := by
  have htake : bytes.takeWhile (· ≠ 0) = bytes ++ [].takeWhile (· ≠ 0) := by
    rw [← List.takeWhile_append_of_pos, List.append_nil]
    intro c hc
    exact decide_eq_true fun hzero => h (hzero ▸ hc)
  rw [decoded, percentDecode_percentEncode isLiteral_percent, htake, List.takeWhile_nil,
    List.append_nil]

/-- A front of the URI's body without escapes and `?` is a front of the path. -/
theorem encoded_front {front rest : Bytes} (hescape : 0x25 ∉ front) (hmark : 0x3F ∉ front)
    (h : percentEncode isLiteral bytes ++ immutableQuery = front ++ rest) :
    ∃ raw, percentEncode isLiteral bytes = front ++ raw ∧ rest = raw ++ immutableQuery ∧
      bytes = front ++ percentDecode raw := by
  have hsplit : ∃ raw, percentEncode isLiteral bytes = front ++ raw ∧
      rest = raw ++ immutableQuery := by
    rcases List.append_eq_append_iff.mp h with ⟨tail, hfront, hquery⟩ | hraw
    · cases tail with
      | nil => exact ⟨[], by rw [hfront, List.append_nil, List.append_nil], hquery.symm⟩
      | cons c tail =>
        -- The query would begin inside the front, which has no `?`.
        have hc : 0x3F = c := (List.cons.inj hquery).1
        exact absurd (hfront ▸ List.mem_append_right _ (hc ▸ List.mem_cons_self)) hmark
    · exact hraw
  obtain ⟨raw, henc, hrest⟩ := hsplit
  refine ⟨raw, henc, hrest, ?_⟩
  rw [← percentDecode_append_of_notMem hescape, ← henc,
    percentDecode_percentEncode isLiteral_percent]

theorem opensAuthority_encode :
    OpensAuthority (percentEncode isLiteral bytes ++ immutableQuery) ↔ OpensAuthority bytes := by
  constructor
  · rintro ⟨rest, hrest⟩
    obtain ⟨raw, -, -, hbytes⟩ := encoded_front (by decide) (by decide) hrest.symm
    exact ⟨percentDecode raw, hbytes.symm⟩
  · rintro ⟨rest, rfl⟩
    exact ⟨percentEncode isLiteral rest ++ immutableQuery, rfl⟩

/-- What is read from an encoded text in front of the query. -/
theorem readName_encoded {raw : Bytes} (h : ∀ c ∈ raw, c ≠ 0x3F ∧ c ≠ 0x23) :
    readName (raw ++ immutableQuery) =
      { path := decoded raw, parameters := [(utf8 "immutable", utf8 "1")] } := by
  have hfragment : (raw ++ immutableQuery).takeWhile (· ≠ 0x23) = raw ++ immutableQuery := by
    rw [List.takeWhile_append_of_pos fun c hc => decide_eq_true (h c hc).2]
    rfl
  have hpath : (raw ++ immutableQuery).takeWhile (· ≠ 0x3F) = raw := by
    rw [List.takeWhile_append_of_pos fun c hc => decide_eq_true (h c hc).1]
    exact List.append_nil raw
  have hquery : (raw ++ immutableQuery).dropWhile (· ≠ 0x3F) = immutableQuery := by
    rw [List.dropWhile_append_of_pos fun c hc => decide_eq_true (h c hc).1]
    rfl
  have hparameters : (immutableQuery.tail.splitOn 0x26).filterMap parseParameter =
      [(utf8 "immutable", utf8 "1")] := by decide
  rw [readName]
  simp only [hfragment, hpath, hquery, hparameters]

/-- Of an encoded path SQLite reads what stands behind the front it has skipped. -/
theorem readName_of_skipAuthority {rest : Bytes}
    (h : skipAuthority (percentEncode isLiteral bytes ++ immutableQuery) = .ok rest) :
    ∃ front raw, bytes = front ++ percentDecode raw ∧ (readName rest).path = decoded raw ∧
      (OpensAuthority bytes → front ≠ []) := by
  obtain ⟨front, hbody, hescape, hmark, hfront⟩ := skipAuthority_ok h
  obtain ⟨raw, henc, rfl, hbytes⟩ := encoded_front hescape hmark hbody
  have hclean : ∀ c ∈ raw, c ≠ 0x3F ∧ c ≠ 0x23 := fun c hc =>
    ne_of_mem_encoded (henc ▸ List.mem_append_right _ hc)
  refine ⟨front, raw, hbytes, ?_, fun hopens => hfront (opensAuthority_encode.mpr hopens)⟩
  rw [readName_encoded hclean]

end Encoded

theorem parseUri_immutableUri (path : String) : parseUri (immutableUri path) =
    (skipAuthority (encodeUriPath path ++ immutableQuery)).map readName := by
  rw [parseUri, immutableUri, List.take_left' (by decide), List.drop_left' (by decide), if_pos rfl]

/-- SQLite opens the configured file exactly when its path does not begin with two slashes. -/
theorem immutable_uri_names_path_iff (path : String) (hnul : 0 ∉ utf8 path) :
    parseUri (immutableUri path) =
        .ok { path := utf8 path, parameters := [(utf8 "immutable", utf8 "1")] } ↔
      ¬ OpensAuthority (utf8 path) := by
  rw [parseUri_immutableUri, encodeUriPath]
  constructor
  · intro hparse hopens
    cases hskip : skipAuthority (percentEncode isLiteral (utf8 path) ++ immutableQuery) with
    | error e => rw [hskip] at hparse; cases hparse
    | ok rest =>
      rw [hskip] at hparse
      obtain ⟨front, raw, hbytes, hread, hfront⟩ := readName_of_skipAuthority hskip
      have hpath : decoded raw = utf8 path :=
        hread.symm.trans (congrArg UriName.path (Except.ok.inj hparse))
      -- The path is read from behind the front, so nothing can have been skipped.
      have hle : (decoded raw).length ≤ (percentDecode raw).length :=
        (List.takeWhile_sublist _).length_le
      have hlength := congrArg List.length hbytes
      rw [List.length_append, ← hpath] at hlength
      exact hfront hopens (List.eq_nil_of_length_eq_zero (by omega))
  · intro hopens
    rw [skipAuthority_of_not_opens (mt opensAuthority_encode.mp hopens)]
    exact congrArg Except.ok ((readName_encoded fun c hc => ne_of_mem_encoded hc).trans
      (by rw [decoded_encode hnul]))

/-- Escapes keep a path with `?`, `#` and `%` in it whole. -/
theorem immutable_uri_names_escaped_path :
    0 ∉ utf8 "/srv/a b?#%41.db" ∧
    parseUri (immutableUri "/srv/a b?#%41.db") =
      .ok { path := utf8 "/srv/a b?#%41.db", parameters := [(utf8 "immutable", utf8 "1")] } :=
  ⟨by decide, (immutable_uri_names_path_iff _ (by decide)).mpr (by decide)⟩

/-- After two slashes the first directory is refused as an authority, or dropped. -/
theorem immutable_uri_drops_authority :
    (0 ∉ utf8 "//tmp/otel.db" ∧ 0 ∉ utf8 "//localhost/otel.db") ∧
    parseUri (immutableUri "//tmp/otel.db") = .error (.invalidAuthority (utf8 "tmp")) ∧
    parseUri (immutableUri "//localhost/otel.db") =
      .ok { path := utf8 "/otel.db", parameters := [(utf8 "immutable", utf8 "1")] } := by
  decide

end OtelSqlite.Backup
