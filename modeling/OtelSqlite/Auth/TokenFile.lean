import Mathlib.Algebra.Order.Ring.Nat
import Mathlib.Data.List.Induction

/-!
# The token file

A file of bearer tokens, one to a line, as `read_token_file` and
`parse_token_lines` read it. SHA-256 is a parameter; its argument is a text, whose
UTF-8 bytes the code hashes.
-/

namespace OtelSqlite.Auth

abbrev Text := List Char

abbrev Digest := { bytes : List UInt8 // bytes.length = 32 }

def maxTokenFileBytes : Nat := 1024 * 1024

def maxTokens : Nat := 10000

def maxTokenLineBytes : Nat := 4096

section Texts

/-- The Unicode property `White_Space`. -/
def isWhiteSpace (c : Char) : Bool :=
  let code := c.toNat
  (0x09 ≤ code && code ≤ 0x0D) || code == 0x20 || code == 0x85 || code == 0xA0 ||
    code == 0x1680 || (0x2000 ≤ code && code ≤ 0x200A) || code == 0x2028 || code == 0x2029 ||
    code == 0x202F || code == 0x205F || code == 0x3000

def trimEnd (text : Text) : Text := (text.reverse.dropWhile isWhiteSpace).reverse

def trim (text : Text) : Text := trimEnd (text.dropWhile isWhiteSpace)

/-- Cut behind every line feed. -/
def splitInclusive : Text → List Text
  | [] => []
  | c :: cs =>
    if c = '\n' then [c] :: splitInclusive cs
    else
      match splitInclusive cs with
      | [] => [[c]]
      | line :: rest => (c :: line) :: rest

/-- Without the line feed and a carriage return in front of it. -/
def dropLineEnding (line : Text) : Text :=
  match line.reverse with
  | '\n' :: '\r' :: rest => rest.reverse
  | '\n' :: rest => rest.reverse
  | _ => line

def lines (text : Text) : List Text := (splitInclusive text).map dropLineEnding

def byteLen (text : Text) : Nat := (text.map Char.utf8Size).sum

end Texts

/-- What `open`, `metadata` and `read_to_end` give. The size is the one in the metadata,
or zero without metadata; bytes that are no UTF-8 are a failed reading. -/
inductive Reading where
  | missing
  | failed (message : String)
  | content (size : Nat) (text : Text)
  deriving DecidableEq, Repr

inductive LoadError where
  | io (notFound : Bool) (message : String)
  | tooLarge (bytes : Nat)
  | tooManyTokens (count : Nat)
  deriving DecidableEq, Repr

structure ParsedTokens where
  hashes : List Digest
  skippedLongLines : Nat
  deriving DecidableEq, Repr

section Parse

variable (sha256 : Text → Digest)

/-- The variables of the loop over the lines. -/
structure Parsing where
  hashes : List Digest
  skippedLongLines : Nat
  total : Nat

def Parsing.line (p : Parsing) (line : Text) : Parsing :=
  if maxTokenLineBytes < byteLen line then
    { p with skippedLongLines := p.skippedLongLines + 1 }
  else
    { p with
      total := p.total + 1
      hashes := if p.hashes.length < maxTokens then p.hashes ++ [sha256 line] else p.hashes }

def parseTokenLines (text : Text) : Except LoadError ParsedTokens :=
  let p := (((lines text).map trim).filter fun line => !line.isEmpty).foldl
    (Parsing.line sha256) ⟨[], 0, 0⟩
  if maxTokens < p.total then .error (.tooManyTokens p.total)
  else .ok ⟨p.hashes, p.skippedLongLines⟩

def readTokenFile : Reading → Except LoadError ParsedTokens
  | .missing => .error (.io true "")
  | .failed message => .error (.io false message)
  | .content size text =>
    if maxTokenFileBytes < size then .error (.tooLarge size)
    -- the read stops one byte behind the limit
    else if maxTokenFileBytes < min (byteLen text) (maxTokenFileBytes + 1) then
      .error (.tooLarge (min (byteLen text) (maxTokenFileBytes + 1)))
    else parseTokenLines sha256 text

end Parse

section Tokens

def isShort (line : Text) : Bool := byteLen line ≤ maxTokenLineBytes

/-- The tokens of a file: its trimmed lines that are neither empty nor too long. -/
def tokens (text : Text) : List Text :=
  ((lines text).map trim).filter fun line => !line.isEmpty && isShort line

variable (sha256 : Text → Digest)

/-- The loop keeps the digests of the first tokens and counts all of them. -/
theorem foldl_line (ls : List Text) : ls.foldl (Parsing.line sha256) ⟨[], 0, 0⟩ =
    ⟨((ls.filter isShort).map sha256).take maxTokens, (ls.filter fun line => !isShort line).length,
      (ls.filter isShort).length⟩ := by
  induction ls using List.reverseRecOn with
  | nil => rfl
  | append_singleton ls line ih =>
    rw [List.foldl_append, ih, List.foldl_cons, List.foldl_nil, Parsing.line]
    by_cases hshort : byteLen line ≤ maxTokenLineBytes
    · have hkept : isShort line = true := by simpa [isShort] using hshort
      rw [if_neg (by omega)]
      simp only [List.filter_append, List.filter_cons, List.filter_nil, hkept, if_true,
        Bool.not_true, Bool.false_eq_true, if_false, List.append_nil, List.length_append,
        List.map_append, List.map_cons, List.map_nil, List.length_take, List.length_map,
        List.length_cons, List.length_nil, List.take_append]
      by_cases hroom : (ls.filter isShort).length < maxTokens
      · rw [if_pos (by omega), List.take_of_length_le (by rw [List.length_map]; omega),
          List.take_of_length_le (by simp; omega)]
      · rw [if_neg (by omega), Nat.sub_eq_zero_of_le (by omega), List.take_zero, List.append_nil]
    · rw [if_pos (by omega)]
      simp [isShort, hshort]

/-- A file with too many tokens is refused as a whole; of any other one every token is loaded. -/
theorem parseTokenLines_eq (text : Text) :
    parseTokenLines sha256 text =
      if maxTokens < (tokens text).length then .error (.tooManyTokens (tokens text).length)
      else .ok ⟨(tokens text).map sha256, (((lines text).map trim).filter fun line =>
        !line.isEmpty && !isShort line).length⟩ := by
  have htokens : (((lines text).map trim).filter fun line => !line.isEmpty).filter isShort =
      tokens text := by
    rw [List.filter_filter, tokens]
    exact List.filter_congr fun line _ => Bool.and_comm _ _
  have hlong : ((((lines text).map trim).filter fun line => !line.isEmpty).filter
      fun line => !isShort line) = ((lines text).map trim).filter fun line =>
        !line.isEmpty && !isShort line := by
    rw [List.filter_filter]
    exact List.filter_congr fun line _ => Bool.and_comm _ _
  rw [parseTokenLines, foldl_line, htokens, hlong]
  by_cases hmany : maxTokens < (tokens text).length
  · rw [if_pos hmany, if_pos hmany]
  · rw [if_neg hmany, if_neg hmany, List.take_of_length_le (by rw [List.length_map]; omega)]

end Tokens

end OtelSqlite.Auth
