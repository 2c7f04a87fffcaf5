import OtelSqlite.Auth.TokenFile

/-!
# The token vault and the bearer check

The cached token set with its reload, the check of a presented token against it,
and the header parser in front of it. Times are readings of the monotonic clock; a
reload carries the readings it makes and what it read, outside the lock, from the
file. An inline reload that finds another one under way does not take place.
-/

namespace OtelSqlite.Auth

structure VaultConfig where
  reloadInterval : Nat
  maxStaleAge : Nat
  backgroundReload : Bool

structure CachedTokens where
  loadedAt : Option Nat
  hashes : List Digest
  unhealthySince : Option Nat
  consecutiveEmpty : Nat
  deriving DecidableEq, Repr

inductive AuthError where
  | read (notFound : Bool) (message : String)
  | noTokens
  | tooLarge (bytes : Nat)
  | tooManyTokens (count : Nat)
  deriving DecidableEq, Repr

inductive ReloadOutcome where
  | loaded (parsed : ParsedTokens)
  | revoked
  | unreadable (message : String)
  | invalid (message : String)
  deriving DecidableEq, Repr

inductive LogEvent where
  | none
  | emptyKept
  | emptyRevoked
  | revoked
  | skippedLong (count : Nat)
  | unreadable (message : String)
  | invalid (message : String)
  | staleExpired (message : String)
  deriving DecidableEq, Repr

/-- One call of `refresh`: what it read, and its readings of the clock for the staleness
test and for the update. -/
structure Attempt where
  reading : Reading
  checked : Nat
  now : Nat

section Reload

variable (sha256 : Text → Digest) (config : VaultConfig)

/-- `TokenFileVault::open`, at time `now`. -/
def openVault (reading : Reading) (now : Nat) : Except AuthError CachedTokens :=
  match readTokenFile sha256 reading with
  | .ok parsed =>
    if parsed.hashes.isEmpty then .error .noTokens
    else .ok ⟨some now, parsed.hashes, none, 0⟩
  | .error (.io notFound message) => .error (.read notFound message)
  | .error (.tooLarge bytes) => .error (.tooLarge bytes)
  | .error (.tooManyTokens count) => .error (.tooManyTokens count)

def ReloadOutcome.of (reading : Reading) : ReloadOutcome :=
  match readTokenFile sha256 reading with
  | .ok parsed => .loaded parsed
  | .error (.io true _) => .revoked
  | .error (.io false message) => .unreadable message
  | .error (.tooLarge bytes) =>
    .invalid s!"token file is {bytes} bytes, limit is {maxTokenFileBytes}"
  | .error (.tooManyTokens count) =>
    .invalid s!"token file holds {count} tokens, limit is {maxTokens}"

def isStale (loadedAt : Option Nat) (reloadInterval now : Nat) : Bool :=
  loadedAt.all fun loadedAt => reloadInterval ≤ now - loadedAt

/-- An outcome that leaves the last known set in place for the grace period. -/
def unhealthy (now : Nat) (message : String) (event : String → LogEvent) (c : CachedTokens) :
    CachedTokens × LogEvent :=
  let since := c.unhealthySince.getD now
  let c := { c with unhealthySince := some since }
  if config.maxStaleAge ≤ now - since then ({ c with hashes := [] }, .staleExpired message)
  else (c, event message)

/-- The update under the write lock. The counter is a `u32`. -/
def publish (outcome : ReloadOutcome) (now : Nat) (c : CachedTokens) : CachedTokens × LogEvent :=
  match outcome with
  | .loaded parsed =>
    if parsed.hashes.isEmpty then
      let c := { c with consecutiveEmpty := (c.consecutiveEmpty + 1) % 2 ^ 32 }
      if 2 ≤ c.consecutiveEmpty then
        ({ c with hashes := [], unhealthySince := none }, .emptyRevoked)
      else (c, .emptyKept)
    else
      ({ c with hashes := parsed.hashes, unhealthySince := none, consecutiveEmpty := 0 },
        if 0 < parsed.skippedLongLines then .skippedLong parsed.skippedLongLines else .none)
  | .revoked =>
    ({ c with hashes := [], unhealthySince := none, consecutiveEmpty := 0 },
      if c.hashes.isEmpty then .none else .revoked)
  | .unreadable message => unhealthy config now message .unreadable c
  | .invalid message => unhealthy config now message .invalid c

/-- A reload that won its claim: it publishes if the set is still stale. -/
def refresh (attempt : Attempt) (c : CachedTokens) : CachedTokens × LogEvent :=
  if isStale c.loadedAt config.reloadInterval attempt.checked then
    let (c, event) := publish config (.of sha256 attempt.reading) attempt.now c
    ({ c with loadedAt := some attempt.now }, event)
  else (c, .none)

end Reload

section Verify

variable (sha256 : Text → Digest) (config : VaultConfig)

/-- All bytes are looked at, wherever the digests differ first. -/
def ctEq (a b : Digest) : Bool :=
  (a.1.zip b.1).foldl (fun diff p => diff ||| (p.1 ^^^ p.2)) 0 == (0 : UInt8)

def known (c : CachedTokens) (token : Text) : Bool :=
  c.hashes.any fun hash => ctEq hash (sha256 token)

/-- The answer and the state after it; `asked` is the clock of the staleness test and
`attempt` the reload that the call makes if it comes to that. -/
def verify (c : CachedTokens) (token : Text) (asked : Nat) (attempt : Option Attempt) :
    Bool × CachedTokens :=
  if token.isEmpty then (false, c)
  else if !isStale c.loadedAt config.reloadInterval asked then (known sha256 c token, c)
  else if config.backgroundReload then (known sha256 c token, c)
  else
    match attempt with
    | none => (known sha256 c token, c)
    | some attempt =>
      let c := (refresh sha256 config attempt c).1
      (known sha256 c token, c)

end Verify

section Header

/-- The bytes of a header value that `to_str` takes. -/
def visible (b : UInt8) : Bool := (32 ≤ b && b < 127) || b == 9

def toStr (value : List UInt8) : Option Text :=
  if value.all visible then some (value.map fun b => Char.ofNat b.toNat) else none

/-- At the first blank. -/
def splitOnce : Text → Option (Text × Text)
  | [] => none
  | c :: cs => if c = ' ' then some ([], cs) else (splitOnce cs).map fun p => (c :: p.1, p.2)

def bearerToken (header : Option (List UInt8)) : Except String Text :=
  match header with
  | none => .error "missing authorization header"
  | some value =>
    match toStr value with
    | none => .error "authorization header is not ASCII"
    | some value =>
      match splitOnce value with
      | none => .error "malformed authorization header"
      | some (scheme, token) =>
        let token := trim token
        if scheme.map Char.toLower ≠ "bearer".toList ∨ token.isEmpty then
          .error "expected `Bearer <token>`"
        else .ok token

variable (sha256 : Text → Digest) (config : VaultConfig)

def interceptBearer (c : CachedTokens) (header : Option (List UInt8)) (asked : Nat)
    (attempt : Option Attempt) : Except String Unit × CachedTokens :=
  match bearerToken header with
  | .error message => (.error message, c)
  | .ok token =>
    let (accepted, c) := verify sha256 config c token asked attempt
    if accepted then (.ok (), c) else (.error "invalid bearer token", c)

end Header

section Comparison

theorem foldl_or_eq_zero (ps : List (UInt8 × UInt8)) (diff : UInt8) :
    ps.foldl (fun diff p => diff ||| (p.1 ^^^ p.2)) diff = 0 ↔
      diff = 0 ∧ ∀ p ∈ ps, p.1 = p.2 := by
  induction ps generalizing diff with
  | nil => simp
  | cons p ps ih =>
    rw [List.foldl_cons, ih, UInt8.or_eq_zero_iff, UInt8.xor_eq_zero_iff, List.forall_mem_cons,
      and_assoc]

theorem forall_zip_iff {a b : List UInt8} (hlen : a.length = b.length) :
    (∀ p ∈ a.zip b, p.1 = p.2) ↔ a = b := by
  induction a generalizing b with
  | nil => simp [List.length_eq_zero_iff.mp hlen.symm]
  | cons x a ih =>
    cases b with
    | nil => cases hlen
    | cons y b =>
      rw [List.zip_cons_cons, List.forall_mem_cons, ih (Nat.succ.inj hlen), List.cons.injEq]

theorem ctEq_iff {a b : Digest} : ctEq a b = true ↔ a = b := by
  rw [ctEq, beq_iff_eq, foldl_or_eq_zero, forall_zip_iff (a.2.trans b.2.symm), Subtype.ext_iff]
  exact and_iff_right rfl

theorem known_iff {sha256 : Text → Digest} {c : CachedTokens} {token : Text} :
    known sha256 c token = true ↔ sha256 token ∈ c.hashes := by
  simp [known, ctEq_iff]

end Comparison

section Parser

theorem splitOnce_eq_some_iff {text scheme rest : Text} :
    splitOnce text = some (scheme, rest) ↔ text = scheme ++ ' ' :: rest ∧ ' ' ∉ scheme := by
  induction text generalizing scheme with
  | nil => simp [splitOnce]
  | cons c cs ih =>
    by_cases hc : c = ' '
    · subst hc
      cases scheme with
      | nil => simp [splitOnce]
      | cons c' scheme =>
        simp only [splitOnce, if_true, Option.some.injEq, Prod.mk.injEq, List.cons_append,
          List.cons.injEq, List.mem_cons, not_or]
        constructor
        · rintro ⟨h, -⟩
          cases h
        · rintro ⟨⟨hc, -⟩, hne, -⟩
          exact absurd hc hne
    · cases scheme with
      | nil => simp [splitOnce, hc]
      | cons c' scheme =>
        rw [splitOnce, if_neg hc, Option.map_eq_some_iff]
        constructor
        · rintro ⟨⟨scheme', rest'⟩, hsplit, heq⟩
          cases heq
          obtain ⟨rfl, hmem⟩ := ih.mp hsplit
          exact ⟨rfl, by simpa [eq_comm (a := ' '), hc] using hmem⟩
        · rintro ⟨heq, hmem⟩
          rw [List.cons_append, List.cons.injEq] at heq
          obtain ⟨rfl, rfl⟩ := heq
          exact ⟨(scheme, rest), ih.mpr ⟨rfl, fun h => hmem (List.mem_cons_of_mem _ h)⟩, rfl⟩

/-- The header carries a token in the scheme bearer. -/
def Presents (header : Option (List UInt8)) (token : Text) : Prop :=
  ∃ value scheme rest, header = some value ∧ toStr value = some (scheme ++ ' ' :: rest) ∧
    ' ' ∉ scheme ∧ scheme.map Char.toLower = "bearer".toList ∧ token = trim rest ∧ token ≠ []

theorem bearerToken_ok_iff {header : Option (List UInt8)} {token : Text} :
    bearerToken header = .ok token ↔ Presents header token := by
  constructor
  · intro h
    cases header with
    | none => cases h
    | some value =>
      cases htext : toStr value with
      | none => simp [bearerToken, htext] at h
      | some text =>
        cases hsplit : splitOnce text with
        | none => simp [bearerToken, htext, hsplit] at h
        | some parts =>
          obtain ⟨scheme, rest⟩ := parts
          obtain ⟨rfl, hblank⟩ := splitOnce_eq_some_iff.mp hsplit
          simp only [bearerToken, htext, hsplit] at h
          split_ifs at h with hbad
          cases h
          rw [not_or, not_not, List.isEmpty_iff] at hbad
          exact ⟨value, scheme, rest, rfl, htext, hblank, hbad.1, rfl, hbad.2⟩
  · rintro ⟨value, scheme, rest, rfl, htext, hblank, hscheme, rfl, hne⟩
    have hsplit : splitOnce (scheme ++ ' ' :: rest) = some (scheme, rest) :=
      splitOnce_eq_some_iff.mpr ⟨rfl, hblank⟩
    simp only [bearerToken, htext, hsplit]
    rw [if_neg]
    rw [not_or, not_not, List.isEmpty_iff]
    exact ⟨hscheme, hne⟩

end Parser

end OtelSqlite.Auth
