import OtelSqlite.Auth.Acceptance
import OtelSqlite.Lib.Threads

/-!
# The vault under many threads

Request threads run `intercept_bearer`, and a reloader runs the background loop, over one shared
vault. A move is one access to what they share: a hold of the cache lock, the exchange of the
claim, the read of the file. The clock goes on between moves and inside the hold that publishes.
A read may give anything; what it gave and when is kept until it is published. A thread may panic
at any place; a claim it holds is released then.

The flag that hands the file to the reloader is set before the vault is shared and never
changes again, so it is part of the configuration.
-/

namespace OtelSqlite.Auth

open OtelSqlite.Lib.Threads (System)

/-- Who called `refresh`. -/
inductive Caller where
  | request (token : Text)
  | reloader
  deriving DecidableEq, Repr

/-- What the threads share. `owned` says that an interceptor still has the vault. -/
structure VaultState where
  server : Server
  reloading : Bool
  clock : Nat
  owned : Bool

inductive Place where
  | absent
  -- `verify`: before the fast path, and after it found the set stale
  | arrived (token : Text)
  | stale (token : Text)
  -- `refresh`: before the exchange, after a lost one, and the holder of the claim
  | claiming (caller : Caller)
  | refused (caller : Caller)
  | reading (caller : Caller)
  | loaded (caller : Caller) (reading : Reading) (readAt : Nat)
  | published (caller : Caller) (hashes : List Digest)
  | answered (response : Except String Unit)
  -- the loop of the reloader
  | looping
  | sleeping (wake : Nat)
  | woken
  | ended
  deriving DecidableEq, Repr

/-- The holder of the single-flight claim. -/
def Place.holds : Place → Bool
  | .reading _ | .loaded _ _ _ | .published _ _ => true
  | _ => false

/-- A thread that has something left to do. -/
def Place.live : Place → Bool
  | .absent | .answered _ | .ended => false
  | _ => true

inductive Move where
  | arrive (header : Option (List UInt8))
  | run
  | read (reading : Reading)
  | publish (elapsed : Nat)
  | panic

inductive Surroundings where
  | tick (elapsed : Nat)
  | letGo

section Moves

variable (sha256 : Text → Digest) (config : VaultConfig)

/-- The answer to a request from a set of digests. -/
def judge (hashes : List Digest) (token : Text) : Except String Unit :=
  if hashes.any fun hash => ctEq hash (sha256 token) then .ok ()
  else .error "invalid bearer token"

/-- Where a thread goes on once `refresh` has returned. -/
def Caller.resume (hashes : List Digest) : Caller → Place
  | .request token => .answered (judge sha256 hashes token)
  | .reloader => .looping

/-- The hold of the write lock that publishes what was read; the staleness test and the update
read the clock. -/
def VaultState.publish (v : VaultState) (reading : Reading) (elapsed : Nat) : VaultState :=
  { v with
    server := v.server.step sha256 config (.reload ⟨reading, v.clock, v.clock + elapsed⟩)
    clock := v.clock + elapsed }

def vaultMove (v : VaultState) : Place → Move → Option (VaultState × Place)
  | .absent, .arrive header =>
    if v.owned then
      match bearerToken header with
      | .error message => some (v, .answered (.error message))
      | .ok token => some (v, .arrived token)
    else none
  | .arrived token, .run =>
    if token.isEmpty then some (v, .answered (.error "invalid bearer token"))
    else if isStale v.server.cached.loadedAt config.reloadInterval v.clock then some (v, .stale token)
    else some (v, .answered (judge sha256 v.server.cached.hashes token))
  | .stale token, .run =>
    if config.backgroundReload then some (v, .answered (judge sha256 v.server.cached.hashes token))
    else some (v, .claiming (.request token))
  | .claiming caller, .run =>
    if v.reloading then some (v, .refused caller)
    else some ({ v with reloading := true }, .reading caller)
  | .refused caller, .run => some (v, caller.resume sha256 v.server.cached.hashes)
  | .reading caller, .read reading => some (v, .loaded caller reading v.clock)
  | .loaded caller reading _, .publish elapsed =>
    let v := v.publish sha256 config reading elapsed
    some (v, .published caller v.server.cached.hashes)
  | .published caller hashes, .run =>
    some ({ v with reloading := false }, caller.resume sha256 hashes)
  | .looping, .run => some (v, .sleeping (v.clock + config.reloadInterval))
  | .sleeping wake, .run => if wake ≤ v.clock then some (v, .woken) else none
  | .woken, .run =>
    if v.owned && config.backgroundReload then some (v, .claiming .reloader) else some (v, .ended)
  | place, .panic =>
    if place.live then some ({ v with reloading := v.reloading && !place.holds }, .ended) else none
  | _, _ => none

def vaultChange (v : VaultState) : Surroundings → Option VaultState
  | .tick elapsed => some { v with clock := v.clock + elapsed }
  | .letGo => some { v with owned := false }

abbrev VaultSystem := System VaultState Place

abbrev VaultEvent := Lib.Threads.Event Move Surroundings

def VaultSystem.step (s : VaultSystem) (e : VaultEvent) : Option VaultSystem :=
  System.step (vaultMove sha256 config) vaultChange s e

def VaultSystem.run (s : VaultSystem) (events : List VaultEvent) : Option VaultSystem :=
  System.run (vaultMove sha256 config) vaultChange s events

/-- `BearerInterceptor::new` with a token file, at time `now`. If there is a background reloader
it is thread 0. -/
def newInterceptor (reading : Reading) (now : Nat) : Except AuthError VaultSystem :=
  (openVault sha256 reading now).map fun cached =>
    ⟨⟨⟨cached, [⟨now, reading.verdict⟩]⟩, false, now, true⟩,
      fun i => if i = 0 ∧ config.backgroundReload = true then .looping else .absent⟩

end Moves

section Inversion

variable {sha256 : Text → Digest} {config : VaultConfig} {v : VaultState} {place place' : Place}
  {v' : VaultState}

/-- What a move can do. -/
inductive Moves (sha256 : Text → Digest) (config : VaultConfig) (v : VaultState) :
    Place → Move → VaultState → Place → Prop where
  | malformed {header : Option (List UInt8)} {message : String}
      (hb : bearerToken header = .error message) :
      Moves sha256 config v .absent (.arrive header) v (.answered (.error message))
  | arrive {header : Option (List UInt8)} {token : Text} (hb : bearerToken header = .ok token) :
      Moves sha256 config v .absent (.arrive header) v (.arrived token)
  | blank {token : Text} (hempty : token = []) :
      Moves sha256 config v (.arrived token) .run v (.answered (.error "invalid bearer token"))
  | stale {token : Text} :
      Moves sha256 config v (.arrived token) .run v (.stale token)
  | fast {token : Text} :
      Moves sha256 config v (.arrived token) .run v
        (.answered (judge sha256 v.server.cached.hashes token))
  | snapshot {token : Text} (hback : config.backgroundReload = true) :
      Moves sha256 config v (.stale token) .run v
        (.answered (judge sha256 v.server.cached.hashes token))
  | inline {token : Text} (hback : config.backgroundReload = false) :
      Moves sha256 config v (.stale token) .run v (.claiming (.request token))
  | refuse {caller : Caller} (hclaim : v.reloading = true) :
      Moves sha256 config v (.claiming caller) .run v (.refused caller)
  | claim {caller : Caller} (hclaim : v.reloading = false) :
      Moves sha256 config v (.claiming caller) .run { v with reloading := true } (.reading caller)
  | current {caller : Caller} :
      Moves sha256 config v (.refused caller) .run v (caller.resume sha256 v.server.cached.hashes)
  | read {caller : Caller} {reading : Reading} :
      Moves sha256 config v (.reading caller) (.read reading) v (.loaded caller reading v.clock)
  | publish {caller : Caller} {reading : Reading} {readAt elapsed : Nat} :
      Moves sha256 config v (.loaded caller reading readAt) (.publish elapsed)
        (v.publish sha256 config reading elapsed)
        (.published caller (v.publish sha256 config reading elapsed).server.cached.hashes)
  | release {caller : Caller} {hashes : List Digest} :
      Moves sha256 config v (.published caller hashes) .run { v with reloading := false }
        (caller.resume sha256 hashes)
  | sleep : Moves sha256 config v .looping .run v (.sleeping (v.clock + config.reloadInterval))
  | wake {wake : Nat} (hwake : wake ≤ v.clock) :
      Moves sha256 config v (.sleeping wake) .run v .woken
  | again (hback : config.backgroundReload = true) :
      Moves sha256 config v .woken .run v (.claiming .reloader)
  | exit : Moves sha256 config v .woken .run v .ended
  | panic {place : Place} (hlive : place.live = true) :
      Moves sha256 config v place .panic { v with reloading := v.reloading && !place.holds } .ended

theorem newInterceptor_ok {reading : Reading} {now : Nat} {s : VaultSystem}
    (h : newInterceptor sha256 config reading now = .ok s) :
    ∃ cached, openVault sha256 reading now = .ok cached ∧
      s = ⟨⟨⟨cached, [⟨now, reading.verdict⟩]⟩, false, now, true⟩,
        fun i => if i = 0 ∧ config.backgroundReload = true then .looping else .absent⟩ := by
  rw [newInterceptor] at h
  cases hopen : openVault sha256 reading now with
  | error e =>
    rw [hopen] at h
    cases h
  | ok cached =>
    rw [hopen] at h
    cases h
    exact ⟨cached, rfl, rfl⟩

theorem panic_inv (h : vaultMove sha256 config v place .panic = some (v', place')) :
    Moves sha256 config v place .panic v' place' := by
  have hpanic : vaultMove sha256 config v place .panic =
      if place.live then some ({ v with reloading := v.reloading && !place.holds }, .ended)
      else none := by
    cases place <;> rfl
  rw [hpanic] at h
  split at h <;> cases h
  exact .panic ‹_›

theorem run_inv (h : vaultMove sha256 config v place .run = some (v', place')) :
    Moves sha256 config v place .run v' place' := by
  cases place with
  | arrived token =>
    rw [vaultMove] at h
    split at h
    · next hempty =>
      cases h
      exact .blank (List.isEmpty_iff.mp hempty)
    · split at h <;> cases h
      · exact .stale
      · exact .fast
  | stale token =>
    rw [vaultMove] at h
    split at h <;> cases h
    · exact .snapshot ‹_›
    · exact .inline (Bool.eq_false_iff.mpr ‹_›)
  | claiming caller =>
    rw [vaultMove] at h
    split at h <;> cases h
    · exact .refuse ‹_›
    · exact .claim (Bool.eq_false_iff.mpr ‹_›)
  | refused caller =>
    cases h
    exact .current
  | published caller hashes =>
    cases h
    exact .release
  | looping =>
    cases h
    exact .sleep
  | sleeping wake =>
    rw [vaultMove] at h
    split at h <;> cases h
    exact .wake ‹_›
  | woken =>
    rw [vaultMove] at h
    split at h <;> cases h
    · next hgoes => exact .again (Bool.and_eq_true_iff.mp hgoes).2
    · exact .exit
  | _ => cases h

theorem vaultMove_inv {m : Move} (h : vaultMove sha256 config v place m = some (v', place')) :
    Moves sha256 config v place m v' place' := by
  cases m with
  | arrive header =>
    cases place with
    | absent =>
      rw [vaultMove] at h
      split at h
      · split at h <;> cases h
        · exact .malformed ‹_›
        · exact .arrive ‹_›
      · cases h
    | _ => cases h
  | run => exact run_inv h
  | read reading =>
    cases place with
    | reading caller =>
      cases h
      exact .read
    | _ => cases h
  | publish elapsed =>
    cases place with
    | loaded caller reading readAt =>
      cases h
      exact .publish
    | _ => cases h
  | panic => exact panic_inv h

end Inversion

end OtelSqlite.Auth
