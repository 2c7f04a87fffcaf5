import Mathlib.Algebra.Order.Ring.Nat
import OtelSqlite.Lib.Disk

/-!
# The encrypted backup container

Constants of the container format, the frame nonces and big-endian lengths, the
cipher as the code uses it, and the engine's errors. AES-256-GCM itself is a
parameter: what decrypts is what was encrypted, with a tag of sixteen bytes.
-/

namespace OtelSqlite.Backup

open OtelSqlite.Lib OtelSqlite.Lib.Fallible

/-- A file, by its directory and its name there. -/
structure Path where
  dir : String
  name : String
  deriving DecidableEq, Repr

/-- A failure of SQLite is told apart from the others but not described further. -/
inductive BackupError where
  | sqlite
  | io (error : FileError)
  | integrity (path : Path) (detail : String)
  | foreignKeyViolations (path : Path) (violations : Nat)
  | notADatabase (path : Path)
  | destinationExists (path : Path)
  | destinationNotEmpty (path : Path)
  | invalidKeyLen (len : Nat)
  | corruptBackup (detail : String)
  | contentMismatch (path : Path) (detail : String)
  deriving DecidableEq, Repr

abbrev BackupIo := Fallible (Disk Path) BackupError

def io {α : Type} (m : Fallible (Disk Path) FileError α) : BackupIo α := m.mapError .io

theorem io_ok_iff {α : Type} {m : Fallible (Disk Path) FileError α} {a : α} {d d' : Disk Path} :
    (io m).run d = (.ok a, d') ↔ m.run d = (.ok a, d') :=
  run_mapError_ok_iff

/-- The bytes of `OTSQBAK1`. -/
def backupFileMagic : Bytes := [0x4F, 0x54, 0x53, 0x51, 0x42, 0x41, 0x4B, 0x31]

def backupFileVersionV1 : UInt8 := 1

def backupFileVersion : UInt8 := 2

def encryptionKeyLen : Nat := 32

def nonceLen : Nat := 12

def streamChunkBytes : Nat := 64 * 1024

def gcmTagLen : Nat := 16

def maxFrameCiphertext : Nat := streamChunkBytes + gcmTagLen

def u32Max : Nat := 2 ^ 32 - 1

abbrev Key := { bytes : Bytes // bytes.length = encryptionKeyLen }

abbrev Nonce := { bytes : Bytes // bytes.length = nonceLen }

/-- What the code relies on in the cipher. `encrypt` fails only on inputs too long for it. -/
structure Aead where
  encrypt : Key → Nonce → Bytes → Option Bytes
  decrypt : Key → Nonce → Bytes → Option Bytes
  decrypt_encrypt {key : Key} {nonce : Nonce} {plaintext ciphertext : Bytes} :
    encrypt key nonce plaintext = some ciphertext → decrypt key nonce ciphertext = some plaintext
  length_encrypt {key : Key} {nonce : Nonce} {plaintext ciphertext : Bytes} :
    encrypt key nonce plaintext = some ciphertext →
      ciphertext.length = plaintext.length + gcmTagLen

section Words

def toBeBytes (n : Nat) : Bytes :=
  [.ofNat (n / 2 ^ 24), .ofNat (n / 2 ^ 16), .ofNat (n / 2 ^ 8), .ofNat n]

def fromBeBytes (bytes : Bytes) : Nat := bytes.foldl (fun n b => n * 2 ^ 8 + b.toNat) 0

@[simp] theorem length_toBeBytes (n : Nat) : (toBeBytes n).length = 4 := rfl

theorem fromBeBytes_toBeBytes {n : Nat} (h : n ≤ u32Max) : fromBeBytes (toBeBytes n) = n := by
  simp only [u32Max] at h
  simp only [fromBeBytes, toBeBytes, List.foldl_cons, List.foldl_nil, UInt8.toNat_ofNat']
  omega

end Words

/-- The first eight bytes of the base nonce, then the frame's index. -/
def frameNonce (base : Nonce) (counter : Nat) : Nonce :=
  ⟨base.1.take (nonceLen - 4) ++ toBeBytes counter, by
    rw [List.length_append, List.length_take, base.2, length_toBeBytes]
    decide⟩

end OtelSqlite.Backup
