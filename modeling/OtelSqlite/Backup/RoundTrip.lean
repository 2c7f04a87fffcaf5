import OtelSqlite.Backup.Framing
import OtelSqlite.Backup.Decoding

/-!
# Round trip of an encrypted backup

The decoder undoes the frame writer, whatever pieces the reads have made of the
plaintext: an induction over the pieces, with the frame counter on both sides.
-/

namespace OtelSqlite.Backup

open OtelSqlite.Lib OtelSqlite.Lib.Fallible OtelSqlite.Lib.Disk

section Decode

variable {aead : Aead} {key : Key} {base : Nonce} {pieces : List Bytes}

theorem nextFrame_append {ciphertext : Bytes} (tail : Bytes) (hpos : 0 < ciphertext.length)
    (hmax : ciphertext.length ≤ maxFrameCiphertext) :
    nextFrame (frame ciphertext ++ tail) = .ok (some (ciphertext, tail)) := by
  have hword : ciphertext.length ≤ u32Max := hmax.trans (by decide)
  refine nextFrame_frame_iff.mpr ⟨?_, ?_, hpos, hmax, ?_⟩
  · simp [frame]
  · rw [frame, List.append_assoc, List.take_left' (length_toBeBytes _),
      fromBeBytes_toBeBytes hword]
  · rw [frame, List.append_assoc, List.drop_left' (length_toBeBytes _)]

/-- A piece as the reads make them. -/
def Piece (piece : Bytes) : Prop := 0 < piece.length ∧ piece.length ≤ streamChunkBytes

/-- The ciphertext of a piece passes the decoder's length check. -/
theorem Piece.ciphertext {piece ciphertext : Bytes} {nonce : Nonce} (h : Piece piece)
    (henc : aead.encrypt key nonce piece = some ciphertext) :
    0 < ciphertext.length ∧ ciphertext.length ≤ maxFrameCiphertext := by
  obtain ⟨hpos, hmax⟩ := h
  have hlen := aead.length_encrypt henc
  simp only [maxFrameCiphertext]
  omega

theorem sealFrames_cons_ok {counter : Nat} {piece frames : Bytes}
    (h : sealFrames aead key base counter (piece :: pieces) = some frames) :
    ∃ ciphertext tail, aead.encrypt key (frameNonce base counter) piece = some ciphertext ∧
      sealFrames aead key base (counter + 1) pieces = some tail ∧
      frames = frame ciphertext ++ tail := by
  simp only [sealFrames, Option.bind_eq_bind, Option.bind_eq_some_iff, Option.some.injEq] at h
  obtain ⟨ciphertext, henc, tail, htail, rfl⟩ := h
  exact ⟨ciphertext, tail, henc, htail, rfl⟩

theorem decodeFrames_sealFrames {counter : Nat} {frames : Bytes}
    (hpieces : ∀ piece ∈ pieces, Piece piece) (hcounter : counter + pieces.length ≤ u32Max)
    (h : sealFrames aead key base counter pieces = some frames) :
    decodeFrames aead key base counter frames = .ok pieces.flatten := by
  induction pieces generalizing counter frames with
  | nil =>
    cases h
    exact decodeFrames_end (nextFrame_end_iff.mpr rfl)
  | cons piece pieces ih =>
    obtain ⟨ciphertext, tail, henc, htail, rfl⟩ := sealFrames_cons_ok h
    rw [List.length_cons] at hcounter
    obtain ⟨hpos, hmax⟩ := (hpieces piece (by simp)).ciphertext henc
    have hmore := ih (fun p hp => hpieces p (by simp [hp])) (by omega) htail
    rw [decodeFrames_frame (nextFrame_append tail hpos hmax) (aead.decrypt_encrypt henc)
      (by omega), hmore]
    rfl

/-- Behind the header the decoder reads the base nonce back and goes through the frames. -/
theorem decode_header (rest : Bytes) :
    decode aead key (header base ++ rest) = decodeFrames aead key base 0 rest := by
  have hmagic : (header base ++ rest).take backupFileMagic.length = backupFileMagic := by
    rw [header, List.append_assoc, List.append_assoc, List.take_left]
  have hrest : (header base ++ rest).drop backupFileMagic.length =
      backupFileVersion :: (base.1 ++ rest) := by
    rw [header, List.append_assoc, List.append_assoc, List.drop_left]
    rfl
  have hbase : (base.1 ++ rest).take nonceLen = base.1 := List.take_left' base.2
  have hversion : backupFileVersion ≠ backupFileVersionV1 := by decide
  simp only [decode, hmagic, hrest, ne_eq, not_true_eq_false, or_self, if_false,
    List.take_succ_cons, List.take_zero, List.drop_succ_cons, List.drop_zero, hversion, if_true,
    decodeV2]
  rw [dif_pos (by rw [hbase, base.2]), List.drop_left' base.2]
  congr 1
  exact Subtype.ext hbase

end Decode

/-- The artifact of an encryption that ends well decodes to what was read. -/
theorem decode_encryptFile {aead : Aead} {base : Nonce} {plain out keyPath : Path}
    {d d' : Disk Path} (h : (encryptFile aead base plain out keyPath).run d = (.ok (), d')) :
    ∃ (key : Key) (artifact content : Bytes),
      d.files.lookup keyPath = some key.1 ∧ d.files.lookup plain = some content ∧
      d'.files.lookup out = some artifact ∧ decode aead key artifact = .ok content := by
  obtain ⟨key, content, frames, hto, hout⟩ := encryptFile_ok h
  refine ⟨key, header base ++ frames, content, hto.keyFile, hto.plainFile, hout, ?_⟩
  have hbound : 0 + (framing d.offers content).length ≤ u32Max := by
    rw [Nat.zero_add]
    exact hto.bound
  rw [decode_header, decodeFrames_sealFrames (fun _ => length_of_mem_framing) hbound hto.sealed,
    framing_flatten]

/-- An artifact decrypts to the plaintext it was made of, also an empty one: for every
way the reads of the encryption and of the decryption are chunked. -/
theorem encrypted_backup_round_trip (aead : Aead) (base : Nonce) (plain out keyPath : Path)
    (d d' : Disk Path) (h : (encryptFile aead base plain out keyPath).run d = (.ok (), d'))
    (encrypted keyPath' restored : Path) (e : Disk Path) (he : e.Reliable)
    (hartifact : e.files.lookup encrypted = d'.files.lookup out)
    (hkey : e.files.lookup keyPath' = d.files.lookup keyPath) (_hout : restored ≠ encrypted) :
    ∃ e', (decryptTo aead encrypted keyPath' restored).run e = (.ok (), e') ∧
      e'.files.lookup restored = d.files.lookup plain := by
  obtain ⟨key, artifact, content, hkeyFile, hcontent, hout, hdecode⟩ := decode_encryptFile h
  rw [hkeyFile] at hkey
  rw [hout] at hartifact
  obtain ⟨e', hrun⟩ := decryptTo_of_decode restored he hkey hartifact hdecode
  obtain ⟨key', artifact', plaintext, hkey', hartifact', hdecode', hwritten⟩ := decryptTo_ok hrun
  rw [hkey, Option.some.injEq] at hkey'
  rw [hartifact, Option.some.injEq] at hartifact'
  obtain rfl : key = key' := Subtype.ext hkey'
  subst hartifact'
  rw [hdecode, Except.ok.injEq] at hdecode'
  exact ⟨e', hrun, by rw [hwritten, hcontent, hdecode']⟩

section Example

/-- Sixteen bytes that depend on the nonce and the key. -/
def tag (key : Key) (nonce : Nonce) : Bytes := nonce.1 ++ key.1.take 4

theorem length_tag (key : Key) (nonce : Nonce) : (tag key nonce).length = gcmTagLen := by
  rw [tag, List.length_append, List.length_take, nonce.2, key.2]
  rfl

/-- A cipher that leaves the text alone and appends the tag. -/
def taggingAead : Aead where
  encrypt key nonce plaintext := some (plaintext ++ tag key nonce)
  decrypt key nonce ciphertext :=
    let len := ciphertext.length - gcmTagLen
    if ciphertext.drop len = tag key nonce then some (ciphertext.take len) else none
  decrypt_encrypt {key nonce plaintext ciphertext} h := by
    cases h
    have hlen : (plaintext ++ tag key nonce).length - gcmTagLen = plaintext.length := by
      rw [List.length_append, length_tag, Nat.add_sub_cancel]
    simp only [hlen, List.drop_left, if_true, List.take_left]
  length_encrypt {key nonce plaintext ciphertext} h := by
    cases h
    rw [List.length_append, length_tag]

def file (name : String) : Path := ⟨"backups", name⟩

def zeroNonce : Nonce := ⟨List.replicate nonceLen 0, rfl⟩

/-- A key, three bytes of plaintext and reads of at most two bytes. -/
def smallDisk : Disk Path where
  files := (∅ : AList fun _ : Path => Bytes).insert (file "key") (List.replicate 32 7)
    |>.insert (file "plain") [1, 2, 3]
  offers := fun _ => 2
  faults := fun _ => false
  stuck := fun _ => false

/-- The files after the encryption, read three bytes at a time. -/
def smallDiskEncrypted : Disk Path where
  files := ((encryptFile taggingAead zeroNonce (file "plain") (file "artifact")
    (file "key")).run smallDisk).2.files
  offers := fun _ => 3
  faults := fun _ => false
  stuck := fun _ => false

theorem encrypted_backup_round_trip_two_frames :
    smallDiskEncrypted.files.lookup (file "artifact") =
        some (header zeroNonce ++ frame ([1, 2] ++ List.replicate 12 0 ++ List.replicate 4 7) ++
          frame ([3] ++ List.replicate 11 0 ++ [1] ++ List.replicate 4 7)) ∧
      ∃ e', (decryptTo taggingAead (file "artifact") (file "key")
        (file "restored")).run smallDiskEncrypted =
          (.ok (), e') ∧
        e'.files.lookup (file "restored") = some [1, 2, 3] :=
  ⟨by decide +kernel,
    encrypted_backup_round_trip taggingAead zeroNonce (file "plain") (file "artifact")
      (file "key") smallDisk _
      (Prod.ext (by decide +kernel) rfl) (file "artifact") (file "key") (file "restored")
      smallDiskEncrypted (fun _ => rfl) rfl (by decide +kernel) (by decide)⟩

end Example

end OtelSqlite.Backup
