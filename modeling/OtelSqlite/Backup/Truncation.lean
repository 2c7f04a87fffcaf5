import OtelSqlite.Backup.RoundTrip

/-!
# Truncated artifacts

A cut in the header, in a length prefix or in a payload is noticed. A cut at a frame
boundary is not: nothing in the stream says how many frames there are, and the end of
the file is where the decoder expects either a frame or the end.
-/

namespace OtelSqlite.Backup

open OtelSqlite.Lib OtelSqlite.Lib.Fallible OtelSqlite.Lib.Disk

section Cut

variable {aead : Aead} {key : Key} {base : Nonce} {n : Nat} {pieces : List Bytes}

/-- The bytes that the frames of the pieces take. -/
def framesLength (pieces : List Bytes) : Nat :=
  (pieces.map fun piece => 4 + (piece.length + gcmTagLen)).sum

/-- A frame that is begun but not complete is an error. -/
theorem nextFrame_take {ciphertext : Bytes} (hpos : 0 < n) (hn : n < (frame ciphertext).length)
    (hword : ciphertext.length ≤ u32Max) :
    ∃ e, nextFrame ((frame ciphertext).take n) = .error e := by
  have hlen : ((frame ciphertext).take n).length = n := by
    rw [List.length_take]
    omega
  cases hnext : nextFrame ((frame ciphertext).take n) with
  | error e => exact ⟨e, rfl⟩
  | ok next =>
    cases next with
    | none =>
      rw [nextFrame_end_iff] at hnext
      rw [hnext] at hlen
      simp at hlen
      omega
    | some pair =>
      obtain ⟨hfour, hwordEq, -, -, hdrop⟩ := nextFrame_frame_iff.mp hnext
      rw [hlen] at hfour
      -- the length prefix is complete, so it asks for more than there is
      have htake : ((frame ciphertext).take n).take 4 = toBeBytes ciphertext.length := by
        rw [List.take_take, Nat.min_eq_left hfour, frame, List.take_left' (length_toBeBytes _)]
      rw [htake, fromBeBytes_toBeBytes hword] at hwordEq
      have := congrArg List.length hdrop
      rw [List.length_drop, hlen, List.length_append] at this
      rw [frame, List.length_append, length_toBeBytes] at hn
      omega

/-- The decoder accepts a cut frame stream iff the cut is between two frames. -/
theorem decodeFrames_take_iff {counter : Nat} {frames : Bytes}
    (hpieces : ∀ piece ∈ pieces, Piece piece) (hcounter : counter + pieces.length ≤ u32Max)
    (h : sealFrames aead key base counter pieces = some frames) (hn : n ≤ frames.length) :
    (∃ plaintext, decodeFrames aead key base counter (frames.take n) = .ok plaintext) ↔
      ∃ k, n = framesLength (pieces.take k) := by
  induction pieces generalizing counter frames n with
  | nil =>
    cases h
    obtain rfl : n = 0 := by simpa using hn
    constructor
    · exact fun _ => ⟨0, rfl⟩
    · exact fun _ => ⟨[], decodeFrames_end (nextFrame_end_iff.mpr rfl)⟩
  | cons piece pieces ih =>
    obtain ⟨ciphertext, tail, henc, htail, rfl⟩ := sealFrames_cons_ok h
    rw [List.length_cons] at hcounter
    obtain ⟨hpos, hmax⟩ := (hpieces piece (by simp)).ciphertext henc
    have hframe : (frame ciphertext).length = 4 + (piece.length + gcmTagLen) := by
      rw [frame, List.length_append, length_toBeBytes, aead.length_encrypt henc]
    rcases Nat.eq_zero_or_pos n with rfl | hnpos
    · constructor
      · exact fun _ => ⟨0, rfl⟩
      · exact fun _ => ⟨[], decodeFrames_end (nextFrame_end_iff.mpr rfl)⟩
    rcases Nat.lt_or_ge n (frame ciphertext).length with hlt | hge
    · -- inside the first frame
      obtain ⟨e, he⟩ := nextFrame_take hnpos hlt (hmax.trans (by decide))
      rw [List.take_append_of_le_length hlt.le]
      constructor
      · rintro ⟨plaintext, hplain⟩
        rw [decodeFrames_error he] at hplain
        cases hplain
      · rintro ⟨k, rfl⟩
        cases k with
        | zero => exact absurd hnpos (lt_irrefl 0)
        | succ k =>
          simp only [List.take_succ_cons, framesLength, List.map_cons, List.sum_cons] at hlt
          omega
    · -- behind it
      have hcut : (frame ciphertext ++ tail).take n =
          frame ciphertext ++ tail.take (n - (frame ciphertext).length) := by
        rw [List.take_append, List.take_of_length_le hge]
      rw [List.length_append] at hn
      have hrec := ih (fun p hp => hpieces p (by simp [hp])) (by omega) htail
        (n := n - (frame ciphertext).length) (by omega)
      rw [hcut, decodeFrames_frame (nextFrame_append _ hpos hmax) (aead.decrypt_encrypt henc)
        (by omega)]
      constructor
      · rintro ⟨plaintext, hplain⟩
        cases hmore : decodeFrames aead key base (counter + 1)
            (tail.take (n - (frame ciphertext).length)) with
        | error e =>
          rw [hmore] at hplain
          cases hplain
        | ok more =>
          obtain ⟨k, hk⟩ := hrec.mp ⟨more, hmore⟩
          refine ⟨k + 1, ?_⟩
          simp only [List.take_succ_cons, framesLength, List.map_cons, List.sum_cons] at hk ⊢
          omega
      · rintro ⟨k, hk⟩
        cases k with
        | zero =>
          simp [framesLength] at hk
          omega
        | succ k =>
          obtain ⟨more, hmore⟩ := hrec.mpr ⟨k, by
            simp only [List.take_succ_cons, framesLength, List.map_cons, List.sum_cons] at hk ⊢
            omega⟩
          exact ⟨_, by rw [hmore]; rfl⟩

/-- A cut in the header is an error, whichever of its three parts it falls into. -/
theorem decode_header_take (aead : Aead) (key : Key) (hn : n < (header base).length) :
    ∃ e, decode aead key ((header base).take n) = .error e := by
  rw [length_header] at hn
  have hmagicLen : backupFileMagic.length = 8 := rfl
  rcases Nat.lt_or_ge n 8 with hmagic | hmagic
  · refine ⟨_, if_pos (.inl ?_)⟩
    rw [List.length_take, List.length_take]
    omega
  · have hsplit : (header base).take n =
        backupFileMagic ++ (backupFileVersion :: base.1).take (n - 8) := by
      rw [header, List.append_assoc, List.take_append, List.take_of_length_le hmagic]
      rfl
    have htake : ((header base).take n).take backupFileMagic.length = backupFileMagic := by
      rw [hsplit, List.take_left]
    have hdrop : ((header base).take n).drop backupFileMagic.length =
        (backupFileVersion :: base.1).take (n - 8) := by
      rw [hsplit, List.drop_left]
    simp only [decode, htake, hdrop, ne_eq, not_true_eq_false, or_self, if_false]
    obtain rfl | ⟨m, rfl⟩ : n = 8 ∨ ∃ m, n = 9 + m := by
      rcases Nat.eq_or_lt_of_le hmagic with h | h
      · exact .inl h.symm
      · exact .inr ⟨n - 9, by omega⟩
    · exact ⟨_, rfl⟩
    · have hversion : backupFileVersion ≠ backupFileVersionV1 := by decide
      have hm : 9 + m - 8 = m + 1 := by omega
      simp only [hm, List.take_succ_cons, List.take_zero, List.drop_succ_cons, List.drop_zero,
        hversion, if_false, if_true, decodeV2]
      have hnonce : nonceLen = 12 := rfl
      refine ⟨_, dif_neg ?_⟩
      rw [List.length_take, List.length_take]
      omega

/-- The decoder accepts a cut artifact iff the cut is at a frame boundary. -/
theorem decode_take_iff {frames : Bytes} (hpieces : ∀ piece ∈ pieces, Piece piece)
    (hcounter : pieces.length ≤ u32Max) (h : sealFrames aead key base 0 pieces = some frames)
    (hn : n ≤ (header base ++ frames).length) :
    (∃ plaintext, decode aead key ((header base ++ frames).take n) = .ok plaintext) ↔
      ∃ k, n = (header base).length + framesLength (pieces.take k) := by
  rw [List.length_append] at hn
  rcases Nat.lt_or_ge n (header base).length with hlt | hge
  · obtain ⟨e, he⟩ := decode_header_take aead key hlt
    rw [List.take_append_of_le_length hlt.le, he]
    constructor
    · rintro ⟨plaintext, hplain⟩
      cases hplain
    · rintro ⟨k, rfl⟩
      omega
  · rw [List.take_append, List.take_of_length_le hge, decode_header,
      decodeFrames_take_iff hpieces (by omega) h (by omega)]
    refine exists_congr fun k => ?_
    omega

end Cut

/-- No decryption with the key accepts these bytes, whatever the disk does. -/
def Rejects (aead : Aead) (key : Key) (bytes : Bytes) : Prop :=
  ∀ (e : Disk Path) (encrypted keyPath out : Path), out ≠ encrypted →
    e.files.lookup encrypted = some bytes → e.files.lookup keyPath = some key.1 →
    ∃ error e', (decryptTo aead encrypted keyPath out).run e = (.error error, e')

/-- A file with these bytes next to a file with the key, and no call that fails. -/
def diskWith (key : Key) (bytes : Bytes) : Disk Path where
  files := (∅ : AList fun _ : Path => Bytes).insert (file "key") key.1
    |>.insert (file "artifact") bytes
  offers := fun _ => 1
  faults := fun _ => false
  stuck := fun _ => false

theorem rejects_iff {aead : Aead} {key : Key} {bytes : Bytes} :
    Rejects aead key bytes ↔ ¬∃ plaintext, decode aead key bytes = .ok plaintext := by
  constructor
  · rintro h ⟨plaintext, hplain⟩
    have hkey : (diskWith key bytes).files.lookup (file "key") = some key.1 :=
      (AList.lookup_insert_ne (by decide)).trans (AList.lookup_insert _)
    have hbytes : (diskWith key bytes).files.lookup (file "artifact") = some bytes :=
      AList.lookup_insert _
    obtain ⟨error, e', herror⟩ :=
      h _ (file "artifact") (file "key") (file "out") (by decide) hbytes hkey
    obtain ⟨e'', hok⟩ := decryptTo_of_decode (file "out") (fun _ => rfl) hkey hbytes hplain
    rw [hok] at herror
    cases herror
  · intro h e encrypted keyPath out _ hbytes hkey
    obtain ⟨_, e', hok⟩ | herror := run_cases (decryptTo aead encrypted keyPath out) e
    · obtain ⟨key', bytes', plaintext, hkey', hbytes', hplain, -⟩ := decryptTo_ok hok
      rw [hkey, Option.some.injEq] at hkey'
      rw [hbytes, Option.some.injEq] at hbytes'
      obtain rfl : key = key' := Subtype.ext hkey'
      subst hbytes'
      exact absurd ⟨plaintext, hplain⟩ h
    · exact herror

/-- A proper prefix of an artifact is rejected iff it does not end at a frame boundary:
behind the header or behind one of the frames, whose lengths the reads have set. -/
theorem truncated_backup_rejected_iff (aead : Aead) (base : Nonce) (plain out keyPath : Path)
    (d d' : Disk Path) (h : (encryptFile aead base plain out keyPath).run d = (.ok (), d'))
    (key : Key) (hkey : d.files.lookup keyPath = some key.1)
    (content : Bytes) (hcontent : d.files.lookup plain = some content)
    (artifact : Bytes) (hartifact : d'.files.lookup out = some artifact)
    (n : Nat) (hn : n < artifact.length) :
    Rejects aead key (artifact.take n) ↔
      ∀ k, n ≠ (header base).length + framesLength ((framing d.offers content).take k) := by
  obtain ⟨key', content', frames, ⟨hkey', hcontent', -, hseal, hbound, -⟩, hout⟩ :=
    encryptFile_ok h
  rw [hkey, Option.some.injEq] at hkey'
  rw [hcontent, Option.some.injEq] at hcontent'
  rw [hartifact, Option.some.injEq] at hout
  obtain rfl : key = key' := Subtype.ext hkey'
  subst hcontent' hout
  rw [rejects_iff, decode_take_iff (fun _ => length_of_mem_framing) hbound hseal hn.le]
  simp only [not_exists, ne_eq]

section Example

def sevenKey : Key := ⟨List.replicate encryptionKeyLen 7, rfl⟩

theorem framing_smallDisk : framing smallDisk.offers [1, 2, 3] = [[1, 2], [3]] := by
  decide +kernel

/-- The second frame of the small artifact ends at byte 64, the first one at byte 43. -/
theorem truncated_backup_rejected_iff_sixty :
    ∃ d' artifact,
      (encryptFile taggingAead zeroNonce (file "plain") (file "artifact")
        (file "key")).run smallDisk = (.ok (), d') ∧
        d'.files.lookup (file "artifact") = some artifact ∧ artifact.length = 64 ∧
        Rejects taggingAead sevenKey (artifact.take 60) := by
  refine ⟨_, header zeroNonce ++ frame ([1, 2] ++ tag sevenKey (frameNonce zeroNonce 0)) ++
    frame ([3] ++ tag sevenKey (frameNonce zeroNonce 1)),
    Prod.ext (by decide +kernel) rfl, by decide +kernel, by decide +kernel, ?_⟩
  refine (truncated_backup_rejected_iff taggingAead zeroNonce (file "plain") (file "artifact")
    (file "key") smallDisk _ (Prod.ext (by decide +kernel) rfl) sevenKey (by decide +kernel) [1, 2, 3] (by decide +kernel)
    _ (by decide +kernel) 60 (by decide +kernel)).mpr fun k => ?_
  rw [framing_smallDisk, length_header]
  match k with
  | 0 => decide
  | 1 => decide
  | k + 2 => simp [framesLength, gcmTagLen]

/-- The cipher in a world where only these texts are ever encrypted. -/
def Aead.restrict (aead : Aead) (texts : List (Nonce × Bytes)) : Aead where
  encrypt key nonce plaintext :=
    if (nonce, plaintext) ∈ texts then aead.encrypt key nonce plaintext else none
  decrypt key nonce ciphertext :=
    (aead.decrypt key nonce ciphertext).filter fun plaintext =>
      (nonce, plaintext) ∈ texts ∧ aead.encrypt key nonce plaintext = some ciphertext
  decrypt_encrypt {key nonce plaintext ciphertext} h := by
    split_ifs at h with hmem
    rw [aead.decrypt_encrypt h, Option.filter_some, if_pos (by simp [hmem, h])]
  length_encrypt {key nonce plaintext ciphertext} h := by
    split_ifs at h with hmem
    exact aead.length_encrypt h

/-- What decrypts was encrypted before. -/
theorem Aead.restrict_ideal {aead : Aead} {texts : List (Nonce × Bytes)} {key : Key}
    {nonce : Nonce} {ciphertext plaintext : Bytes}
    (h : (aead.restrict texts).decrypt key nonce ciphertext = some plaintext) :
    (nonce, plaintext) ∈ texts ∧ aead.encrypt key nonce plaintext = some ciphertext := by
  have h' : (aead.decrypt key nonce ciphertext).filter (fun plaintext =>
      (nonce, plaintext) ∈ texts ∧ aead.encrypt key nonce plaintext = some ciphertext) =
        some plaintext := h
  rw [Option.filter_eq_some_iff] at h'
  simpa using h'.2

/-- A cipher that decrypts the two frames of the small artifact and nothing else. -/
def twoFrameAead : Aead :=
  taggingAead.restrict [(frameNonce zeroNonce 0, [1, 2]), (frameNonce zeroNonce 1, [3])]

/-- Cut behind its first frame, an artifact of two frames is accepted. -/
theorem truncated_backup_accepted :
    (∀ nonce ciphertext plaintext,
        twoFrameAead.decrypt sevenKey nonce ciphertext = some plaintext →
        (nonce, ciphertext) ∈
          [(frameNonce zeroNonce 0, [1, 2] ++ tag sevenKey (frameNonce zeroNonce 0)),
            (frameNonce zeroNonce 1, [3] ++ tag sevenKey (frameNonce zeroNonce 1))]) ∧
      ∃ d' artifact,
        (encryptFile twoFrameAead zeroNonce (file "plain") (file "artifact")
          (file "key")).run smallDisk = (.ok (), d') ∧
          d'.files.lookup (file "artifact") = some artifact ∧ 43 < artifact.length ∧
          ¬Rejects twoFrameAead sevenKey (artifact.take 43) := by
  refine ⟨?_, _, header zeroNonce ++ frame ([1, 2] ++ tag sevenKey (frameNonce zeroNonce 0)) ++
    frame ([3] ++ tag sevenKey (frameNonce zeroNonce 1)),
    Prod.ext (by decide +kernel) rfl, by decide +kernel, by decide +kernel, ?_⟩
  · intro nonce ciphertext plaintext h
    obtain ⟨hmem, henc⟩ := Aead.restrict_ideal h
    rw [List.mem_pair] at hmem ⊢
    cases henc
    rcases hmem with hmem | hmem <;> cases hmem <;> simp
  · rw [rejects_iff, not_not]
    exact ⟨[1, 2], by decide +kernel⟩

end Example

end OtelSqlite.Backup
