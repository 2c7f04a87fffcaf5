import OtelSqlite.Backup.Truncation

/-!
# What an attacker can make of artifacts

The cipher is ideal: under the key it decrypts what the artifacts hold and nothing else. The
bytes of a container are the attacker's choice, with its lengths and its base nonce. A frame
is then accepted only at its own index, since the index is the end of the nonce, so a
version 2 container is accepted only if its frames are the first ones of the artifact. The
version byte is not part of the nonce: a single frame is a version 1 container as well.
-/

namespace OtelSqlite.Backup

open OtelSqlite.Lib OtelSqlite.Lib.Fallible OtelSqlite.Lib.Disk

variable {bytes rest plaintext : Bytes}

/-- The plaintexts of the frames of an artifact, with its base nonce. -/
structure Artifact where
  base : Nonce
  pieces : List Bytes

section Ideal

variable (aead : Aead) (key : Key)

/-- The artifact has a frame with this nonce and this ciphertext. -/
def Artifact.Holds (a : Artifact) (nonce : Nonce) (ciphertext : Bytes) : Prop :=
  ∃ i piece, a.pieces[i]? = some piece ∧ nonce = frameNonce a.base i ∧
    aead.encrypt key nonce piece = some ciphertext

/-- Under the key nothing decrypts but the frames of the artifacts. -/
def Ideal (artifacts : Set Artifact) : Prop :=
  ∀ nonce ciphertext plaintext, aead.decrypt key nonce ciphertext = some plaintext →
    ∃ a ∈ artifacts, a.Holds aead key nonce ciphertext

/-- The artifact that a run of `encrypt_file` has written under the key. -/
def Artifact.Written (a : Artifact) : Prop :=
  ∃ plain out keyPath d d' content,
    (encryptFile aead a.base plain out keyPath).run d = (.ok (), d') ∧
      d.files.lookup keyPath = some key.1 ∧ d.files.lookup plain = some content ∧
      a.pieces = framing d.offers content

end Ideal

section Words

theorem toBeBytes_fromBeBytes (h : bytes.length = 4) : toBeBytes (fromBeBytes bytes) = bytes := by
  match bytes, h with
  | [a, b, c, d], _ =>
    have ha := a.toNat_lt
    have hb := b.toNat_lt
    have hc := c.toNat_lt
    have hd := d.toNat_lt
    simp only [fromBeBytes, toBeBytes, List.foldl_cons, List.foldl_nil, List.cons.injEq,
      and_true, ← UInt8.toNat_inj, UInt8.toNat_ofNat']
    omega

/-- The first eight bytes of a nonce, which the counter does not touch. -/
def Nonce.fixed (base : Nonce) : Bytes := base.1.take (nonceLen - 4)

theorem frameNonce_inj {base base' : Nonce} {i j : Nat} (hi : i ≤ u32Max) (hj : j ≤ u32Max)
    (h : frameNonce base i = frameNonce base' j) : Nonce.fixed base = Nonce.fixed base' ∧ i = j := by
  have hbytes : base.1.take (nonceLen - 4) ++ toBeBytes i =
      base'.1.take (nonceLen - 4) ++ toBeBytes j := congrArg Subtype.val h
  obtain ⟨hbase, hindex⟩ := List.append_inj' hbytes rfl
  refine ⟨hbase, ?_⟩
  rw [← fromBeBytes_toBeBytes hi, hindex, fromBeBytes_toBeBytes hj]

end Words

section Prefixes

variable {aead : Aead} {key : Key} {base base' : Nonce} {pieces : List Bytes} {counter : Nat}

/-- The frames of the first pieces are the first frames. -/
theorem sealFrames_take {frames : Bytes} (k : Nat)
    (h : sealFrames aead key base counter pieces = some frames) :
    ∃ first more, sealFrames aead key base counter (pieces.take k) = some first ∧
      frames = first ++ more := by
  induction pieces generalizing counter k frames with
  | nil => exact ⟨frames, [], by rw [List.take_nil]; exact h, (List.append_nil _).symm⟩
  | cons piece pieces ih =>
    cases k with
    | zero => exact ⟨[], frames, rfl, rfl⟩
    | succ k =>
      obtain ⟨ciphertext, tail, henc, htail, rfl⟩ := sealFrames_cons_ok h
      obtain ⟨first, more, hfirst, rfl⟩ := ih k htail
      exact ⟨frame ciphertext ++ first, more, sealFrames_cons _ _ _ henc hfirst,
        (List.append_assoc ..).symm⟩

/-- Any frame the reader takes is the next one of the artifact, byte for byte. -/
theorem accepted_frame {ciphertext tail : Bytes} (hideal : Ideal aead key {⟨base, pieces⟩})
    (hbound : pieces.length ≤ u32Max) (hcounter : counter ≤ u32Max)
    (hnext : nextFrame rest = .ok (some (ciphertext, tail)))
    (hplain : aead.decrypt key (frameNonce base' counter) ciphertext = some plaintext) :
    pieces[counter]? = some plaintext ∧ Nonce.fixed base' = Nonce.fixed base ∧
      aead.encrypt key (frameNonce base counter) plaintext = some ciphertext ∧
      rest = frame ciphertext ++ tail := by
  obtain ⟨_, rfl, i, piece, hpiece, hnonce, henc⟩ := hideal _ _ _ hplain
  have hi : i < pieces.length := (List.getElem?_eq_some_iff.mp hpiece).1
  obtain ⟨hbase, rfl⟩ := frameNonce_inj hcounter (by omega) hnonce
  have hsame : plaintext = piece := by
    rw [aead.decrypt_encrypt henc] at hplain
    exact (Option.some.inj hplain).symm
  subst hsame
  obtain ⟨hfour, hword, -, -, hrest⟩ := nextFrame_frame_iff.mp hnext
  have hlength : rest.take 4 = toBeBytes ciphertext.length := by
    rw [← hword, toBeBytes_fromBeBytes (by rw [List.length_take]; omega)]
  refine ⟨hpiece, hbase, by rwa [hnonce] at henc, ?_⟩
  rw [frame, ← hlength, List.append_assoc, ← hrest, List.take_append_drop]

/-- A stream accepted from index `counter` on consists of frames of the artifact from there. -/
theorem accepted_frames (hideal : Ideal aead key {⟨base, pieces⟩}) (hbound : pieces.length ≤ u32Max)
    (hcounter : counter ≤ pieces.length)
    (h : decodeFrames aead key base' counter rest = .ok plaintext) :
    ∃ k, counter + k ≤ pieces.length ∧ (0 < k → Nonce.fixed base' = Nonce.fixed base) ∧
      sealFrames aead key base counter ((pieces.drop counter).take k) = some rest ∧
      plaintext = ((pieces.drop counter).take k).flatten := by
  induction hlen : rest.length using Nat.strong_induction_on
    generalizing rest counter plaintext with
  | _ n ih =>
    rcases decodeFrames_ok h with ⟨rfl, rfl⟩ | ⟨ciphertext, tail, piece, more, hnext, hplain, -,
      hmore, rfl⟩
    · exact ⟨0, hcounter, by simp, rfl, rfl⟩
    · obtain ⟨hpiece, hbase, henc, hrest⟩ :=
        accepted_frame hideal hbound (hcounter.trans hbound) hnext hplain
      have hlt : counter < pieces.length := (List.getElem?_eq_some_iff.mp hpiece).1
      obtain ⟨k, hk, -, hseal, hflat⟩ :=
        ih _ (hlen ▸ nextFrame_rest hnext) (by omega) hmore rfl
      have hdrop : pieces.drop counter = piece :: pieces.drop (counter + 1) := by
        rw [List.drop_eq_getElem_cons hlt, (List.getElem?_eq_some_iff.mp hpiece).2]
      refine ⟨k + 1, by omega, fun _ => hbase, ?_, ?_⟩
      · rw [hdrop, List.take_succ_cons, hrest]
        exact sealFrames_cons _ _ _ henc hseal
      · rw [hdrop, List.take_succ_cons, List.flatten_cons, ← hflat]

end Prefixes

section Containers

variable {aead : Aead} {key : Key}

theorem decode_magic (version : UInt8) (rest : Bytes) :
    decode aead key (backupFileMagic ++ version :: rest) =
      if version = backupFileVersionV1 then decodeV1 aead key rest
      else if version = backupFileVersion then decodeV2 aead key rest
      else .error (.corruptBackup s!"unsupported backup file version {version.toNat}") := by
  rw [decode, if_neg (by simp), List.drop_left]
  rfl

theorem take_magic_of_decode (h : decode aead key bytes = .ok plaintext) :
    bytes.take backupFileMagic.length = backupFileMagic := by
  by_contra hmagic
  rw [decode, if_pos (.inr hmagic)] at h
  cases h

theorem decodeV2_ok_iff :
    decodeV2 aead key rest = .ok plaintext ↔
      ∃ (base : Nonce) (frames : Bytes), rest = base.1 ++ frames ∧
        decodeFrames aead key base 0 frames = .ok plaintext := by
  constructor
  · intro h
    rw [decodeV2] at h
    split_ifs at h with hbase
    exact ⟨⟨_, hbase⟩, _, (List.take_append_drop ..).symm, h⟩
  · rintro ⟨base, frames, rfl, h⟩
    have hbase : (base.1 ++ frames).take nonceLen = base.1 := List.take_left' base.2
    have hlen : ((base.1 ++ frames).take nonceLen).length = nonceLen := by rw [hbase, base.2]
    have hnonce : (⟨(base.1 ++ frames).take nonceLen, hlen⟩ : Nonce) = base := Subtype.ext hbase
    rw [decodeV2, dif_pos hlen, hnonce, List.drop_left' base.2, h]

theorem decodeV1_ok_iff :
    decodeV1 aead key rest = .ok plaintext ↔
      ∃ (nonce : Nonce) (ciphertext : Bytes), rest = nonce.1 ++ ciphertext ∧
        aead.decrypt key nonce ciphertext = some plaintext := by
  constructor
  · intro h
    rw [decodeV1] at h
    split_ifs at h with hlen
    refine ⟨leadingNonce rest hlen, rest.drop nonceLen, (List.take_append_drop ..).symm, ?_⟩
    cases hplain : aead.decrypt key (leadingNonce rest hlen) (rest.drop nonceLen) with
    | none =>
      rw [hplain] at h
      cases h
    | some text =>
      rw [hplain] at h
      cases h
      rfl
  · rintro ⟨nonce, ciphertext, rfl, h⟩
    have hlen : ¬(nonce.1 ++ ciphertext).length < nonceLen := by
      rw [List.length_append, nonce.2]
      omega
    have hnonce : leadingNonce (nonce.1 ++ ciphertext) hlen = nonce :=
      Subtype.ext (List.take_left' nonce.2)
    rw [decodeV1, dif_neg hlen, hnonce, List.drop_left' nonce.2, h]

end Containers

/-- Whatever version 2 container the attacker assembles, with any base nonce and any frames:
if it is accepted, its frames are the first frames of the artifact, byte for byte and in
order, and the output is their plaintext. -/
theorem tampered_backup_only_shorter (aead : Aead) (base : Nonce) (plain out keyPath : Path)
    (d d' : Disk Path) (h : (encryptFile aead base plain out keyPath).run d = (.ok (), d'))
    (key : Key) (hkey : d.files.lookup keyPath = some key.1)
    (content : Bytes) (hcontent : d.files.lookup plain = some content)
    (hideal : Ideal aead key {⟨base, framing d.offers content⟩})
    (rest : Bytes) (encrypted keyPath' restored : Path) (e e' : Disk Path)
    (hbytes : e.files.lookup encrypted = some (backupFileMagic ++ backupFileVersion :: rest))
    (hkey' : e.files.lookup keyPath' = some key.1)
    (haccepted : (decryptTo aead encrypted keyPath' restored).run e = (.ok (), e')) :
    ∃ k ≤ (framing d.offers content).length, ∃ (base' : Nonce) (frames : Bytes),
      rest = base'.1 ++ frames ∧ (0 < k → Nonce.fixed base' = Nonce.fixed base) ∧
      sealFrames aead key base 0 ((framing d.offers content).take k) = some frames ∧
      (∃ more, d'.files.lookup out = some (header base ++ (frames ++ more))) ∧
      e'.files.lookup restored = some ((framing d.offers content).take k).flatten := by
  obtain ⟨keyOut, contentOut, all, ⟨hkeyOut, hcontentOut, -, hall, hbound, -⟩, hout⟩ :=
    encryptFile_ok h
  rw [hkey, Option.some.injEq] at hkeyOut
  rw [hcontent, Option.some.injEq] at hcontentOut
  obtain rfl : key = keyOut := Subtype.ext hkeyOut
  subst hcontentOut
  obtain ⟨key', bytes, plaintext, hkeyFile, hfile, hdecode, hwritten⟩ := decryptTo_ok haccepted
  rw [hkey', Option.some.injEq] at hkeyFile
  rw [hbytes, Option.some.injEq] at hfile
  obtain rfl : key = key' := Subtype.ext hkeyFile
  subst hfile
  rw [decode_magic, if_neg (by decide), if_pos rfl] at hdecode
  obtain ⟨base', frames, rfl, hframes⟩ := decodeV2_ok_iff.mp hdecode
  obtain ⟨k, hk, hbase, hseal, rfl⟩ := accepted_frames hideal hbound (Nat.zero_le _) hframes
  obtain ⟨first, more, hfirst, rfl⟩ := sealFrames_take k hall
  rw [List.drop_zero] at hseal hwritten
  rw [hseal, Option.some.injEq] at hfirst
  subst hfirst
  exact ⟨k, by omega, base', frames, rfl, hbase, hseal, ⟨more, hout⟩, hwritten⟩

section Small

def smallArtifact : Artifact := ⟨zeroNonce, framing smallDisk.offers [1, 2, 3]⟩

theorem written_smallArtifact : smallArtifact.Written twoFrameAead sevenKey :=
  ⟨file "plain", file "artifact", file "key", smallDisk, _, [1, 2, 3],
    Prod.ext (by decide +kernel) rfl, by decide +kernel, by decide +kernel, rfl⟩

theorem ideal_twoFrameAead : Ideal twoFrameAead sevenKey {smallArtifact} := by
  intro nonce ciphertext plaintext h
  obtain ⟨hmem, henc⟩ := Aead.restrict_ideal h
  have hseal : twoFrameAead.encrypt sevenKey nonce plaintext = some ciphertext :=
    (if_pos hmem).trans henc
  refine ⟨smallArtifact, rfl, ?_⟩
  rw [List.mem_pair, Prod.mk.injEq, Prod.mk.injEq] at hmem
  rcases hmem with ⟨hnonce, rfl⟩ | ⟨hnonce, rfl⟩
  · exact ⟨0, [1, 2], by rw [smallArtifact, framing_smallDisk]; rfl, hnonce, hseal⟩
  · exact ⟨1, [3], by rw [smallArtifact, framing_smallDisk]; rfl, hnonce, hseal⟩

/-- The first frame of the small artifact alone, behind another end of the base nonce. -/
def smallTampered : Bytes :=
  (List.replicate 8 0 ++ [9, 9, 9, 9]) ++ frame ([1, 2] ++ tag sevenKey (frameNonce zeroNonce 0))

theorem tampered_backup_only_shorter_first_frame :
    ∃ e', (decryptTo twoFrameAead (file "artifact") (file "key") (file "restored")).run
          (diskWith sevenKey (backupFileMagic ++ backupFileVersion :: smallTampered)) =
        (.ok (), e') ∧
      ∃ k ≤ 2, e'.files.lookup (file "restored") = some (([[1, 2], [3]].take k).flatten) := by
  refine ⟨_, Prod.ext (by decide +kernel) rfl, ?_⟩
  obtain ⟨k, hk, -, -, -, -, -, -, hrestored⟩ :=
    tampered_backup_only_shorter twoFrameAead zeroNonce (file "plain") (file "artifact")
      (file "key") smallDisk _ (Prod.ext (by decide +kernel) rfl) sevenKey (by decide +kernel)
      [1, 2, 3] (by decide +kernel) ideal_twoFrameAead smallTampered (file "artifact")
      (file "key") (file "restored")
      (diskWith sevenKey (backupFileMagic ++ backupFileVersion :: smallTampered)) _
      (by decide +kernel) (by decide +kernel) (Prod.ext (by decide +kernel) rfl)
  rw [framing_smallDisk] at hk hrestored
  exact ⟨k, hk, hrestored⟩

end Small

section Downgrade

variable {aead : Aead} {key : Key} {artifacts : Set Artifact}

/-- A version 1 container is accepted iff its body is the nonce and the ciphertext of a frame. -/
theorem rejects_version_one_iff (hideal : Ideal aead key artifacts)
    (hversion : bytes[backupFileMagic.length]? = some backupFileVersionV1) :
    Rejects aead key bytes ↔
      ∀ a ∈ artifacts, ∀ nonce ciphertext, a.Holds aead key nonce ciphertext →
        bytes ≠ backupFileMagic ++ backupFileVersionV1 :: (nonce.1 ++ ciphertext) := by
  rw [rejects_iff]
  constructor
  · rintro h a - nonce ciphertext ⟨i, piece, -, -, henc⟩ rfl
    refine h ⟨piece, ?_⟩
    rw [decode_magic, if_pos rfl, decodeV1_ok_iff]
    exact ⟨nonce, ciphertext, rfl, aead.decrypt_encrypt henc⟩
  · rintro h ⟨plaintext, hplain⟩
    obtain ⟨hlt, hbyte⟩ := List.getElem?_eq_some_iff.mp hversion
    have hsplit : bytes = backupFileMagic ++ backupFileVersionV1 ::
        bytes.drop (backupFileMagic.length + 1) := by
      conv_lhs => rw [← List.take_append_drop backupFileMagic.length bytes]
      rw [take_magic_of_decode hplain, List.drop_eq_getElem_cons hlt, hbyte]
    rw [hsplit, decode_magic, if_pos rfl, decodeV1_ok_iff] at hplain
    obtain ⟨nonce, ciphertext, hrest, hdecrypt⟩ := hplain
    obtain ⟨a, ha, hholds⟩ := hideal _ _ _ hdecrypt
    rw [hrest] at hsplit
    exact h a ha nonce ciphertext hholds hsplit

/-- An artifact that was written holds the first of its pieces as a frame. -/
theorem Artifact.Written.holds {a : Artifact} (h : a.Written aead key) {piece : Bytes}
    {more : List Bytes} (hpieces : a.pieces = piece :: more) :
    ∃ ciphertext, a.Holds aead key (frameNonce a.base 0) ciphertext := by
  obtain ⟨plain, out, keyPath, d, d', content, hrun, hkey, hcontent, hframing⟩ := h
  obtain ⟨key', content', frames, ⟨hkey', hcontent', -, hseal, -, -⟩, -⟩ := encryptFile_ok hrun
  rw [hkey, Option.some.injEq] at hkey'
  rw [hcontent, Option.some.injEq] at hcontent'
  obtain rfl : key = key' := Subtype.ext hkey'
  subst hcontent'
  rw [← hframing, hpieces] at hseal
  obtain ⟨ciphertext, -, henc, -, -⟩ := sealFrames_cons_ok hseal
  exact ⟨ciphertext, 0, piece, by rw [hpieces]; rfl, rfl, henc⟩

end Downgrade

/-- A version 1 container is rejected iff its body is not the nonce and the ciphertext of a
frame of some artifact; so all are rejected iff no artifact has a frame. -/
theorem version_one_backup_rejected_iff (aead : Aead) (key : Key) (artifacts : Set Artifact)
    (hwritten : ∀ a ∈ artifacts, a.Written aead key) (hideal : Ideal aead key artifacts) :
    (∀ bytes : Bytes, bytes[backupFileMagic.length]? = some backupFileVersionV1 →
      (Rejects aead key bytes ↔
        ∀ a ∈ artifacts, ∀ nonce ciphertext, a.Holds aead key nonce ciphertext →
          bytes ≠ backupFileMagic ++ backupFileVersionV1 :: (nonce.1 ++ ciphertext))) ∧
    ((∀ bytes : Bytes, bytes[backupFileMagic.length]? = some backupFileVersionV1 →
        Rejects aead key bytes) ↔
      ∀ a ∈ artifacts, a.pieces = []) := by
  refine ⟨fun bytes hversion => rejects_version_one_iff hideal hversion, ?_, ?_⟩
  · intro h a ha
    cases hpieces : a.pieces with
    | nil => rfl
    | cons piece more =>
      obtain ⟨ciphertext, hholds⟩ := (hwritten a ha).holds hpieces
      have hversion : (backupFileMagic ++ backupFileVersionV1 ::
          ((frameNonce a.base 0).1 ++ ciphertext))[backupFileMagic.length]? =
            some backupFileVersionV1 := by
        rw [List.getElem?_append_right le_rfl, Nat.sub_self]
        rfl
      exact absurd rfl ((rejects_version_one_iff hideal hversion).mp (h _ hversion) a ha _ _ hholds)
  · intro h bytes hversion
    refine (rejects_version_one_iff hideal hversion).mpr fun a ha nonce ciphertext hholds => ?_
    obtain ⟨i, piece, hpiece, -⟩ := hholds
    rw [h a ha] at hpiece
    cases hpiece

theorem version_one_backup_rejected_iff_small :
    Rejects twoFrameAead sevenKey (backupFileMagic ++ [backupFileVersionV1]) := by
  refine ((version_one_backup_rejected_iff twoFrameAead sevenKey {smallArtifact}
    (by rintro _ rfl; exact written_smallArtifact) ideal_twoFrameAead).1 _ rfl).mpr ?_
  intro a _ nonce ciphertext _ h
  have := congrArg List.length h
  simp [nonce.2, nonceLen] at this

/-- The first frame of a version 2 artifact, relabelled, is accepted as a version 1 backup. -/
theorem version_one_backup_accepted :
    smallArtifact.Written twoFrameAead sevenKey ∧
      Ideal twoFrameAead sevenKey {smallArtifact} ∧
      ¬Rejects twoFrameAead sevenKey (backupFileMagic ++ backupFileVersionV1 ::
        ((frameNonce zeroNonce 0).1 ++ ([1, 2] ++ tag sevenKey (frameNonce zeroNonce 0)))) := by
  refine ⟨written_smallArtifact, ideal_twoFrameAead, ?_⟩
  rw [rejects_iff, not_not]
  exact ⟨[1, 2], by decide +kernel⟩

end OtelSqlite.Backup
