import OtelSqlite.Backup.Effects

/-!
# The plaintext of an artifact

`decode` is what a decryption makes of the bytes of an artifact. It knows no files,
failing calls or short reads: a decryption that ends well has written what `decode`
gives, and on a disk without failing calls every artifact that `decode` accepts is
accepted, however its reads are chunked.
-/

namespace OtelSqlite.Backup

open OtelSqlite.Lib OtelSqlite.Lib.Fallible OtelSqlite.Lib.Disk

section Decode

variable (aead : Aead) (key : Key)

/-- The next ciphertext and what follows it; `none` at the end of the stream. -/
def nextFrame (rest : Bytes) : Except BackupError (Option (Bytes × Bytes)) :=
  let prefixBytes := rest.take 4
  if prefixBytes.length = 0 then .ok none
  else if prefixBytes.length ≠ 4 then .error (.corruptBackup "truncated frame length prefix")
  else
    let frameLen := fromBeBytes prefixBytes
    let payload := (rest.drop 4).take frameLen
    if frameLen = 0 ∨ maxFrameCiphertext < frameLen then
      .error (.corruptBackup s!"corrupt frame length {frameLen}")
    else if payload.length ≠ frameLen then .error (.corruptBackup "truncated frame payload")
    else .ok (some (payload, (rest.drop 4).drop frameLen))

section NextFrame

variable {rest ciphertext tail : Bytes}

theorem nextFrame_end_iff : nextFrame rest = .ok none ↔ rest = [] := by
  constructor
  · intro h
    simp only [nextFrame] at h
    split_ifs at h with hnil
    · rw [List.length_take] at hnil
      exact List.length_eq_zero_iff.mp (by omega)
    · cases h
  · rintro rfl
    rfl

theorem nextFrame_frame_iff :
    nextFrame rest = .ok (some (ciphertext, tail)) ↔
      4 ≤ rest.length ∧ fromBeBytes (rest.take 4) = ciphertext.length ∧
        0 < ciphertext.length ∧ ciphertext.length ≤ maxFrameCiphertext ∧
        rest.drop 4 = ciphertext ++ tail := by
  constructor
  · intro h
    simp only [nextFrame] at h
    split_ifs at h with hnil hword hlen hpayload
    · cases h
    · cases h
      rw [List.length_take] at hword
      rw [not_not] at hpayload
      exact ⟨by omega, hpayload.symm, by omega, by omega, (List.take_append_drop ..).symm⟩
  · rintro ⟨hlen, hword, hpos, hmax, hrest⟩
    have hfour : (rest.take 4).length = 4 := by rw [List.length_take]; omega
    rw [nextFrame, if_neg (by omega), if_neg (by omega), hword, if_neg (by omega), hrest,
      List.take_left, List.drop_left, if_neg (by omega)]

theorem nextFrame_rest (h : nextFrame rest = .ok (some (ciphertext, tail))) :
    tail.length < rest.length := by
  obtain ⟨hlen, -, -, -, hrest⟩ := nextFrame_frame_iff.mp h
  have := congrArg List.length hrest
  rw [List.length_drop, List.length_append] at this
  omega

end NextFrame

/-- The plaintexts of the frames, numbered from `counter`. -/
def decodeFrames (base : Nonce) (counter : Nat) (rest : Bytes) : Except BackupError Bytes :=
  match _ : nextFrame rest with
  | .error e => .error e
  | .ok none => .ok []
  | .ok (some (ciphertext, tail)) =>
    match aead.decrypt key (frameNonce base counter) ciphertext with
    | none => .error (.corruptBackup "authentication failed: wrong key or corrupted backup")
    | some plaintext =>
      if counter = u32Max then .error (.corruptBackup "backup exceeds 256 TiB frame limit")
      else (decodeFrames base (counter + 1) tail).map (plaintext ++ ·)
termination_by rest.length
decreasing_by exact nextFrame_rest ‹_›

section DecodeFrames

variable {aead key} {base : Nonce} {counter : Nat} {rest ciphertext tail plaintext : Bytes}

theorem decodeFrames_end (h : nextFrame rest = .ok none) :
    decodeFrames aead key base counter rest = .ok [] := by
  rw [decodeFrames]
  split <;> rename_i heq <;> rw [h] at heq <;> cases heq

theorem decodeFrames_error {e : BackupError} (h : nextFrame rest = .error e) :
    decodeFrames aead key base counter rest = .error e := by
  rw [decodeFrames]
  split <;> rename_i heq <;> rw [h] at heq <;> cases heq
  rfl

theorem decodeFrames_eq (h : nextFrame rest = .ok (some (ciphertext, tail))) :
    decodeFrames aead key base counter rest =
      match aead.decrypt key (frameNonce base counter) ciphertext with
      | none => .error (.corruptBackup "authentication failed: wrong key or corrupted backup")
      | some plaintext =>
        if counter = u32Max then .error (.corruptBackup "backup exceeds 256 TiB frame limit")
        else (decodeFrames aead key base (counter + 1) tail).map (plaintext ++ ·) := by
  rw [decodeFrames]
  split <;> rename_i heq <;> rw [h] at heq <;> cases heq
  rfl

theorem decodeFrames_frame (h : nextFrame rest = .ok (some (ciphertext, tail)))
    (hplain : aead.decrypt key (frameNonce base counter) ciphertext = some plaintext)
    (hcounter : counter ≠ u32Max) :
    decodeFrames aead key base counter rest =
      (decodeFrames aead key base (counter + 1) tail).map (plaintext ++ ·) := by
  rw [decodeFrames_eq h, hplain]
  exact if_neg hcounter

/-- What is accepted is at its end, or begins with a frame that decrypts. -/
theorem decodeFrames_ok (h : decodeFrames aead key base counter rest = .ok plaintext) :
    (rest = [] ∧ plaintext = []) ∨
      ∃ ciphertext tail piece more, nextFrame rest = .ok (some (ciphertext, tail)) ∧
        aead.decrypt key (frameNonce base counter) ciphertext = some piece ∧ counter ≠ u32Max ∧
        decodeFrames aead key base (counter + 1) tail = .ok more ∧ plaintext = piece ++ more := by
  rw [decodeFrames] at h
  split at h
  · cases h
  · rename_i hnext
    exact .inl ⟨nextFrame_end_iff.mp hnext, (Except.ok.inj h).symm⟩
  · rename_i ciphertext tail hnext
    cases hplain : aead.decrypt key (frameNonce base counter) ciphertext with
    | none =>
      rw [hplain] at h
      cases h
    | some piece =>
      simp only [hplain] at h
      by_cases hlast : counter = u32Max
      · rw [if_pos hlast] at h
        cases h
      · rw [if_neg hlast] at h
        cases hmore : decodeFrames aead key base (counter + 1) tail with
        | error e =>
          rw [hmore] at h
          cases h
        | ok more =>
          rw [hmore] at h
          exact .inr ⟨ciphertext, tail, piece, more, hnext, hplain, hlast, hmore,
            (Except.ok.inj h).symm⟩

end DecodeFrames

def decodeV1 (rest : Bytes) : Except BackupError Bytes :=
  if h : rest.length < nonceLen then
    .error (.corruptBackup "truncated v1 backup (missing nonce)")
  else
    match aead.decrypt key (leadingNonce rest h) (rest.drop nonceLen) with
    | none => .error (.corruptBackup "authentication failed: wrong key or corrupted backup")
    | some plaintext => .ok plaintext

def decodeV2 (rest : Bytes) : Except BackupError Bytes :=
  if h : (rest.take nonceLen).length = nonceLen then
    decodeFrames aead key ⟨rest.take nonceLen, h⟩ 0 (rest.drop nonceLen)
  else .error (.corruptBackup "truncated v2 backup header (missing base nonce)")

/-- The plaintext of an artifact of either version. -/
def decode (artifact : Bytes) : Except BackupError Bytes :=
  let magic := artifact.take backupFileMagic.length
  if magic.length ≠ backupFileMagic.length ∨ magic ≠ backupFileMagic then
    .error (.corruptBackup "not an otel-sqlite encrypted backup (bad magic)")
  else
    let rest := artifact.drop backupFileMagic.length
    match rest.take 1 with
    | [] => .error (.corruptBackup "truncated backup header (missing version)")
    | version :: _ =>
      let rest := rest.drop 1
      if version = backupFileVersionV1 then decodeV1 aead key rest
      else if version = backupFileVersion then decodeV2 aead key rest
      else .error (.corruptBackup s!"unsupported backup file version {version.toNat}")

end Decode

section Calls

/-- The reads of a frame's length and of its ciphertext. -/
def frameReads (offers : Nat → Nat) (rest ciphertext : Bytes) : Nat :=
  let head := readCalls offers rest 4
  head + readCalls (fun i => offers (i + head)) (rest.drop 4) ciphertext.length

/-- The calls of the frame loop: for each frame its reads and one write, and in the end the read
that finds no more. -/
def frameCalls (offers : Nat → Nat) (rest : Bytes) : Nat :=
  match _ : nextFrame rest with
  | .ok (some (ciphertext, tail)) =>
    let reads := frameReads offers rest ciphertext
    reads + 1 + frameCalls (fun i => offers (i + reads)) tail
  | _ => readCalls offers rest 4
termination_by rest.length
decreasing_by exact nextFrame_rest ‹_›

variable {offers : Nat → Nat} {rest ciphertext tail : Bytes}

theorem frameCalls_end (h : nextFrame rest = .ok none) :
    frameCalls offers rest = readCalls offers rest 4 := by
  rw [frameCalls]
  split
  · rename_i heq
    rw [h] at heq
    cases heq
  · rfl

theorem frameCalls_frame (h : nextFrame rest = .ok (some (ciphertext, tail))) :
    frameCalls offers rest = frameReads offers rest ciphertext + 1 +
      frameCalls (fun i => offers (i + frameReads offers rest ciphertext)) tail := by
  rw [frameCalls]
  split
  · rename_i heq
    rw [h] at heq
    cases heq
    rfl
  · rename_i hother
    exact absurd h (hother _ _)

end Calls

section Decrypt

variable {aead : Aead} {key : Key} {base : Nonce} {out : Path} {d d' : Disk Path}
  {rest artifact : Bytes} {encrypted keyPath : Path} {offers : Nat → Nat}

theorem reaches_readExactOrEof {len : Nat} (hoffers : d.offers = offers) :
    Reaches (readExactOrEof rest len) (readCalls offers rest len) d ⟨rest.take len, rfl⟩
      (d.skip (readCalls offers rest len) (readCalls offers rest len)) :=
  hoffers ▸ (Reaches.readFull _).mapError

/-- The loop appends the plaintexts of all frames. -/
theorem produces_decryptFrames {counter : Nat} {written : Bytes}
    (hout : d.files.lookup out = some written) (hoffers : d.offers = offers) :
    Produces out (decryptFrames aead key base out counter rest) (frameCalls offers rest) d
      ((decodeFrames aead key base counter rest).toOption.map (written ++ ·)) := by
  induction hlen : rest.length using Nat.strong_induction_on
    generalizing rest counter d written offers with
  | _ n ih =>
    subst hoffers
    rw [decryptFrames]
    rcases hnext : nextFrame rest with e | _ | ⟨ciphertext, tail⟩
    · rw [decodeFrames_error hnext]
      refine .fails ?_
      rintro ⟨_, _, h⟩
      obtain ⟨⟨_, rfl⟩, d₁, -, h⟩ := run_bind_ok_iff.mp h
      simp only [nextFrame] at hnext
      split_ifs at hnext with hnil hword hlength hpayload
      · rw [dif_neg hnil, if_pos hword] at h
        cases h
      · rw [dif_neg hnil, if_neg hword, if_pos hlength] at h
        cases h
      · rw [dif_neg hnil, if_neg hword, if_neg hlength] at h
        obtain ⟨⟨_, rfl⟩, d₂, -, h⟩ := run_bind_ok_iff.mp h
        rw [not_not.mp hword, if_pos hpayload] at h
        cases h
    · rw [decodeFrames_end hnext, frameCalls_end hnext]
      obtain rfl := nextFrame_end_iff.mp hnext
      refine .bind (n := 0) (reaches_readExactOrEof rfl) (.writes _ .pure ?_)
      show d.files.lookup out = some (written ++ [])
      rw [hout, List.append_nil]
    · obtain ⟨hfour, hword, hpos, hmax, hrest⟩ := nextFrame_frame_iff.mp hnext
      have htake : (rest.take 4).length = 4 := by rw [List.length_take]; omega
      have hlength : ¬(fromBeBytes (rest.take 4) = 0 ∨
          maxFrameCiphertext < fromBeBytes (rest.take 4)) := by omega
      have hcalls (offers : Nat → Nat) : readCalls offers (rest.drop 4) ciphertext.length =
          readCalls offers (rest.drop (rest.take 4).length) (fromBeBytes (rest.take 4)) := by
        rw [htake, hword]
      rw [decodeFrames_eq hnext, frameCalls_frame hnext, Nat.add_assoc]
      nth_rewrite 1 [frameReads]
      rw [Nat.add_assoc, hcalls]
      refine .bind (reaches_readExactOrEof rfl) ?_
      rw [dif_neg (show (rest.take 4).length ≠ 0 by omega), if_neg (not_not.mpr htake),
        if_neg hlength]
      refine .bind (reaches_readExactOrEof rfl) ?_
      simp only [htake, hword, hrest, List.take_left, List.drop_left, ne_eq, not_true_eq_false,
        if_false, skip_skip]
      cases aead.decrypt key (frameNonce base counter) ciphertext with
      | none => exact .fail
      | some plaintext =>
        refine .bind Reaches.writeAll.mapError ?_
        by_cases hlast : counter = u32Max
        · simp only [if_pos hlast]
          exact .fail
        · have hresult (more : Except BackupError Bytes) :
              (more.map (plaintext ++ ·)).toOption.map (written ++ ·) =
                more.toOption.map (written ++ plaintext ++ ·) := by
            cases more <;> simp [Except.map, Except.toOption]
          simp only [if_neg hlast, hresult]
          refine ih _ (hlen ▸ nextFrame_rest hnext) ?_ ?_ rfl
          · simp [skip, hout]
          · rw [frameReads, hrest]
            rfl

theorem course_decryptV1Body :
    Course out (Clear out) (decryptV1Body aead key rest out) d (decodeV1 aead key rest).toOption
      4 1 := by
  refine .passive_bind (r := 1) (n := 3) Reaches.step.mapError (passive_clear out).step.mapError ?_
  by_cases hlen : rest.length < nonceLen
  · rw [decodeV1, dif_pos hlen, dif_pos hlen]
    exact .fail
  · rw [decodeV1, dif_neg hlen, dif_neg hlen]
    cases aead.decrypt key (leadingNonce rest hlen) (rest.drop nonceLen) with
    | none => exact .fail
    | some plaintext =>
      refine Course.mono (I := fun d => d.stuck out = false) (.guarded closes_step (fun hI =>
        hI.create.mapError.bind fun _ => (hI.writeAll plaintext).mapError.bind fun _ =>
          hI.step.mapError) ?_) And.right
      refine .bind (n := 2) Reaches.create.mapError (.flush (.writes _ Reaches.writeAll.mapError ?_))
      simp

/-- The calls of a version 2 body in front of those that close the output: the reads of the base
nonce, the creation, the frames and the flush. -/
def v2Calls (offers : Nat → Nat) (rest : Bytes) : Nat :=
  let reads := readCalls offers rest nonceLen
  reads + (1 + (frameCalls (fun i => offers (i + reads)) (rest.drop nonceLen) + 1))

theorem course_decryptV2Body :
    Course out (Clear out) (decryptV2Body aead key rest out) d (decodeV2 aead key rest).toOption
      (v2Calls d.offers rest) 3 := by
  refine .passive_bind (reaches_readExactOrEof rfl)
    ((passive_clear out).readFull rest nonceLen).mapError ?_
  by_cases hbase : (rest.take nonceLen).length = nonceLen
  · rw [decodeV2, dif_pos hbase, dif_pos hbase]
    refine .bind (J := fun d => d.stuck out = false) Reaches.create.mapError
      (fun e d' h hd => (failsWith_create hd.1).1.mapError e d' h) (fun _ => And.right) ?_
    have hempty (result : Option Bytes) : result.map ([] ++ ·) = result := Option.map_id'
    rw [← hempty (Except.toOption _)]
    exact .guarded closes_finishOutput preserves_writePlaintext
      (.flush (produces_decryptFrames (lookup_put ..) rfl))
  · rw [decodeV2, dif_neg hbase, dif_neg hbase]
    exact .fail

/-- The calls of a decryption in front of those that close the output: three for the key, the
opening of the artifact, the reads of magic and version, and those of the body. -/
def decryptCalls (offers : Nat → Nat) (artifact : Bytes) : Nat :=
  let magic := readCalls offers artifact backupFileMagic.length
  let rest := artifact.drop backupFileMagic.length
  let version := readCalls (fun i => offers (i + magic)) rest 1
  3 + (1 + (magic + (version +
    if rest.head? = some backupFileVersionV1 then 4
    else v2Calls (fun i => offers (i + version + magic)) (rest.drop 1))))

/-- The calls that close the output: the permissions only, or all three. -/
def closingCalls (artifact : Bytes) : Nat :=
  if (artifact.drop backupFileMagic.length).head? = some backupFileVersionV1 then 1 else 3

/-- A decryption with its key and its artifact. -/
theorem course_decryptTo (hkey : d.files.lookup keyPath = some key.1)
    (hartifact : d.files.lookup encrypted = some artifact) :
    Course out (Clear out) (decryptTo aead encrypted keyPath out) d
      (decode aead key artifact).toOption (decryptCalls d.offers artifact)
      (closingCalls artifact) := by
  have hpassive := passive_clear out
  refine .passive_bind (r := 3) (reaches_readKey hkey) (preserves_readKey hpassive keyPath) ?_
  refine .passive_bind (r := 1) (Reaches.openFile (by exact hartifact)).mapError
    (hpassive.openFile encrypted).mapError ?_
  refine .passive_bind (reaches_readExactOrEof rfl) (hpassive.readFull artifact _).mapError ?_
  by_cases hmagic : (artifact.take backupFileMagic.length).length ≠ backupFileMagic.length ∨
      artifact.take backupFileMagic.length ≠ backupFileMagic
  · simp only [decode, if_pos hmagic]
    exact .fail
  · simp only [decode, if_neg hmagic]
    refine .passive_bind (reaches_readExactOrEof rfl) (hpassive.readFull _ 1).mapError ?_
    rw [closingCalls]
    generalize artifact.drop backupFileMagic.length = rest
    cases rest with
    | nil => exact .fail
    | cons version rest =>
      simp only [List.take_succ_cons, List.head?_cons, Option.some.injEq]
      split_ifs
      · exact course_decryptV1Body
      · exact course_decryptV2Body
      · exact .fail

theorem ok_of_toOption {r : Except BackupError Bytes} {bytes : Bytes}
    (h : r.toOption = some bytes) : r = .ok bytes := by
  cases r <;> cases h
  rfl

/-- What a decryption that ends well has read and written. -/
theorem decryptTo_ok (h : (decryptTo aead encrypted keyPath out).run d = (.ok (), d')) :
    ∃ (key : Key) (artifact plaintext : Bytes),
      d.files.lookup keyPath = some key.1 ∧ d.files.lookup encrypted = some artifact ∧
      decode aead key artifact = .ok plaintext ∧ d'.files.lookup out = some plaintext := by
  obtain ⟨key, d₁, hread, hrest⟩ := run_bind_ok_iff.mp h
  obtain ⟨⟨-, hkey⟩, rfl⟩ := readKey_ok_iff.mp hread
  obtain ⟨artifact, d₂, hopen, -⟩ := run_bind_ok_iff.mp hrest
  obtain ⟨-, hartifact, -⟩ := openFile_ok_iff.mp (io_ok_iff.mp hopen)
  obtain ⟨plaintext, hplain, -, hwritten⟩ := (course_decryptTo hkey hartifact).ok h
  exact ⟨key, artifact, plaintext, hkey, hartifact, ok_of_toOption hplain, hwritten⟩

/-- Without failing calls a decryption accepts what `decode` accepts. -/
theorem decryptTo_of_decode {plaintext : Bytes} (out : Path) (hd : d.Reliable)
    (hkey : d.files.lookup keyPath = some key.1)
    (hartifact : d.files.lookup encrypted = some artifact)
    (h : decode aead key artifact = .ok plaintext) :
    ∃ d', (decryptTo aead encrypted keyPath out).run d = (.ok (), d') := by
  have hcourse : Course out (Clear out) (decryptTo aead encrypted keyPath out) d _ _ _ :=
    course_decryptTo hkey hartifact
  obtain ⟨_, d', hrun⟩ := hcourse.succeeds (by rw [h]; exact Option.some_ne_none _) fun i _ => hd i
  exact ⟨d', hrun⟩

end Decrypt

end OtelSqlite.Backup
