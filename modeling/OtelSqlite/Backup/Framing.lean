import OtelSqlite.Backup.Effects

/-!
# The artifact an encryption writes

`framing` cuts a plaintext as the reads do and `sealFrames` is the frame stream
for the pieces. An encryption that ends well has written the header and the frames
of the pieces, whatever else the disk did.
-/

namespace OtelSqlite.Backup

open OtelSqlite.Lib OtelSqlite.Lib.Fallible OtelSqlite.Lib.Disk

variable {rest piece ciphertext : Bytes} {counter : Nat} {pieces : List Bytes} {offers : Nat → Nat}

section Seal

/-- The pieces of the plaintext that the reads return, in order. -/
def framing (offers : Nat → Nat) (rest : Bytes) : List Bytes :=
  let chunk := Chunk.of rest streamChunkBytes (offers 0)
  if _ : chunk.1 = [] then []
  else chunk.1 :: framing (fun i => offers (i + 1)) (rest.drop chunk.1.length)
termination_by rest.length
decreasing_by exact chunk.drop_lt ‹_›

theorem framing_flatten (offers : Nat → Nat) (rest : Bytes) :
    (framing offers rest).flatten = rest := by
  fun_induction framing offers rest with
  | case1 offers rest chunk h =>
    obtain rfl | h0 := chunk.2.2.2 h
    · rfl
    · exact absurd h0 (by decide)
  | case2 offers rest chunk h ih =>
    rw [List.flatten_cons, ih, chunk.append_drop]

/-- A piece has between one byte and a full buffer. -/
theorem length_of_mem_framing (h : piece ∈ framing offers rest) :
    0 < piece.length ∧ piece.length ≤ streamChunkBytes := by
  fun_induction framing offers rest with
  | case1 => cases h
  | case2 offers rest chunk hne ih =>
    obtain rfl | h := List.mem_cons.mp h
    · exact ⟨List.length_pos_iff.mpr hne, chunk.2.2.1⟩
    · exact ih h

variable (aead : Aead) (key : Key) (base : Nonce)

/-- The length prefix and the ciphertext of one frame. -/
def frame (ciphertext : Bytes) : Bytes := toBeBytes ciphertext.length ++ ciphertext

/-- The frames of the pieces, numbered from `counter`. -/
def sealFrames (counter : Nat) : List Bytes → Option Bytes
  | [] => some []
  | piece :: pieces => do
    let ciphertext ← aead.encrypt key (frameNonce base counter) piece
    let frames ← sealFrames (counter + 1) pieces
    some (frame ciphertext ++ frames)

theorem sealFrames_cons {frames : Bytes}
    (hpiece : aead.encrypt key (frameNonce base counter) piece = some ciphertext)
    (hpieces : sealFrames aead key base (counter + 1) pieces = some frames) :
    sealFrames aead key base counter (piece :: pieces) = some (frame ciphertext ++ frames) := by
  simp [sealFrames, hpiece, hpieces]

/-- Magic, version and base nonce. -/
def header : Bytes := backupFileMagic ++ [backupFileVersion] ++ base.1

theorem length_header : (header base).length = 21 := by
  simp [header, backupFileMagic, base.2, nonceLen]

end Seal

section Encrypt

variable {aead : Aead} {key : Key} {base : Nonce} {out : Path} {d d' : Disk Path}
  {written content : Bytes} {plain keyPath : Path}

/-- The frame of a full buffer fits its length prefix. -/
theorem length_encrypt_le (hpiece : piece.length ≤ streamChunkBytes)
    (h : aead.encrypt key (frameNonce base counter) piece = some ciphertext) :
    ciphertext.length ≤ u32Max := by
  rw [aead.length_encrypt h]
  simp only [u32Max, streamChunkBytes, gcmTagLen] at *
  omega

/-- What is written already and the frames of the pieces, if the cipher takes them and there are
not too many. -/
def sealFrom (aead : Aead) (key : Key) (base : Nonce) (counter : Nat) (written : Bytes)
    (pieces : List Bytes) : Option Bytes :=
  if pieces.length + counter ≤ u32Max then
    (sealFrames aead key base counter pieces).map (written ++ ·)
  else none

theorem sealFrom_cons :
    sealFrom aead key base counter written (piece :: pieces) =
      (aead.encrypt key (frameNonce base counter) piece).bind fun ciphertext =>
        if counter = u32Max then none
        else sealFrom aead key base (counter + 1) (written ++ frame ciphertext) pieces := by
  have hshift : pieces.length + 1 + counter = pieces.length + (counter + 1) := by omega
  by_cases hlast : counter = u32Max
  · simp [sealFrom, hlast]
  · simp only [sealFrom, sealFrames, if_neg hlast, List.length_cons, hshift]
    cases aead.encrypt key (frameNonce base counter) piece with
    | none => split_ifs <;> rfl
    | some ciphertext => cases sealFrames aead key base (counter + 1) pieces <;> simp

theorem sealFrom_eq_some_iff {artifact : Bytes} :
    sealFrom aead key base counter written pieces = some artifact ↔ ∃ frames,
      sealFrames aead key base counter pieces = some frames ∧ pieces.length + counter ≤ u32Max ∧
        artifact = written ++ frames := by
  by_cases hbound : pieces.length + counter ≤ u32Max
  · simp [sealFrom, hbound, eq_comm (a := artifact)]
  · simp [sealFrom, hbound]

theorem sealFrom_ne_none_iff :
    sealFrom aead key base counter written pieces ≠ none ↔ ∃ frames,
      sealFrames aead key base counter pieces = some frames ∧ pieces.length + counter ≤ u32Max := by
  simp [Option.ne_none_iff_exists', sealFrom_eq_some_iff]

/-- The loop appends the frames of the pieces to the output, with a read and two writes
for each frame and a last read. -/
theorem produces_encryptFrames (hcounter : counter ≤ u32Max)
    (hout : d.files.lookup out = some written) (hoffers : d.offers = offers) :
    Produces out (encryptFrames aead key base out counter rest)
      (1 + 3 * (framing offers rest).length) d
      (sealFrom aead key base counter written (framing offers rest)) := by
  induction hlen : rest.length using Nat.strong_induction_on
    generalizing rest counter d written offers with
  | _ n ih =>
    subst hoffers
    rw [encryptFrames, framing]
    refine .bind Reaches.read.mapError ?_
    generalize Chunk.of rest streamChunkBytes (d.offers 0) = chunk
    by_cases hchunk : chunk.1 = []
    · rw [dif_pos hchunk, dif_pos hchunk]
      have hend : sealFrom aead key base counter written [] = some written := by
        simp [sealFrom, sealFrames, hcounter]
      rw [hend]
      exact .writes _ .pure hout
    · rw [dif_neg hchunk, dif_neg hchunk, sealFrom_cons]
      cases henc : aead.encrypt key (frameNonce base counter) chunk.1 with
      | none => exact .fail
      | some ciphertext =>
        simp only [if_neg (Nat.not_lt.mpr (length_encrypt_le chunk.2.2.1 henc)), Option.bind_some]
        have hcalls (n : Nat) : 3 * (n + 1) = 1 + (1 + (1 + 3 * n)) := by omega
        rw [List.length_cons, hcalls]
        refine .bind Reaches.writeAll.mapError (.bind Reaches.writeAll.mapError ?_)
        split_ifs with hlast
        · exact .fail
        · refine ih _ (hlen ▸ chunk.drop_lt hchunk) (by omega) ?_ rfl rfl
          simp [hout, frame]

/-- Header, frames and flush, into an output that has been created. -/
theorem produces_writeArtifact (hout : d.files.lookup out = some []) (hoffers : d.offers = offers) :
    Produces out (writeArtifact aead key base out content)
      (1 + (1 + (1 + (1 + 3 * (framing offers content).length + 1)))) d
      (sealFrom aead key base 0 (header base) (framing offers content)) := by
  refine .bind Reaches.writeAll.mapError (.bind Reaches.writeAll.mapError
    (.bind Reaches.writeAll.mapError (.flush ?_)))
  refine produces_encryptFrames (Nat.zero_le _) ?_ hoffers
  simp [hout, header]

/-- The calls of an encryption into a number of frames. -/
def encryptCalls (frames : Nat) : Nat := 6 + (3 * frames + 5) + 3

theorem encryptCalls_sub_add (frames : Nat) :
    encryptCalls frames - 3 + 3 = encryptCalls frames := Nat.sub_add_cancel (Nat.le_add_left 3 _)

/-- An encryption with its key and its plaintext. -/
theorem course_encryptFile (hkey : d.files.lookup keyPath = some key.1)
    (hplain : d.files.lookup plain = some content) (hfree : d.files.lookup out = none) :
    Course out (Clear out) (encryptFile aead base plain out keyPath) d
      (sealFrom aead key base 0 (header base) (framing d.offers content))
      (encryptCalls (framing d.offers content).length - 3) 3 := by
  have hcalls (n : Nat) : encryptCalls n - 3 =
      3 + (1 + (1 + (1 + (1 + (1 + (1 + (1 + 3 * n + 1))))))) := by
    rw [encryptCalls]
    omega
  have hpassive := passive_clear out
  rw [hcalls]
  refine .passive_bind (reaches_readKey hkey) (preserves_readKey hpassive keyPath) ?_
  refine .passive_bind reaches_randomBaseNonce (hpassive.step.mapError.bind fun _ => .pure _) ?_
  refine .passive_bind (Reaches.openFile (by exact hplain)).mapError (hpassive.openFile plain).mapError ?_
  refine .bind (J := fun d => d.stuck out = false) (Reaches.createNew (by exact hfree)).mapError
    (fun e d' h hd => (failsWith_create hd.1).2.mapError e d' h) (fun _ => And.right) ?_
  exact .guarded closes_finishOutput preserves_writeArtifact
    (produces_writeArtifact (lookup_put ..) rfl)

/-- What `encrypt_file` needs: a key of the right length, a plaintext, a free output path, a
cipher that takes every piece, not too many of them, and calls that do not fail. -/
structure EncryptsTo (aead : Aead) (base : Nonce) (plain out keyPath : Path) (d : Disk Path)
    (key : Key) (content frames : Bytes) : Prop where
  keyFile : d.files.lookup keyPath = some key.1
  plainFile : d.files.lookup plain = some content
  free : d.files.lookup out = none
  sealed : sealFrames aead key base 0 (framing d.offers content) = some frames
  bound : (framing d.offers content).length ≤ u32Max
  quiet : Quiet (encryptCalls (framing d.offers content).length) d.faults

def Encryptable (aead : Aead) (base : Nonce) (plain out keyPath : Path) (d : Disk Path) : Prop :=
  ∃ key content frames, EncryptsTo aead base plain out keyPath d key content frames

/-- What `encrypt_file` has read and written when it ends well. -/
theorem encryptFile_ok (h : (encryptFile aead base plain out keyPath).run d = (.ok (), d')) :
    ∃ key content frames, EncryptsTo aead base plain out keyPath d key content frames ∧
      d'.files.lookup out = some (header base ++ frames) := by
  have hcalls := h
  simp only [encryptFile, run_bind_ok_iff, readKey_ok_iff,
    reaches_randomBaseNonce.ok_iff, io_ok_iff, openFile_ok_iff, createArtifact_ok_iff] at hcalls
  obtain ⟨key, _, ⟨⟨-, hkey⟩, rfl⟩, _, _, ⟨-, rfl, rfl⟩, content, _, ⟨-, hcontent, rfl⟩, _, _,
    ⟨-, hfree, -⟩, -⟩ := hcalls
  obtain ⟨artifact, hresult, hquiet, hwritten⟩ := (course_encryptFile hkey hcontent hfree).ok h
  obtain ⟨frames, hseal, hbound, rfl⟩ := sealFrom_eq_some_iff.mp hresult
  rw [encryptCalls_sub_add] at hquiet
  exact ⟨key, content, frames, ⟨hkey, hcontent, hfree, hseal, hbound, hquiet⟩, hwritten⟩

theorem succeeds_encryptFile_iff :
    Succeeds (encryptFile aead base plain out keyPath) d ↔
      Encryptable aead base plain out keyPath d := by
  constructor
  · rintro ⟨_, d', h⟩
    obtain ⟨key, content, frames, hto, -⟩ := encryptFile_ok h
    exact ⟨key, content, frames, hto⟩
  · rintro ⟨key, content, frames, ⟨hkey, hcontent, hfree, hseal, hbound, hquiet⟩⟩
    rw [← encryptCalls_sub_add] at hquiet
    exact (course_encryptFile hkey hcontent hfree).succeeds
      (sealFrom_ne_none_iff.mpr ⟨frames, hseal, hbound⟩) hquiet

end Encrypt

end OtelSqlite.Backup
