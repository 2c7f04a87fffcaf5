import OtelSqlite.Backup.Stream

/-!
# What an encryption and a decryption do to the disk

Both touch no file but their output, and while they stream they only write to it. Either the
output is written and what is left are the calls that close it (`Course.closes`), or the
function returns an error with nothing left at the output (`Course.stops`).
-/

namespace OtelSqlite.Backup

open OtelSqlite.Lib OtelSqlite.Lib.Fallible OtelSqlite.Lib.Disk

variable {aead : Aead} {key : Key} {base : Nonce} {out : Path} {I : Disk Path → Prop} {rest : Bytes}

theorem preserves_readKey (h : Passive I) (keyPath : Path) : Preserves I (readKey keyPath) := by
  have hstep : Preserves I (io step) := h.step.mapError
  refine (h.openFile keyPath).mapError.bind fun content => hstep.bind fun _ => hstep.bind fun _ => ?_
  split_ifs
  · exact .pure _
  · exact .fail _

theorem preserves_finishOutput (h : Passive I) : Preserves I finishOutput :=
  h.step.mapError.bind fun _ => h.step.mapError.bind fun _ => h.step.mapError

section Encrypt

theorem preserves_encryptFrames {counter : Nat} (h : Stable out I) :
    Preserves I (encryptFrames aead key base out counter rest) := by
  induction hlen : rest.length using Nat.strong_induction_on generalizing rest counter with
  | _ n ih =>
    rw [encryptFrames]
    refine (h.read rest _).mapError.bind fun chunk => ?_
    split
    · exact .pure _
    next hchunk =>
      cases aead.encrypt key (frameNonce base counter) chunk.1 with
      | none => exact .fail _
      | some ciphertext =>
        dsimp only
        split
        · exact .fail _
        refine (h.writeAll _).mapError.bind fun _ => (h.writeAll _).mapError.bind fun _ => ?_
        split_ifs
        · exact .fail _
        · exact ih _ (hlen ▸ chunk.drop_lt hchunk) rfl

theorem preserves_writeArtifact {content : Bytes} (h : Stable out I) :
    Preserves I (writeArtifact aead key base out content) :=
  (h.writeAll _).mapError.bind fun _ => (h.writeAll _).mapError.bind fun _ =>
    (h.writeAll _).mapError.bind fun _ => (preserves_encryptFrames h).bind fun _ => h.step.mapError

/-- An encryption touches no file but its output. -/
theorem preserves_encryptFile (aead : Aead) (base : Nonce) (plain keyPath : Path)
    (h : Independent out I) : Preserves I (encryptFile aead base plain out keyPath) :=
  (preserves_readKey h.toPassive keyPath).bind fun _ =>
    (h.step.mapError.bind fun _ => .pure _).bind fun _ =>
      (h.openFile plain).mapError.bind fun _ => h.createNew.mapError.bind fun _ =>
        ((preserves_writeArtifact h.toStable).onError h.removeFile.mapError).bind fun _ =>
          preserves_finishOutput h.toPassive

end Encrypt

section Decrypt

theorem preserves_decryptFrames {counter : Nat} (h : Stable out I) :
    Preserves I (decryptFrames aead key base out counter rest) := by
  induction hlen : rest.length using Nat.strong_induction_on generalizing rest counter with
  | _ n ih =>
    rw [decryptFrames]
    refine (h.readFull rest 4).mapError.bind fun header => ?_
    have hheader : header.1.length ≤ rest.length := by
      rw [header.2, List.length_take]
      omega
    split
    · exact .pure _
    next hend =>
      split
      · exact .fail _
      dsimp only
      split
      · exact .fail _
      refine (h.readFull _ _).mapError.bind fun ciphertext => ?_
      split
      · exact .fail _
      cases aead.decrypt key (frameNonce base counter) ciphertext.1 with
      | none => exact .fail _
      | some plaintext =>
        refine (h.writeAll _).mapError.bind fun _ => ?_
        split_ifs
        · exact .fail _
        · refine ih _ ?_ rfl
          rw [List.length_drop, List.length_drop]
          omega

theorem preserves_writePlaintext (h : Stable out I) :
    Preserves I (writePlaintext aead key base out rest) :=
  (preserves_decryptFrames h).bind fun _ => h.step.mapError

theorem preserves_decryptV1Body (h : Independent out I) :
    Preserves I (decryptV1Body aead key rest out) := by
  have hstep : Preserves I (io step) := h.step.mapError
  refine hstep.bind fun _ => ?_
  split_ifs with hlen
  · exact .fail _
  · cases aead.decrypt key (leadingNonce rest hlen) (rest.drop nonceLen) with
    | none => exact .fail _
    | some plaintext =>
      refine Preserves.bind (Preserves.onError ?_ h.removeFile.mapError) fun _ => hstep
      exact h.create.mapError.bind fun _ => (h.writeAll _).mapError.bind fun _ => hstep

theorem preserves_decryptV2Body (h : Independent out I) :
    Preserves I (decryptV2Body aead key rest out) := by
  refine (h.readFull rest nonceLen).mapError.bind fun base => ?_
  split_ifs with hbase
  · exact h.create.mapError.bind fun _ =>
      ((preserves_writePlaintext h.toStable).onError h.removeFile.mapError).bind fun _ =>
        preserves_finishOutput h.toPassive
  · exact .fail _

/-- A decryption touches no file but its output. -/
theorem preserves_decryptTo (aead : Aead) (encrypted keyPath : Path) (h : Independent out I) :
    Preserves I (decryptTo aead encrypted keyPath out) := by
  refine (preserves_readKey h.toPassive keyPath).bind fun key =>
    (h.openFile encrypted).mapError.bind fun input =>
      (h.readFull input _).mapError.bind fun magic => ?_
  split_ifs
  · exact .fail _
  · refine (h.readFull _ 1).mapError.bind fun version => ?_
    cases version.1 with
    | nil => exact .fail _
    | cons version _ =>
      simp only
      split_ifs
      · exact preserves_decryptV1Body h
      · exact preserves_decryptV2Body h
      · exact .fail _

end Decrypt

section Course

variable {α : Type} {d d' : Disk Path} {result : Option Bytes} {n k r : Nat} {f : α → BackupIo Unit}
  {d₁ : Disk Path}

/-- The output is not there, and what is written there can be deleted. -/
def Clear (out : Path) (d : Disk Path) : Prop :=
  d.files.lookup out = none ∧ d.stuck out = false

theorem passive_clear (out : Path) : Passive (Clear out) := ⟨id, id⟩

theorem stable_deletable (out : Path) : Stable out fun d => d.stuck out = false where
  advance := id
  accept := id
  put _ := id

/-- So many calls that change no file. -/
structure Closes (k : Nat) (c : BackupIo Unit) : Prop where
  keeps : Keeps files c
  succeeds_iff : ∀ d, Succeeds c d ↔ Quiet k d.faults

theorem closes_step : Closes 1 (io step) where
  keeps := keeps_step.mapError
  succeeds_iff _ := Reaches.step.mapError.succeeds_iff

theorem closes_finishOutput : Closes 3 finishOutput where
  keeps := fun _ => preserves_finishOutput ⟨id, id⟩
  succeeds_iff _ := reaches_finishOutput.succeeds_iff

/-- With so many calls the writer writes the result; without a result it fails. -/
inductive Produces (out : Path) (w : BackupIo Unit) (n : Nat) (d : Disk Path) :
    Option Bytes → Prop
  | writes {bytes : Bytes} (d' : Disk Path) (hw : Reaches w n d () d')
      (hout : d'.files.lookup out = some bytes) : Produces out w n d (some bytes)
  | fails (hw : ¬Succeeds w d) : Produces out w n d none

namespace Produces

theorem fail {e : BackupError} : Produces out (fail e) n d none := by
  refine .fails ?_
  rintro ⟨_, _, h⟩
  cases h

theorem bind {m : BackupIo α} {a : α} (hm : Reaches m r d a d₁)
    (hf : Produces out (f a) n d₁ result) : Produces out (m >>= f) (r + n) d result := by
  cases hf with
  | writes d' hw hout => exact .writes d' (hm.bind hw) hout
  | fails hw =>
    refine .fails fun h => ?_
    obtain ⟨a', d', hrun, h⟩ := succeeds_bind_iff.mp h
    obtain ⟨-, rfl, rfl⟩ := hm.ok_iff.mp hrun
    exact hw h

theorem flush {w : BackupIo Unit} (hw : Produces out w n d result) :
    Produces out (do w; io step) (n + 1) d result := by
  cases hw with
  | writes d' hw hout => exact .writes d'.advance (hw.bind Reaches.step.mapError) hout
  | fails hw =>
    refine .fails fun h => ?_
    obtain ⟨u, d', hrun, -⟩ := succeeds_bind_iff.mp h
    exact hw ⟨u, d', hrun⟩

end Produces

/-- How a function goes that is to write `result`, if there is one, with `n` calls and to close
the output with `k` more. Where it stops nothing is left, if the disk was as `I` says. -/
inductive Course (out : Path) (I : Disk Path → Prop) (m : BackupIo Unit) (d : Disk Path)
    (result : Option Bytes) (n k : Nat) : Prop
  | closes (bytes : Bytes) (c : BackupIo Unit) (d₁ : Disk Path) (hresult : result = some bytes)
      (hquiet : Quiet n d.faults) (hc : Closes k c) (hrun : m.run d = c.run d₁)
      (hout : d₁.files.lookup out = some bytes)
      (hfaults : d₁.faults = fun i => d.faults (i + n))
  | stops (e : BackupError) (d' : Disk Path) (hresult : result = none ∨ ¬Quiet n d.faults)
      (hrun : m.run d = (.error e, d')) (hgone : I d → d'.files.lookup out = none)

namespace Course

variable {m : BackupIo Unit} {J : Disk Path → Prop}

section

variable (h : Course out I m d result n k)
include h

theorem ok {u : Unit} (hrun : m.run d = (.ok u, d')) :
    ∃ bytes, result = some bytes ∧ Quiet (n + k) d.faults ∧ d'.files.lookup out = some bytes := by
  cases h with
  | closes bytes c d₁ hresult hquiet hc hcourse hout hfaults =>
    rw [hcourse] at hrun
    have hclose := (hc.succeeds_iff d₁).mp ⟨u, d', hrun⟩
    rw [hfaults] at hclose
    refine ⟨bytes, hresult, quiet_add.mpr ⟨hquiet, hclose⟩, ?_⟩
    rw [hc.keeps.of_run hrun, hout]
  | stops e d₁ hresult hcourse hgone =>
    rw [hcourse] at hrun
    cases hrun

theorem succeeds (hresult : result ≠ none) (hquiet : Quiet (n + k) d.faults) : Succeeds m d := by
  cases h with
  | closes bytes c d₁ _ _ hc hcourse _ hfaults =>
    rw [Succeeds, hcourse]
    refine (hc.succeeds_iff d₁).mpr ?_
    rw [hfaults]
    exact (quiet_add.mp hquiet).2
  | stops e d₁ hstop _ _ => exact absurd (quiet_add.mp hquiet).1 (hstop.resolve_left hresult)

/-- An error leaves something exactly if it comes from the calls that close the output. -/
theorem failsWith_iff (hd : I d) :
    FailsWith (fun d => d.files.lookup out = none) m d ↔
      ¬(result ≠ none ∧ Quiet n d.faults ∧ ¬Quiet (n + k) d.faults) := by
  cases h with
  | closes bytes c d₁ hresult hquiet hc hcourse hout hfaults =>
    have hclose : Succeeds c d₁ ↔ Quiet (n + k) d.faults := by
      rw [hc.succeeds_iff, quiet_add, hfaults, and_iff_right hquiet]
    constructor
    · rintro hfails ⟨-, -, hloud⟩
      obtain hok | ⟨e, d₂, herror⟩ := run_cases c d₁
      · exact hloud (hclose.mp hok)
      · have hnone : d₂.files.lookup out = none := hfails e d₂ (hcourse.trans herror)
        rw [hc.keeps.of_run herror, hout] at hnone
        cases hnone
    · intro hcond e d₂ herror
      by_contra
      refine hcond ⟨hresult ▸ Option.some_ne_none bytes, hquiet, fun hall => ?_⟩
      obtain ⟨u, d₃, hok⟩ := hclose.mpr hall
      rw [hcourse, hok] at herror
      cases herror
  | stops e d₁ hstop hcourse hgone =>
    constructor
    · rintro - ⟨hresult, hquiet, -⟩
      exact hstop.elim hresult fun h => h hquiet
    · intro _ e' d₂ herror
      rw [hcourse] at herror
      cases herror
      exact hgone hd

theorem mono (hI : J d → I d) : Course out J m d result n k := by
  cases h with
  | closes bytes c d₁ hresult hquiet hc hrun hout hfaults =>
    exact .closes bytes c d₁ hresult hquiet hc hrun hout hfaults
  | stops e d₁ hresult hrun hgone => exact .stops e d₁ hresult hrun fun hd => hgone (hI hd)

end

theorem fail {e : BackupError} : Course out (Clear out) (fail e) d none n k :=
  .stops e d (.inl rfl) rfl fun h => h.1

/-- First `r` calls, and then the rest. -/
theorem bind {m : BackupIo α} {a : α} (hm : Reaches m r d a d₁)
    (herror : ∀ e d', m.run d = (.error e, d') → I d → d'.files.lookup out = none)
    (hok : m.run d = (.ok a, d₁) → I d → J d₁) (hf : Course out J (f a) d₁ result n k) :
    Course out I (m >>= f) d result (r + n) k := by
  by_cases hquiet : Quiet r d.faults
  · have hall : Quiet n d₁.faults ↔ Quiet (r + n) d.faults := by
      rw [hm.quiet_iff, and_iff_right hquiet]
    have hrun : (m >>= f).run d = (f a).run d₁ := run_bind_of_ok (hm.run hquiet)
    cases hf with
    | closes bytes c d₂ hresult hquiet' hc hrest hout hfaults =>
      exact .closes bytes c d₂ hresult (hall.mp hquiet') hc (hrun.trans hrest) hout
        (hm.shift hfaults)
    | stops e d₂ hresult hrest hgone =>
      exact .stops e d₂ (hresult.imp_right (mt hall.mpr)) (hrun.trans hrest) fun hd =>
        hgone (hok (hm.run hquiet) hd)
  · obtain h | ⟨e, d', h⟩ := run_cases m d
    · exact absurd (hm.succeeds_iff.mp h) hquiet
    · exact .stops e d' (.inr fun hall => hquiet (hm.quiet_iff.mp hall).1) (run_bind_of_error h)
        (herror e d' h)

/-- First `r` calls that write nothing. -/
theorem passive_bind {m : BackupIo α} {a : α} (hm : Reaches m r d a d₁)
    (hkept : Preserves (Clear out) m) (hf : Course out (Clear out) (f a) d₁ result n k) :
    Course out (Clear out) (m >>= f) d result (r + n) k :=
  .bind hm (fun _ _ h hd => (hkept.of_run hd h).1) (fun h hd => hkept.of_run hd h) hf

/-- A guarded writer that can only write to the output. -/
theorem guarded {w c : BackupIo Unit} (hc : Closes k c)
    (hkept : ∀ {I : Disk Path → Prop}, Stable out I → Preserves I w)
    (hw : Produces out w n d result) :
    Course out (fun d => d.stuck out = false)
      (do w.onError (io (removeFile out)); c) d result n k := by
  obtain ⟨u, d₁, hrun⟩ | ⟨e, d₁, hrun⟩ := run_cases w d
  · cases hw with
    | writes d' hw hout =>
      obtain ⟨hquiet, -, rfl⟩ := hw.ok_iff.mp hrun
      exact .closes _ c d₁ rfl hquiet hc (run_bind_of_ok (run_onError_ok_iff.mpr hrun)) hout
        hw.faults_eq
    | fails hw => exact absurd ⟨u, d₁, hrun⟩ hw
  · refine .stops e ((io (removeFile out)).run d₁).2 ?_
      (run_bind_of_error (run_onError_of_error hrun)) fun hd =>
        lookup_removeFile ((hkept (stable_deletable out)).of_run hd hrun)
    cases hw with
    | writes d' hw hout =>
      refine .inr fun hquiet => ?_
      rw [hw.run hquiet] at hrun
      cases hrun
    | fails hw => exact .inl rfl

end Course

end Course

end OtelSqlite.Backup
