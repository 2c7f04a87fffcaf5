import Mathlib.Data.List.AList
import OtelSqlite.Lib.Fallible

/-!
# Files, failing calls and short reads

Files are a finite map from paths to bytes. Every call but a deletion takes the
next entry of `faults` and fails if it says so; the deletion of a path fails if
the path is `stuck`. A read returns as many bytes as the next entry of `offers`
says, at least one unless the file is at its end or the buffer is empty.

An open file is read from the bytes it had when it was opened, so a program that
writes a file it is reading is outside this model.
-/

namespace OtelSqlite.Lib

abbrev Bytes := List UInt8

inductive FileError where
  | notFound
  | alreadyExists
  | other
  deriving DecidableEq, Repr

structure Disk (P : Type) where
  files : AList fun _ : P => Bytes
  offers : Nat → Nat
  faults : Nat → Bool
  stuck : P → Bool

namespace Disk

open Fallible

variable {P : Type} {d d' : Disk P} {rest : Bytes} {len : Nat} {u : Unit}

/-- One more call has been made. -/
def advance (d : Disk P) : Disk P := { d with faults := fun i => d.faults (i + 1) }

/-- One more read has been answered. -/
def accept (d : Disk P) : Disk P := { d with offers := fun i => d.offers (i + 1) }

@[simp] theorem advance_files (d : Disk P) : d.advance.files = d.files := rfl
@[simp] theorem advance_offers (d : Disk P) : d.advance.offers = d.offers := rfl
@[simp] theorem advance_faults (d : Disk P) :
    d.advance.faults = fun i => d.faults (i + 1) := rfl
@[simp] theorem advance_stuck (d : Disk P) : d.advance.stuck = d.stuck := rfl
@[simp] theorem accept_files (d : Disk P) : d.accept.files = d.files := rfl
@[simp] theorem accept_offers (d : Disk P) :
    d.accept.offers = fun i => d.offers (i + 1) := rfl
@[simp] theorem accept_faults (d : Disk P) : d.accept.faults = d.faults := rfl
@[simp] theorem accept_stuck (d : Disk P) : d.accept.stuck = d.stuck := rfl

/-- A call without any effect on the files. -/
def step : Fallible (Disk P) FileError Unit :=
  ⟨fun d => if d.faults 0 then (.error .other, d.advance) else (.ok (), d.advance)⟩

theorem keeps_step : Keeps files (step (P := P)) := by
  intro files d hd
  cases h : d.faults 0 <;> simp [step, h, hd]

theorem step_ok_iff : step.run d = (.ok u, d') ↔ d.faults 0 = false ∧ d' = d.advance := by
  cases h : d.faults 0 <;> simp [step, h, eq_comm (a := d')]

theorem step_bind_ok_iff {α : Type} {f : Unit → Fallible (Disk P) FileError α} {a : α} :
    (step >>= f).run d = (.ok a, d') ↔
      d.faults 0 = false ∧ (f ()).run d.advance = (.ok a, d') := by
  rw [run_bind_ok_iff]
  constructor
  · rintro ⟨_, _, hstep, h⟩
    obtain ⟨hfault, rfl⟩ := step_ok_iff.mp hstep
    exact ⟨hfault, h⟩
  · rintro ⟨hfault, h⟩
    exact ⟨(), _, step_ok_iff.mpr ⟨hfault, rfl⟩, h⟩

section Files

variable [DecidableEq P] {p q : P}

/-- The file at `p` now holds `bytes`. -/
def put (d : Disk P) (p : P) (bytes : Bytes) : Disk P := { d with files := d.files.insert p bytes }

/-- There is no file at `p` any more. -/
def delete (d : Disk P) (p : P) : Disk P := { d with files := d.files.erase p }

@[simp] theorem put_offers (d : Disk P) (p : P) (bytes : Bytes) :
    (d.put p bytes).offers = d.offers := rfl

@[simp] theorem put_faults (d : Disk P) (p : P) (bytes : Bytes) :
    (d.put p bytes).faults = d.faults := rfl

@[simp] theorem put_stuck (d : Disk P) (p : P) (bytes : Bytes) :
    (d.put p bytes).stuck = d.stuck := rfl

@[simp] theorem lookup_put (d : Disk P) (p : P) (bytes : Bytes) :
    (d.put p bytes).files.lookup p = some bytes := AList.lookup_insert ..

@[simp] theorem lookup_put_ne (h : q ≠ p) (bytes : Bytes) :
    (d.put p bytes).files.lookup q = d.files.lookup q := AList.lookup_insert_ne h

@[simp] theorem lookup_delete (d : Disk P) (p : P) : (d.delete p).files.lookup p = none :=
  AList.lookup_erase ..

@[simp] theorem lookup_delete_ne (h : q ≠ p) :
    (d.delete p).files.lookup q = d.files.lookup q := AList.lookup_erase_ne h

def exist (p : P) : Fallible (Disk P) FileError Bool :=
  ⟨fun d => (.ok (d.files.lookup p).isSome, d)⟩

def openFile (p : P) : Fallible (Disk P) FileError Bytes := do
  step
  ⟨fun d =>
    match d.files.lookup p with
    | some bytes => (.ok bytes, d)
    | none => (.error .notFound, d)⟩

/-- `create_new`: refuses a path that exists. -/
def createNew (p : P) : Fallible (Disk P) FileError Unit := do
  step
  ⟨fun d =>
    if (d.files.lookup p).isSome then (.error .alreadyExists, d)
    else (.ok (), d.put p [])⟩

/-- `create`: empties a file that exists. -/
def create (p : P) : Fallible (Disk P) FileError Unit := do
  step
  ⟨fun d => (.ok (), d.put p [])⟩

def writeAll (p : P) (bytes : Bytes) : Fallible (Disk P) FileError Unit := do
  step
  ⟨fun d => (.ok (), d.put p ((d.files.lookup p).getD [] ++ bytes))⟩

def removeFile (p : P) : Fallible (Disk P) FileError Unit :=
  ⟨fun d =>
    if d.stuck p then (.error .other, d)
    else
      match d.files.lookup p with
      | some _ => (.ok (), d.delete p)
      | none => (.error .notFound, d)⟩

theorem openFile_ok_iff {bytes : Bytes} :
    (openFile p).run d = (.ok bytes, d') ↔
      d.faults 0 = false ∧ d.files.lookup p = some bytes ∧ d' = d.advance := by
  rw [openFile, step_bind_ok_iff]
  cases hl : d.files.lookup p <;> simp [hl, eq_comm (a := d')]

theorem createNew_ok_iff :
    (createNew p).run d = (.ok u, d') ↔
      d.faults 0 = false ∧ d.files.lookup p = none ∧
        d' = d.advance.put p [] := by
  rw [createNew, step_bind_ok_iff]
  cases hl : d.files.lookup p <;> simp [hl, eq_comm (a := d')]

theorem create_ok_iff :
    (create p).run d = (.ok u, d') ↔
      d.faults 0 = false ∧ d' = d.advance.put p [] := by
  rw [create, step_bind_ok_iff]
  simp [eq_comm (a := d')]

/-- A creation that fails creates nothing. -/
theorem failsWith_create (h : d.files.lookup p = none) :
    FailsWith (fun d => d.files.lookup p = none) (create p) d ∧
      FailsWith (fun d => d.files.lookup p = none) (createNew p) d := by
  have hstep := (keeps_step (P := P)).preserves (Q := fun files => files.lookup p = none)
  refine ⟨failsWith_bind_iff.mpr ⟨hstep.failsWith h, fun _ d₁ _ e d₂ herror => ?_⟩,
    failsWith_bind_iff.mpr ⟨hstep.failsWith h, fun _ d₁ hrun e d₂ herror => ?_⟩⟩
  · cases herror
  · obtain ⟨-, rfl⟩ := step_ok_iff.mp hrun
    simp [h] at herror

theorem writeAll_ok_iff {bytes : Bytes} :
    (writeAll p bytes).run d = (.ok u, d') ↔
      d.faults 0 = false ∧
        d' = d.advance.put p ((d.files.lookup p).getD [] ++ bytes) := by
  rw [writeAll, step_bind_ok_iff]
  simp [eq_comm (a := d')]

/-- What is there after a deletion that was not refused. -/
theorem lookup_removeFile (h : d.stuck p = false) :
    ((removeFile p).run d).2.files.lookup p = none := by
  cases hl : d.files.lookup p <;> simp [removeFile, h, hl]

/-- A deletion brings nothing back. -/
theorem absent_removeFile (q : P) :
    Preserves (fun d => d.files.lookup p = none) (removeFile q) := by
  intro d hd
  by_cases h : p = q
  · subst h
    cases hstuck : d.stuck p <;> simp [removeFile, hstuck, hd]
  · cases hstuck : d.stuck q <;> cases hl : d.files.lookup q <;>
      simp [removeFile, hstuck, hl, h, hd]

end Files

section Quiet

variable {faults : Nat → Bool}

/-- The next `n` calls do not fail. -/
def Quiet (n : Nat) (faults : Nat → Bool) : Prop := ∀ i < n, faults i = false

theorem quiet_zero (faults : Nat → Bool) : Quiet 0 faults := fun i hi => absurd hi (by omega)

theorem quiet_succ {n : Nat} :
    Quiet (n + 1) faults ↔ faults 0 = false ∧ Quiet n fun i => faults (i + 1) := by
  constructor
  · intro h
    exact ⟨h 0 (by omega), fun i hi => h (i + 1) (by omega)⟩
  · intro h i hi
    cases i with
    | zero => exact h.1
    | succ i => exact h.2 i (by omega)

theorem quiet_one : Quiet 1 faults ↔ faults 0 = false := by
  simp [quiet_succ, quiet_zero]

theorem quiet_add {m n : Nat} :
    Quiet (m + n) faults ↔ Quiet m faults ∧ Quiet n fun i => faults (i + m) := by
  induction m generalizing faults with
  | zero => simp [quiet_zero]
  | succ m ih =>
    rw [Nat.succ_add, quiet_succ, quiet_succ, ih, and_assoc]
    simp only [Nat.add_assoc]

end Quiet

section Reads

/-- What one read of `len` bytes may return of the bytes that are left. -/
abbrev Chunk (rest : Bytes) (len : Nat) : Type :=
  { chunk : Bytes // chunk <+: rest ∧ chunk.length ≤ len ∧ (chunk = [] → rest = [] ∨ len = 0) }

/-- The chunk a read returns that was offered `n` bytes. -/
def Chunk.of (rest : Bytes) (len n : Nat) : Chunk rest len :=
  ⟨rest.take (min (max 1 n) len), List.take_prefix .., by rw [List.length_take]; omega, by
    intro h
    rcases List.take_eq_nil_iff.mp h with h | h
    · right; omega
    · exact .inl h⟩

def read (rest : Bytes) (len : Nat) : Fallible (Disk P) FileError (Chunk rest len) := do
  step
  ⟨fun d => (.ok (.of rest len (d.offers 0)), d.accept)⟩

theorem read_ok_iff {chunk : Chunk rest len} :
    (read rest len).run d = (.ok chunk, d') ↔
      d.faults 0 = false ∧ chunk = .of rest len (d.offers 0) ∧ d' = d.advance.accept := by
  rw [read, step_bind_ok_iff]
  simp [eq_comm (a := d'), eq_comm (a := chunk)]

/-- What is left after a chunk that is not empty is shorter. -/
theorem Chunk.drop_lt (chunk : Chunk rest len) (h : chunk.1 ≠ []) :
    (rest.drop chunk.1.length).length < rest.length := by
  have hpos : 0 < chunk.1.length := List.length_pos_iff.mpr h
  have hle := chunk.2.1.length_le
  rw [List.length_drop]
  omega

theorem Chunk.append_drop (chunk : Chunk rest len) : chunk.1 ++ rest.drop chunk.1.length = rest :=
  List.prefix_iff_eq_append.mp chunk.2.1

/-- A chunk and the rest of the request together are what was asked for. -/
theorem Chunk.append_take (chunk : Chunk rest len) :
    chunk.1 ++ (rest.drop chunk.1.length).take (len - chunk.1.length) = rest.take len := by
  obtain ⟨hpre, hle, -⟩ := chunk.2
  have hk : len = chunk.1.length + (len - chunk.1.length) := by omega
  conv_rhs => rw [hk, List.take_add, ← List.prefix_iff_eq_take.mp hpre]

theorem Chunk.take_eq_nil (chunk : Chunk rest len) (h : chunk.1 = []) : rest.take len = [] := by
  obtain rfl | rfl := chunk.2.2.2 h <;> simp

/-- Read until `len` bytes are there or the file ends. -/
def readFull (rest : Bytes) (len : Nat) :
    Fallible (Disk P) FileError { bytes : Bytes // bytes = rest.take len } :=
  if h : len = 0 then pure ⟨[], by simp [h]⟩
  else do
    let chunk ← read rest len
    if hchunk : chunk.1 = [] then
      pure ⟨[], (chunk.take_eq_nil hchunk).symm⟩
    else do
      let more ← readFull (rest.drop chunk.1.length) (len - chunk.1.length)
      pure ⟨chunk.1 ++ more.1, by rw [more.2, chunk.append_take]⟩
termination_by len
decreasing_by
  have hpos : 0 < chunk.1.length := List.length_pos_iff.mpr hchunk
  omega

section Independent

variable [DecidableEq P]

/-- Calls that write nothing leave the property alone. -/
structure Passive (I : Disk P → Prop) : Prop where
  advance : ∀ {d}, I d → I d.advance
  accept : ∀ {d}, I d → I d.accept

/-- Writes of the file at `out` leave the property alone too. -/
structure Stable (out : P) (I : Disk P → Prop) : Prop extends Passive I where
  put : ∀ {d} bytes, I d → I (d.put out bytes)

/-- The property has nothing to do with the file at `out` nor with the calls made. -/
structure Independent (out : P) (I : Disk P → Prop) : Prop extends Stable out I where
  delete : ∀ {d}, I d → I (d.delete out)

variable {out p : P} {I : Disk P → Prop}

namespace Passive

omit [DecidableEq P] in
theorem step (h : Passive I) : Preserves I step := by
  intro d hd
  cases hf : d.faults 0 <;> simpa [Disk.step, hf] using h.advance hd

theorem openFile (h : Passive I) (p : P) : Preserves I (openFile p) := by
  refine h.step.bind fun _ d hd => ?_
  cases hl : d.files.lookup p <;> simpa [hl] using hd

omit [DecidableEq P] in
theorem read (h : Passive I) (rest : Bytes) (len : Nat) : Preserves I (read rest len) :=
  h.step.bind fun _ _ hd => h.accept hd

omit [DecidableEq P] in
theorem readFull (h : Passive I) (rest : Bytes) (len : Nat) :
    Preserves I (readFull rest len) := by
  induction len using Nat.strong_induction_on generalizing rest with
  | _ len ih =>
    rw [Disk.readFull]
    split_ifs with hlen
    · exact .pure _
    · refine (h.read rest len).bind fun chunk => ?_
      split_ifs with hchunk
      · exact .pure _
      · have hpos : 0 < chunk.1.length := List.length_pos_iff.mpr hchunk
        exact (ih _ (by omega) _).bind fun _ => .pure _

end Passive

namespace Stable

theorem create (h : Stable out I) : Preserves I (create out) :=
  h.step.bind fun _ _ hd => h.put [] hd

theorem createNew (h : Stable out I) : Preserves I (createNew out) := by
  refine h.step.bind fun _ d hd => ?_
  cases hl : d.files.lookup out
  · simpa [hl] using h.put [] hd
  · simpa [hl] using hd

theorem writeAll (h : Stable out I) (bytes : Bytes) : Preserves I (writeAll out bytes) :=
  h.step.bind fun _ _ hd => h.put _ hd

end Stable

theorem independent_lookup {content : Option Bytes} (h : p ≠ out) :
    Independent out fun d => d.files.lookup p = content where
  advance := id
  accept := id
  put bytes hd := (lookup_put_ne h bytes).trans hd
  delete hd := (lookup_delete_ne h).trans hd

theorem independent_stuck (out : P) {stuck : P → Bool} :
    Independent out fun d => d.stuck = stuck where
  advance := id
  accept := id
  put _ := id
  delete := id

namespace Independent

theorem removeFile (h : Independent out I) : Preserves I (removeFile out) := by
  intro d hd
  cases hstuck : d.stuck out <;> cases hl : d.files.lookup out
  · simpa [Disk.removeFile, hstuck, hl] using hd
  · simpa [Disk.removeFile, hstuck, hl] using h.delete hd
  · simpa [Disk.removeFile, hstuck] using hd
  · simpa [Disk.removeFile, hstuck] using hd

end Independent

end Independent

end Reads

section Counts

/-- So many calls have been made and so many of them were reads. -/
def skip (d : Disk P) (calls reads : Nat) : Disk P :=
  { d with
    faults := fun i => d.faults (i + calls)
    offers := fun i => d.offers (i + reads) }

theorem skip_skip (d : Disk P) (calls reads calls' reads' : Nat) :
    (d.skip calls reads).skip calls' reads' = d.skip (calls + calls') (reads + reads') := by
  simp only [skip, Nat.add_comm, Nat.add_left_comm]

/-- The reads of a full read. -/
def readCalls (offers : Nat → Nat) (rest : Bytes) (len : Nat) : Nat :=
  if _ : len = 0 then 0
  else
    let chunk := Chunk.of rest len (offers 0)
    if _ : chunk.1 = [] then 1
    else
      readCalls (fun i => offers (i + 1)) (rest.drop chunk.1.length) (len - chunk.1.length) + 1
termination_by len
decreasing_by
  have hpos : 0 < (Chunk.of rest len (offers 0)).1.length := List.length_pos_iff.mpr ‹_›
  omega

/-- No call fails. -/
def Reliable (d : Disk P) : Prop := ∀ i, d.faults i = false

end Counts

section Reaches

variable {ε ε' α β : Type} {m : Fallible (Disk P) ε α} {f : α → Fallible (Disk P) ε β}
  {n k : Nat} {d d₁ d₂ : Disk P} {a : α} {b : β} {p : P}

/-- So many calls lead to the value and the disk if none of them fails. -/
structure Reaches (m : Fallible (Disk P) ε α) (n : Nat) (d : Disk P) (a : α) (d₁ : Disk P) :
    Prop where
  ok_iff : ∀ {a' d'}, m.run d = (.ok a', d') ↔ Quiet n d.faults ∧ a' = a ∧ d' = d₁
  faults_eq : d₁.faults = fun i => d.faults (i + n)

namespace Reaches

section

variable (h : Reaches m n d a d₁)
include h

theorem run (hquiet : Quiet n d.faults) : m.run d = (.ok a, d₁) :=
  h.ok_iff.mpr ⟨hquiet, rfl, rfl⟩

theorem succeeds_iff : Succeeds m d ↔ Quiet n d.faults :=
  ⟨fun ⟨_, _, hrun⟩ => (h.ok_iff.mp hrun).1, fun hquiet => ⟨a, d₁, h.run hquiet⟩⟩

theorem quiet_iff : Quiet (n + k) d.faults ↔ Quiet n d.faults ∧ Quiet k d₁.faults := by
  rw [quiet_add, h.faults_eq]

theorem shift (hk : d₂.faults = fun i => d₁.faults (i + k)) :
    d₂.faults = fun i => d.faults (i + (n + k)) := by
  rw [hk, h.faults_eq]
  funext i
  exact congrArg d.faults (by omega)

end

theorem pure : Reaches (pure a : Fallible (Disk P) ε α) 0 d a d where
  ok_iff := by simp [quiet_zero, eq_comm]
  faults_eq := rfl

theorem bind (hm : Reaches m n d a d₁) (hf : Reaches (f a) k d₁ b d₂) :
    Reaches (m >>= f) (n + k) d b d₂ where
  ok_iff {b' d'} := by
    rw [run_bind_ok_iff, hm.quiet_iff, and_assoc, ← hf.ok_iff]
    constructor
    · rintro ⟨a', d₁', hrun, h⟩
      obtain ⟨hquiet, rfl, rfl⟩ := hm.ok_iff.mp hrun
      exact ⟨hquiet, h⟩
    · rintro ⟨hquiet, h⟩
      exact ⟨a, d₁, hm.run hquiet, h⟩
  faults_eq := hm.shift hf.faults_eq

theorem mapError {g : ε → ε'} (h : Reaches m n d a d₁) : Reaches (mapError g m) n d a d₁ where
  ok_iff := run_mapError_ok_iff.trans h.ok_iff
  faults_eq := h.faults_eq

theorem step : Reaches Disk.step 1 d () d.advance where
  ok_iff := by simp [step_ok_iff, quiet_one]
  faults_eq := rfl

theorem read : Reaches (read rest len) 1 d (.of rest len (d.offers 0)) d.advance.accept where
  ok_iff := by simp [read_ok_iff, quiet_one]
  faults_eq := rfl

section Files

variable [DecidableEq P] {bytes : Bytes}

theorem openFile (h : d.files.lookup p = some bytes) :
    Reaches (openFile p) 1 d bytes d.advance where
  ok_iff {a' d'} := by simp [openFile_ok_iff, quiet_one, h, eq_comm (a := a')]
  faults_eq := rfl

theorem createNew (h : d.files.lookup p = none) :
    Reaches (createNew p) 1 d () (d.advance.put p []) where
  ok_iff := by simp [createNew_ok_iff, quiet_one, h]
  faults_eq := rfl

theorem create : Reaches (create p) 1 d () (d.advance.put p []) where
  ok_iff := by simp [create_ok_iff, quiet_one]
  faults_eq := rfl

theorem writeAll :
    Reaches (writeAll p bytes) 1 d ()
      (d.advance.put p ((d.files.lookup p).getD [] ++ bytes)) where
  ok_iff := by simp [writeAll_ok_iff, quiet_one]
  faults_eq := rfl

end Files

/-- A full read returns what was asked for, however the disk chunks it. -/
theorem readFull (bytes : { bytes : Bytes // bytes = rest.take len }) :
    Reaches (readFull rest len) (readCalls d.offers rest len) d bytes
      (d.skip (readCalls d.offers rest len) (readCalls d.offers rest len)) := by
  induction len using Nat.strong_induction_on generalizing rest d with
  | _ len ih =>
    -- there is only one value to return
    have hpure (bytes' : { bytes : Bytes // bytes = rest.take len }) (d : Disk P) :
        Reaches (Pure.pure bytes' : Fallible (Disk P) FileError _) 0 d bytes d :=
      Subsingleton.elim bytes' bytes ▸ pure
    rw [Disk.readFull, readCalls]
    by_cases hlen : len = 0
    · rw [dif_pos hlen, dif_pos hlen]
      exact hpure _ d
    · rw [dif_neg hlen, dif_neg hlen]
      by_cases hnil : (Chunk.of rest len (d.offers 0)).1 = []
      · rw [dif_pos hnil]
        refine read.bind (k := 0) ?_
        rw [dif_pos hnil]
        exact hpure _ _
      · have hpos := List.length_pos_iff.mpr hnil
        have hrest := @ih (len - (Chunk.of rest len (d.offers 0)).1.length) (by omega)
          (rest.drop (Chunk.of rest len (d.offers 0)).1.length) (d.skip 1 1) ⟨_, rfl⟩
        rw [dif_neg hnil, Nat.add_comm, ← skip_skip]
        refine read.bind ?_
        rw [dif_neg hnil]
        exact hrest.bind (k := 0) (hpure _ _)

end Reaches

end Reaches

end Disk

end OtelSqlite.Lib
