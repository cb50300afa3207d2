/-
Records in a directory, and what a save that fails does to them.

`save` opens the file of the workload with truncation and writes over it, so from the open
on the old record is gone, and what is there until the last byte is out is a truncated one.
A directory is a map from file names to contents; a save can fail to open the file, fail in
the middle of the write, be stopped there together with the process, or lose bytes that
were still buffered when it returned.

* **`record_kept_iff`** — the last record that was accepted can be loaded after a save
  exactly if no byte of the new one is missing, or nothing of it was needed;
* **`previous_record_lost`** — a process that is stopped behind the open leaves an empty file,
  and so does a flush that fails behind an ALLOW.
-/
import Mathlib.Data.List.AList
import WorkloadFabric.Corruption
import WorkloadFabric.Descriptor

namespace WorkloadFabric

/-- How a save can go wrong, and how many bytes are then in the file. -/
inductive SaveFault where
  /-- There is no directory or no file to be had. -/
  | opening
  /-- `write` fails, as it does only with a record that is larger than the stream's buffer. -/
  | writing (written : ℕ)
  /-- The process ends. -/
  | stopped (written : ℕ)
  /-- The stream is flushed by its destructor, which reports nothing. -/
  | flushing (written : ℕ)
deriving DecidableEq

/-- Records in the files of a directory. -/
structure FileStateStore (order : EvalOrder) where
  files : AList (fun _ : Text => List UInt8) := ∅

namespace FileStateStore

variable {order : EvalOrder}

/-- `filePath`, inside the directory. -/
def fileName (id : WorkloadId) : Text := text "wf-" ++ decimal id.toU64.toNat ++ text ".bin"

/-- What `std::ios::trunc` and the write leave: these bytes, and nothing of the old ones. -/
def overwrite (s : FileStateStore order) (id : WorkloadId) (bytes : List UInt8) :
    FileStateStore order :=
  ⟨s.files.insert (fileName id) bytes⟩

/-- The outcome is `none` when the process is stopped before there is one. -/
def save (s : FileStateStore order) (w : Workload) (fault : Option SaveFault) :
    Option Outcome × FileStateStore order :=
  let bytes := encodeWorkload w
  match fault with
  | some .opening => (some .rejectUnknown, s)
  | some (.writing n) => (some .rejectUnknown, s.overwrite w.id (bytes.take n))
  | some (.stopped n) => (none, s.overwrite w.id (bytes.take n))
  | some (.flushing n) => (some .allow, s.overwrite w.id (bytes.take n))
  | none => (some .allow, s.overwrite w.id bytes)

/-- Reading is taken to work as soon as there is a file. -/
def load (s : FileStateStore order) (id : WorkloadId) : Option LoadResult :=
  match s.files.lookup (fileName id) with
  | none => some { outcome := .rejectWorkloadNotFound, error := text "file not found" }
  | some data => do
    let (status, w) ← decodeWorkload order data
    if isAllow status then return { workload := some w, outcome := .allow }
    else return { outcome := status, error := text "corrupt/truncated record" }

/-- `true` when there was a file to remove. -/
def remove (s : FileStateStore order) (id : WorkloadId) : Bool × FileStateStore order :=
  (decide (fileName id ∈ s.files), ⟨s.files.erase (fileName id)⟩)

/-! ### Loading -/

/-- `load` returns this workload. -/
def Loads (s : FileStateStore order) (id : WorkloadId) (w : Workload) : Prop :=
  s.load id = some { workload := some w, outcome := .allow }

/-- **What is loaded is what the record decodes to.** -/
theorem loads_iff {s : FileStateStore order} {id : WorkloadId} {data : List UInt8}
    (h : s.files.lookup (fileName id) = some data) (w : Workload) :
    s.Loads id w ↔ decodeWorkload order data = some (.allow, w) := by
  rw [Loads, load, h]
  dsimp only
  rcases decodeWorkload order data with _ | ⟨status, w₀⟩
  · simp
  · by_cases hs : status = .allow
    · subst hs
      simp [isAllow]
    · have hne : isAllow status = false := by simpa [isAllow] using hs
      rw [Option.bind_eq_bind, Option.bind_some, if_neg (by simp [hne])]
      simp [hs]

theorem lookup_overwrite (s : FileStateStore order) (id : WorkloadId) (bytes : List UInt8) :
    (s.overwrite id bytes).files.lookup (fileName id) = some bytes :=
  AList.lookup_insert _

/-- A record that is cut off is not decoded. -/
theorem decode_take_iff {w w₁ : Workload} (hsize : (encodeWorkload w).length < 2 ^ 64) (n : ℕ) :
    decodeWorkload order ((encodeWorkload w).take n) = some (.allow, w₁) ↔
      (encodeWorkload w).length ≤ n ∧
        decodeWorkload order (encodeWorkload w) = some (.allow, w₁) := by
  rcases Nat.lt_or_ge n (encodeWorkload w).length with hn | hn
  · have hrej : decodeWorkload order ((encodeWorkload w).take n) = some (.rejectUnknown, {}) :=
      decodeWorkload_of_frame_rejected (frame_take_rejected hsize hn)
    simp [hrej, hn.not_ge]
  · rw [List.take_of_length_le hn, and_iff_right hn]

/-! ### Saving over a record -/

/-- The record of `w` as it was saved. -/
def Holds (s : FileStateStore order) (w : Workload) : Prop :=
  s.files.lookup (fileName w.id) = some (encodeWorkload w)

theorem holds_save (s : FileStateStore order) (w : Workload) : (s.save w none).2.Holds w :=
  s.lookup_overwrite w.id (encodeWorkload w)

/-- A save that does not return ALLOW leaves `w₀` to be loaded, and one that does leaves the
new workload, if that can be decoded at all. -/
structure KeepsRecord (s : FileStateStore order) (w₀ w' : Workload) (fault : Option SaveFault) :
    Prop where
  failed : (s.save w' fault).1 ≠ some .allow → (s.save w' fault).2.Loads w'.id w₀
  allowed : (s.save w' fault).1 = some .allow → ∀ w₁,
    decodeWorkload order (encodeWorkload w') = some (.allow, w₁) →
      (s.save w' fault).2.Loads w'.id w₁

/-- Nothing of the new record is missing, or nothing of it is needed. -/
def Harmless (order : EvalOrder) (w₀ w' : Workload) : Option SaveFault → Prop
  | none | some .opening => True
  | some (.writing n) | some (.stopped n) => (encodeWorkload w').length ≤ n ∧
      decodeWorkload order (encodeWorkload w') = some (.allow, w₀)
  | some (.flushing n) => (encodeWorkload w').length ≤ n ∨
      ∀ w₁, decodeWorkload order (encodeWorkload w') ≠ some (.allow, w₁)

/-- **A save keeps a record exactly if it is harmless**: for every state of the directory in
which a workload is saved, every later version of it, and every way to fail. -/
theorem record_kept_iff {s : FileStateStore order} {w w₀ w' : Workload} (hs : s.Holds w)
    (hw : decodeWorkload order (encodeWorkload w) = some (.allow, w₀)) (hid : w'.id = w.id)
    (hsize : (encodeWorkload w').length < 2 ^ 64) (fault : Option SaveFault) :
    s.KeepsRecord w₀ w' fault ↔ Harmless order w₀ w' fault := by
  have hload (n : ℕ) (w₁ : Workload) :
      (s.overwrite w'.id ((encodeWorkload w').take n)).Loads w'.id w₁ ↔
        (encodeWorkload w').length ≤ n ∧
          decodeWorkload order (encodeWorkload w') = some (.allow, w₁) :=
    (loads_iff (lookup_overwrite s _ _) w₁).trans (decode_take_iff hsize n)
  -- a failed save that has emptied the file has to make up for it
  have hfailed (fault : Option SaveFault) (n : ℕ) (ho : (s.save w' fault).1 ≠ some .allow)
      (hn : (s.save w' fault).2 = s.overwrite w'.id ((encodeWorkload w').take n)) :
      s.KeepsRecord w₀ w' fault ↔ (encodeWorkload w').length ≤ n ∧
        decodeWorkload order (encodeWorkload w') = some (.allow, w₀) := by
    rw [← hload, ← hn]
    exact ⟨fun h => h.failed ho, fun h => ⟨fun _ => h, fun hallow => absurd hallow ho⟩⟩
  rcases fault with _ | _ | n | n | n
  · -- the new record is there
    exact iff_of_true ⟨fun h => absurd rfl h, fun _ w₁ h =>
      (loads_iff (lookup_overwrite s _ _) w₁).mpr h⟩ trivial
  · -- the old one still is
    refine iff_of_true ⟨fun _ => (loads_iff ?_ w₀).mpr hw, fun h => absurd h (by simp [save])⟩
      trivial
    rw [hid]
    exact hs
  · exact hfailed _ n (by simp [save]) rfl
  · exact hfailed _ n (by simp [save]) rfl
  · -- ALLOW was returned before the bytes were out
    constructor
    · intro h
      by_cases hdec : ∃ w₁, decodeWorkload order (encodeWorkload w') = some (.allow, w₁)
      · obtain ⟨w₁, hw₁⟩ := hdec
        exact .inl ((hload n w₁).mp (h.allowed rfl w₁ hw₁)).1
      · exact .inr (not_exists.mp hdec)
    · intro h
      refine ⟨fun h => absurd rfl h, fun _ w₁ hw₁ => (hload n w₁).mpr ⟨?_, hw₁⟩⟩
      exact h.resolve_right fun hno => hno w₁ hw₁

/-- A workload, and the next version of it. -/
def firstVersion : Workload := Workload.create (.fromU64 1) (text "w") (text "job")

def secondVersion : Workload :=
  (firstVersion.transition .validating (.fromU64 1) (text "go") none).workload

theorem storable_firstVersion : firstVersion.contract.Storable :=
  ⟨by simp [firstVersion, Workload.create], by simp [firstVersion, Workload.create]⟩

theorem decode_firstVersion :
    decodeWorkload .leftToRight (encodeWorkload firstVersion) = some (.allow, firstVersion) :=
  decodeWorkload_encodeWorkload ⟨by decide, by decide, by decide, by decide, by decide, by decide⟩
    rfl storable_firstVersion (by decide) (by decide) (by decide) (by decide +kernel)

theorem decode_secondVersion :
    decodeWorkload .leftToRight (encodeWorkload secondVersion) = some (.allow, secondVersion) :=
  decodeWorkload_encodeWorkload ⟨by decide, by decide, by decide, by decide, by decide, by decide⟩
    rfl storable_firstVersion (by decide) (by decide) (by decide) (by decide +kernel)

/-- A file that cannot be opened is left alone. -/
theorem record_kept_opening :
    let s : FileStateStore .leftToRight := (save {} firstVersion none).2
    s.KeepsRecord firstVersion secondVersion (some .opening) ↔
      Harmless .leftToRight firstVersion secondVersion (some .opening) :=
  record_kept_iff (holds_save {} firstVersion) decode_firstVersion
    (rfl : secondVersion.id = firstVersion.id) (by decide +kernel) _

/-- Behind the open the process is stopped, or the disk is full: the stream has buffered the whole
record, and ALLOW has been returned when it finds out.  Neither version can be loaded then. -/
theorem previous_record_lost :
    let s : FileStateStore .leftToRight := (save {} firstVersion none).2
    ¬s.KeepsRecord firstVersion secondVersion (some (.stopped 0)) ∧
      ¬s.KeepsRecord firstVersion secondVersion (some (.flushing 0)) := by
  intro s
  have hlost (w : Workload) : ¬(s.overwrite secondVersion.id []).Loads secondVersion.id w := by
    rw [loads_iff (lookup_overwrite s secondVersion.id []) w,
      show decodeWorkload .leftToRight [] = some (.rejectUnknown, {}) from rfl]
    simp
  exact ⟨fun h => hlost _ (h.failed (by simp [save])),
    fun h => hlost _ (h.allowed rfl secondVersion decode_secondVersion)⟩

end FileStateStore

end WorkloadFabric
