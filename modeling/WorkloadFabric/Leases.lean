/-
Work that is handed out in leases.

A lease takes up the work where the count stands, and its holder reports what it has done
piece by piece and at last that it is done.  One lease is in force at a time, and of its
reports those count that are taken; a lease that was refused once is not taken again.

  - `Stretch` : what a lease still has to report, behind the units that it has reported;
  - `Whole.of_chunks` : it is there as a whole if the holder does the rest in chunks and says
    so at the end; `Whole.length_eq` counts the reports;
  - `Reading.cons`, `Reading.nil`, `Reading.ended_iff` : what a lease of which nothing is lost
    comes to, report by report;
  - `Standing` : a lease in force is in step with the count, or refused for good and behind;
  - `Standing.count_eq_iff` : at its end all the work is counted exactly when none was refused.
-/
import WorkloadFabric.Chunking

namespace Leases

universe u

/-- What a report says: so many further units, or that the work is done. -/
inductive Note where
  | piece (n : ℕ)
  | done
deriving DecidableEq

/-! ### What is left to report -/

section Stretch

variable {F : Type u} (note : F → Option Note) (total : ℕ)

/-- Reports from the unit `next` on, each with the units it is about.  They may break off, but
only behind the last unit do they say that the work is done. -/
inductive Stretch : ℕ → List (F × List ℕ) → Prop
  | broken {next : ℕ} : Stretch next []
  | piece {next n : ℕ} {f : F} {rest : List (F × List ℕ)} (hf : note f = some (.piece n))
      (hn : 0 < n) (hle : next + n ≤ total) (hrest : Stretch (next + n) rest) :
      Stretch next ((f, List.range' next n) :: rest)
  | done {f : F} (hf : note f = some .done) : Stretch total [(f, [])]

variable {note total}

/-- Reports that are lost are the last ones. -/
theorem Stretch.take {next : ℕ} {l : List (F × List ℕ)} (h : Stretch note total next l) (k : ℕ) :
    Stretch note total next (l.take k) := by
  induction h generalizing k with
  | broken =>
    rw [List.take_nil]
    exact .broken
  | piece hf hn hle _ ih =>
    cases k with
    | zero => exact .broken
    | succ k => exact .piece hf hn hle (ih k)
  | done hf =>
    cases k with
    | zero => exact .broken
    | succ k =>
      rw [List.take_succ_cons, List.take_nil]
      exact .done hf

/-- Nothing is lost of them: the work is done in chunks to its end, and then they say so. -/
inductive Whole (note : F → Option Note) (total chunk : ℕ) : ℕ → List (F × List ℕ) → Prop
  | piece {next : ℕ} {f : F} {rest : List (F × List ℕ)} (hlt : next < total)
      (hf : note f = some (.piece (min chunk (total - next))))
      (hrest : Whole note total chunk (next + min chunk (total - next)) rest) :
      Whole note total chunk next ((f, List.range' next (min chunk (total - next))) :: rest)
  | done {f : F} (hf : note f = some .done) : Whole note total chunk total [(f, [])]

variable {chunk : ℕ}

theorem Whole.stretch (hchunk : 0 < chunk) {next : ℕ} {l : List (F × List ℕ)}
    (h : Whole note total chunk next l) : Stretch note total next l := by
  induction h with
  | piece hlt hf _ ih => exact .piece hf (by omega) (by omega) ih
  | done hf => exact .done hf

/-- So many reports, the last of them that the work is done. -/
theorem Whole.length_eq (hchunk : 0 < chunk) {next : ℕ} {l : List (F × List ℕ)}
    (h : Whole note total chunk next l) : l.length = (total - next) ⌈/⌉ chunk + 1 := by
  induction h with
  | piece hlt _ _ ih =>
    rw [List.length_cons, ih, ← Chunking.ceilDiv_sub_min hchunk (Nat.sub_pos_of_lt hlt),
      Nat.sub_sub]
  | done => rw [Nat.sub_self, zero_ceilDiv, List.length_singleton]

/-- The rest of the work, done in chunks. -/
theorem Whole.of_chunks (hchunk : 0 < chunk) {report : ℕ → F} {last : F}
    (hreport : ∀ n ≤ chunk, note (report n) = some (.piece n)) (hlast : note last = some .done)
    {k n next : ℕ} (hn : next + n = total) :
    Whole note total chunk next
      ((((Chunking.atMost chunk hchunk).chunks k n).map report ++ [last]).zip
        (cut ((Chunking.atMost chunk hchunk).chunks k n ++ [0]) (List.range' next n))) := by
  induction k, n using (Chunking.atMost chunk hchunk).induction generalizing next with
  | zero k =>
    obtain rfl : next = total := hn
    rw [Chunking.chunks_zero]
    exact .done hlast
  | chunk k n hpos ih =>
    obtain rfl : n = total - next := by omega
    set size := min chunk (total - next)
    have hsize : (Chunking.atMost chunk hchunk).size k (total - next) = size := rfl
    have hsplit : List.range' next (total - next) =
        List.range' next size ++ List.range' (next + size) (total - next - size) := by
      rw [List.range'_append_1, Nat.add_sub_cancel' (Nat.min_le_right _ _)]
    have hlength : (List.range' next size).length = size := List.length_range'
    rw [Chunking.chunks_of_pos _ k hpos, hsize, hsplit, List.map_cons, List.cons_append,
      List.cons_append, cut, List.zip_cons_cons, List.take_left' hlength, List.drop_left' hlength]
    rw [hsize] at ih
    exact .piece (by omega) (hreport _ (Nat.min_le_left _ _)) (ih (by omega))

end Stretch

/-! ### How far a lease comes of which nothing is lost -/

section Reading

variable {F : Type u} (note : F → Option Note) (total chunk first : ℕ)

/-- So many reports have been read of a lease that began at `first`, and so much was counted;
what is left of it is there, or it has ended. -/
structure Reading (reads count : ℕ) (ended : Prop) (l : List (F × List ℕ)) : Prop where
  count_eq : count = min total (first + chunk * reads)
  length_eq : l.length = (total - first) ⌈/⌉ chunk + 1 - reads
  pending : (Whole note total chunk count l ∧ ¬ended) ∨ (l = [] ∧ total ≤ count ∧ ended)

variable {note total chunk first} {reads count : ℕ} {ended ended' : Prop}
  {f : F} {units : List ℕ} {l : List (F × List ℕ)}

namespace Reading

theorem begin (hchunk : 0 < chunk) (hfirst : first ≤ total) (h : Whole note total chunk first l)
    (hended : ¬ended) : Reading note total chunk first 0 first ended l where
  count_eq := by rw [Nat.mul_zero, Nat.add_zero, Nat.min_eq_right hfirst]
  length_eq := h.length_eq hchunk
  pending := .inl ⟨h, hended⟩

/-- The next report is about a chunk, or it is the last. -/
theorem cons (h : Reading note total chunk first reads count ended ((f, units) :: l)) :
    (∃ n, note f = some (.piece n) ∧ count + n ≤ total ∧ ¬ended ∧
        ∀ {ended'}, ¬ended' → Reading note total chunk first (reads + 1) (count + n) ended' l) ∨
      (note f = some .done ∧
        ∀ {ended'}, ended' → Reading note total chunk first (reads + 1) count ended' l) := by
  have hcount := h.count_eq
  have hmul := Nat.mul_add_one chunk reads
  have hlength : l.length = (total - first) ⌈/⌉ chunk + 1 - (reads + 1) := by
    rw [← Nat.sub_sub, ← h.length_eq, List.length_cons, Nat.add_sub_cancel]
  obtain ⟨hwhole, hn⟩ := h.pending.resolve_right fun hnil => List.cons_ne_nil _ _ hnil.1
  cases hwhole with
  | piece hlt hf hrest =>
    exact .inl ⟨_, hf, by omega, hn, fun hended => ⟨by omega, hlength, .inl ⟨hrest, hended⟩⟩⟩
  | done hf => exact .inr ⟨hf, fun hended => ⟨by omega, hlength, .inr ⟨rfl, Nat.le_refl _, hended⟩⟩⟩

/-- Nothing comes behind the last report. -/
theorem nil (h : Reading note total chunk first reads count ended []) :
    Reading note total chunk first (reads + 1) count ended [] := by
  have hcount := h.count_eq
  have hlength := h.length_eq
  have hmul := Nat.mul_add_one chunk reads
  have hended := h.pending.resolve_left fun hwhole => by cases hwhole.1
  rw [List.length_nil] at hlength
  refine ⟨by omega, ?_, .inr hended⟩
  rw [List.length_nil]
  omega

/-- **It has ended exactly when more reports were read than there were chunks.** -/
theorem ended_iff (h : Reading note total chunk first reads count ended l) :
    ended ↔ (total - first) ⌈/⌉ chunk < reads := by
  have hlength := h.length_eq
  rcases h.pending with ⟨hwhole, hn⟩ | ⟨rfl, -, hended⟩
  · have hpos : 0 < l.length := by cases hwhole <;> exact Nat.succ_pos _
    exact iff_of_false hn (by omega)
  · rw [List.length_nil] at hlength
    exact iff_of_true hended (by omega)

end Reading

end Reading

/-! ### How a lease stands to the count -/

/-- A lease that is in force and has got to `next` is in step with the count, and nothing of it
was refused; or some of it was, then nothing of it is taken any more, and the work is not all
counted. -/
def Standing (inForce taken refused : Prop) (total count next : ℕ) : Prop :=
  inForce → (next = count ∧ ¬refused) ∨ (count < total ∧ refused ∧ ¬taken)

namespace Standing

variable {inForce taken refused inForce' taken' refused' : Prop} {total count next n : ℕ}

/-- A lease begins in step. -/
theorem begin (h : ¬refused) : Standing inForce taken refused total count count :=
  fun _ => .inl ⟨rfl, h⟩

/-- Nothing is asked of a lease that is not in force. -/
theorem idle (h : ¬inForce) : Standing inForce taken refused total count next :=
  fun hf => absurd hf h

/-- What is not in force, or not taken, does not become so. -/
theorem mono (h : Standing inForce taken refused total count next)
    (hf : inForce' → inForce) (ht : taken' → taken) :
    Standing inForce' taken' refused total count next := fun hf' =>
  (h (hf hf')).imp_right fun ⟨hlt, hr, hn⟩ => ⟨hlt, hr, fun ht' => hn (ht ht')⟩

/-- What is taken is in step. -/
theorem eq_of_taken (h : Standing inForce taken refused total count next) (hf : inForce)
    (ht : taken) : next = count ∧ ¬refused :=
  (h hf).resolve_right fun ⟨_, _, hn⟩ => hn ht

/-- A piece that is taken is counted. -/
theorem accept (h : Standing inForce taken refused total count next) (hf : inForce) (ht : taken)
    (hr : refused' → refused) :
    Standing inForce' taken' refused' total (count + n) (next + n) := by
  obtain ⟨rfl, hnone⟩ := h.eq_of_taken hf ht
  exact fun _ => .inl ⟨rfl, fun hr' => hnone (hr hr')⟩

/-- A piece that is refused leaves the lease behind. -/
theorem refuse (h : Standing inForce taken refused total count next) (hn : 0 < n)
    (hle : next + n ≤ total) (hr : refused') (hnot : ¬taken') :
    Standing inForce taken' refused' total count (next + n) := by
  intro hf
  rcases h hf with ⟨rfl, -⟩ | ⟨hlt, -⟩
  · exact .inr ⟨by omega, hr, hnot⟩
  · exact .inr ⟨hlt, hr, hnot⟩

/-- **At the end of a lease all the work is counted exactly when none of it was refused.** -/
theorem count_eq_iff (h : Standing inForce taken refused total count total) (hf : inForce) :
    count = total ↔ ¬refused := by
  rcases h hf with ⟨rfl, hnone⟩ | ⟨hlt, hr, -⟩
  · exact iff_of_true rfl hnone
  · exact iff_of_false (Nat.ne_of_lt hlt) (not_not.mpr hr)

end Standing

end Leases
