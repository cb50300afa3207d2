/-
Listing the records of a directory.

`listIds` does not take a file name apart as `filePath` put it together: it looks at the
first three characters, drops the last four unread, and has `std::stoull` read what it can
of the rest.  A name of six characters is too short for that, and is read to its end.

* **`listedId_eq_some_iff`** — which names are read as which id;
* **`listing_inverts_naming_iff`** — what is listed is what can be loaded and removed, each
  once, exactly if every name that is read is the name of the id it is read as;
* **`padded_name_listed`** — seven is listed for the file of `007`.
-/
import WorkloadFabric.FileStore

namespace WorkloadFabric

namespace FileStateStore

variable {order : EvalOrder}

/-- The id that a file is listed as. -/
def listedId (fn : Text) : Option WorkloadId :=
  if text "wf-" <+: fn ∧ 5 < fn.length then
    -- `fn.size() - 7` wraps around
    let count := if 7 ≤ fn.length then fn.length - 7 else fn.length + 2 ^ 64 - 7
    (stoull ((fn.drop 3).take count)).map .fromU64
  else none

def listIds (s : FileStateStore order) : List WorkloadId := s.files.keys.filterMap listedId

/-! ### Which names are read -/

/-- A number, or what `std::stoull` takes for one, between the prefix and any four
characters; or three characters that are read as a number. -/
def Numbered (name : Text) (v : UInt64) : Prop :=
  ∃ body tail, name = text "wf-" ++ (body ++ tail) ∧ Lax body v ∧
    (tail.length = 4 ∨ tail = [] ∧ body.length = 3)

theorem Lax.ne_nil {p : Text} {v : UInt64} (h : Lax p v) : p ≠ [] := by
  obtain ⟨spaces, sign, digits, rest, rfl, -, hne, -⟩ := h
  simp [hne]

/-- Which part of a name is read. -/
theorem listedId_prefixed (s : Text) : listedId (text "wf-" ++ s) =
    if 2 < s.length then
      (stoull (if 4 ≤ s.length then s.take (s.length - 4) else s)).map .fromU64
    else none := by
  have hlen : (text "wf-" ++ s).length = s.length + 3 := by
    rw [List.length_append, Nat.add_comm]
    rfl
  have hdrop : (text "wf-" ++ s).drop 3 = s := rfl
  rw [listedId, hlen, hdrop]
  dsimp only
  by_cases h2 : 2 < s.length
  · rw [if_pos ⟨List.prefix_append _ _, by omega⟩, if_pos h2]
    by_cases h4 : 4 ≤ s.length
    · rw [if_pos h4, if_pos (show 7 ≤ s.length + 3 by omega),
        show s.length + 3 - 7 = s.length - 4 by omega]
    · rw [if_neg h4, if_neg (show ¬7 ≤ s.length + 3 by omega),
        List.take_of_length_le (by omega)]
  · rw [if_neg (fun h => by omega), if_neg h2]

/-- **The names that are listed.** -/
theorem listedId_eq_some_iff {name : Text} {id : WorkloadId} :
    listedId name = some id ↔ Numbered name id.toU64 := by
  constructor
  · intro h
    by_cases hpre : text "wf-" <+: name
    · obtain ⟨s, rfl⟩ := hpre
      rw [listedId_prefixed] at h
      obtain ⟨h2, h⟩ := Option.ite_none_right_eq_some.mp h
      obtain ⟨v, hv, rfl⟩ := Option.map_eq_some_iff.mp h
      rw [stoull_eq_some] at hv
      split at hv
      · next h4 =>
        refine ⟨_, s.drop (s.length - 4), ?_, hv, .inl ?_⟩
        · rw [List.take_append_drop]
        · rw [List.length_drop]
          omega
      · next h4 => exact ⟨s, [], by rw [List.append_nil], hv, .inr ⟨rfl, by omega⟩⟩
    · rw [listedId, if_neg (fun h => hpre h.1)] at h
      cases h
  · rintro ⟨body, tail, rfl, hbody, htail⟩
    have hpos : 0 < body.length := List.length_pos_iff.mpr (Lax.ne_nil hbody)
    rw [listedId_prefixed, List.length_append]
    rcases htail with htail | ⟨rfl, hthree⟩
    · rw [if_pos (by omega), if_pos (by omega), List.take_append_of_le_length (by omega),
        List.take_of_length_le (by omega), stoull_eq_some.mpr hbody]
      rfl
    · rw [List.length_nil, if_pos (by omega), if_neg (by omega), List.append_nil,
        stoull_eq_some.mpr hbody]
      rfl

/-- The count has wrapped around. -/
example : listedId (text "wf-123") = some (.fromU64 123) := by decide

/-- Every id is read back from its own name. -/
theorem numbered_fileName (id : WorkloadId) : Numbered (fileName id) id.toU64 :=
  ⟨decimal id.toU64.toNat, text ".bin", List.append_assoc _ _ _, (numeral_decimal _).lax, .inl rfl⟩

theorem listedId_fileName (id : WorkloadId) : listedId (fileName id) = some id :=
  listedId_eq_some_iff.mpr (numbered_fileName id)

/-! ### The listing -/

theorem mem_listIds_iff {s : FileStateStore order} {id : WorkloadId} :
    id ∈ s.listIds ↔ ∃ name ∈ s.files, Numbered name id.toU64 := by
  rw [listIds, List.mem_filterMap]
  simp only [listedId_eq_some_iff]
  rfl

/-- The listing inverts the naming. -/
structure ListingInvertsNaming (s : FileStateStore order) : Prop where
  listed_iff : ∀ id, id ∈ s.listIds ↔ fileName id ∈ s.files
  once : s.listIds.Nodup
  others : ∀ name ∈ s.files, (∀ id, name ≠ fileName id) → listedId name = none
  removable : ∀ id ∈ s.listIds, (s.remove id).1 = true
  found : ∀ id ∈ s.listIds,
    s.load id ≠ some { outcome := .rejectWorkloadNotFound, error := text "file not found" }
  saved : ∀ w, s.Holds w → w.id ∈ s.listIds

/-- A file that is there is not reported as missing. -/
theorem load_ne_not_found {s : FileStateStore order} {id : WorkloadId} (h : fileName id ∈ s.files) :
    s.load id ≠ some { outcome := .rejectWorkloadNotFound, error := text "file not found" } := by
  obtain ⟨data, hdata⟩ := Option.isSome_iff_exists.mp (AList.lookup_isSome.mpr h)
  rw [load, hdata]
  dsimp only
  rcases decodeWorkload order data with _ | ⟨status, w⟩
  · exact (Option.some_ne_none _).symm
  · rw [Option.bind_eq_bind, Option.bind_some]
    split
    · exact fun h => absurd (congrArg LoadResult.workload (Option.some.inj h))
        (Option.some_ne_none w)
    · exact fun h => absurd (congrArg LoadResult.error (Option.some.inj h))
        (show text "corrupt/truncated record" ≠ text "file not found" by decide)

/-- **Listing inverts naming exactly if no other name is read**: in every directory. -/
theorem listing_inverts_naming_iff (s : FileStateStore order) :
    s.ListingInvertsNaming ↔
      ∀ name ∈ s.files, ∀ v, Numbered name v → name = fileName (.fromU64 v) := by
  constructor
  · intro h name hname v hv
    have hlisted : listedId name = some (.fromU64 v) := listedId_eq_some_iff.mpr hv
    by_contra hne
    have hother (id : WorkloadId) : name ≠ fileName id := by
      rintro rfl
      rw [listedId_fileName, Option.some.injEq] at hlisted
      exact hne (congrArg fileName hlisted)
    rw [h.others name hname hother] at hlisted
    cases hlisted
  · intro h
    have hname (id : WorkloadId) (name : Text) (hmem : name ∈ s.files)
        (hid : listedId name = some id) : name = fileName id :=
      h name hmem _ (listedId_eq_some_iff.mp hid)
    have hlisted (id : WorkloadId) : id ∈ s.listIds ↔ fileName id ∈ s.files := by
      rw [mem_listIds_iff]
      constructor
      · rintro ⟨name, hmem, hid⟩
        exact h name hmem _ hid ▸ hmem
      · exact fun hmem => ⟨_, hmem, numbered_fileName id⟩
    refine ⟨hlisted, ?_, fun name hmem hno => ?_, fun id hid => ?_, fun id hid => ?_,
      fun w hw => ?_⟩
    · -- two names listed as one id are the name of that id
      refine List.pairwise_filterMap.mpr (s.files.keys_nodup.imp_of_mem ?_)
      rintro name name' hmem hmem' hne id hid id' hid' rfl
      exact hne ((hname id name hmem hid).trans (hname id name' hmem' hid').symm)
    · rcases hid : listedId name with _ | id
      · rfl
      · exact absurd (hname id name hmem hid) (hno id)
    · exact decide_eq_true ((hlisted id).mp hid)
    · exact load_ne_not_found ((hlisted id).mp hid)
    · exact (hlisted w.id).mpr (AList.lookup_isSome.mp (by rw [hw]; rfl))

/-- A file with a padded number, put there by hand. -/
def paddedName : FileStateStore .leftToRight := ⟨AList.singleton (text "wf-007.bin") []⟩

/-- It is listed as seven, whose record cannot be removed. -/
theorem padded_name_listed : ¬paddedName.ListingInvertsNaming := by
  intro h
  have hremove : (paddedName.remove (.fromU64 7)).1 = true := h.removable _ (by decide)
  revert hremove
  decide

end FileStateStore

end WorkloadFabric
