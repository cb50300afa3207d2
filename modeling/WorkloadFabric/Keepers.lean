/-
Finite maps, and two ways to keep them.

A keeper stores records under keys, looks them up, erases them and lists the keys.  The laws say
that it keeps a finite map; two keepers of one map cannot be told apart, except by the order of
their listings.

  - `Keeper.keys_perm` : the same records give the same listing, up to its order;
  - `Keeper.Alike.put`, `Keeper.Alike.erase` : keepers that hold the same records go on doing so;
  - `Keeper.assoc` : pairs in a list, new ones at its end;
  - `Keeper.named` : files in a directory, under names from which the keys are read back; the
    names that mean no key are somebody else's, and left alone.
-/
import Mathlib.Data.List.AList
import WorkloadFabric.FirstMatch

universe u v w

/-- A way to keep records `R` under keys `K` in a state `S`. -/
structure Keeper (S : Type u) (K : Type v) (R : Type w) [DecidableEq K] where
  Valid : S → Prop
  lookup : S → K → Option R
  keys : S → List K
  put : S → K → R → S
  erase : S → K → S
  valid_put : ∀ {s}, Valid s → ∀ k r, Valid (put s k r)
  valid_erase : ∀ {s}, Valid s → ∀ k, Valid (erase s k)
  lookup_put : ∀ {s}, Valid s → ∀ k r k',
    lookup (put s k r) k' = if k = k' then some r else lookup s k'
  lookup_erase : ∀ {s}, Valid s → ∀ k k',
    lookup (erase s k) k' = if k = k' then none else lookup s k'
  nodup_keys : ∀ {s}, Valid s → (keys s).Nodup
  mem_keys : ∀ {s}, Valid s → ∀ k, k ∈ keys s ↔ (lookup s k).isSome = true

namespace Keeper

variable {S : Type u} {T : Type u} {K : Type v} {R : Type w} [DecidableEq K]

/-! ### Two keepers of one map -/

/-- Both hold the same records. -/
structure Alike (A : Keeper S K R) (B : Keeper T K R) (s : S) (t : T) : Prop where
  left : A.Valid s
  right : B.Valid t
  lookup : ∀ k, A.lookup s k = B.lookup t k

variable {A : Keeper S K R} {B : Keeper T K R} {s : S} {t : T}

theorem Alike.put (h : Alike A B s t) (k : K) (r : R) :
    Alike A B (A.put s k r) (B.put t k r) where
  left := A.valid_put h.left k r
  right := B.valid_put h.right k r
  lookup k' := by rw [A.lookup_put h.left, B.lookup_put h.right, h.lookup]

theorem Alike.erase (h : Alike A B s t) (k : K) : Alike A B (A.erase s k) (B.erase t k) where
  left := A.valid_erase h.left k
  right := B.valid_erase h.right k
  lookup k' := by rw [A.lookup_erase h.left, B.lookup_erase h.right, h.lookup]

/-- **The same records give the same listing.** -/
theorem Alike.keys_perm (h : Alike A B s t) : (A.keys s).Perm (B.keys t) := by
  refine (List.perm_ext_iff_of_nodup (A.nodup_keys h.left) (B.nodup_keys h.right)).mpr fun k => ?_
  rw [A.mem_keys h.left, B.mem_keys h.right, h.lookup]

/-- A keeper whose state is wrapped up. -/
def wrap (A : Keeper S K R) (unwrap : T → S) (mk : S → T) (h : ∀ s, unwrap (mk s) = s) :
    Keeper T K R where
  Valid t := A.Valid (unwrap t)
  lookup t := A.lookup (unwrap t)
  keys t := A.keys (unwrap t)
  put t k r := mk (A.put (unwrap t) k r)
  erase t k := mk (A.erase (unwrap t) k)
  valid_put ht k r := by
    rw [h]
    exact A.valid_put ht k r
  valid_erase ht k := by
    rw [h]
    exact A.valid_erase ht k
  lookup_put ht k r := by
    rw [h]
    exact A.lookup_put ht k r
  lookup_erase ht k := by
    rw [h]
    exact A.lookup_erase ht k
  nodup_keys ht := A.nodup_keys ht
  mem_keys ht := A.mem_keys ht

/-! ### Pairs in a list -/

section Assoc

open FirstMatch

/-- Where there is no such key a record is put at the end. -/
def assocPut (l : List (K × R)) (k : K) (r : R) : List (K × R) :=
  if l.any (·.1 == k) then modifyFirst (·.1 == k) (fun p => (p.1, r)) l else l ++ [(k, r)]

def assocLookup (l : List (K × R)) (k : K) : Option R := (l.find? (·.1 == k)).map Prod.snd

def assocErase (l : List (K × R)) (k : K) : List (K × R) := l.eraseP (·.1 == k)

theorem any_key_iff {l : List (K × R)} {k : K} :
    l.any (·.1 == k) = true ↔ k ∈ l.map Prod.fst := by
  rw [List.any_eq_true, List.mem_map]
  exact exists_congr fun p => and_congr_right fun _ => beq_iff_eq

theorem assocLookup_isSome {l : List (K × R)} {k : K} :
    (assocLookup l k).isSome = true ↔ k ∈ l.map Prod.fst := by
  rw [assocLookup, Option.isSome_map, List.find?_isSome, ← any_key_iff, List.any_eq_true]

theorem nodup_assocPut {l : List (K × R)} (h : (l.map Prod.fst).Nodup) (k : K) (r : R) :
    ((assocPut l k r).map Prod.fst).Nodup := by
  rw [assocPut]
  split
  case isTrue =>
    rw [map_modifyFirst (f := fun p : K × R => (p.1, r)) fun _ => rfl]
    exact h
  case isFalse hk =>
    rw [List.map_append, List.map_singleton, List.nodup_append_comm]
    exact List.nodup_cons.mpr ⟨mt any_key_iff.mpr hk, h⟩

theorem assocLookup_put (l : List (K × R)) (k : K) (r : R) (k' : K) :
    assocLookup (assocPut l k r) k' = if k = k' then some r else assocLookup l k' := by
  rw [assocPut, assocLookup]
  split
  case isTrue hk =>
    by_cases hkk : k = k'
    · subst hkk
      obtain ⟨p, hp⟩ := Option.isSome_iff_exists.mp (List.find?_isSome.mpr (List.any_eq_true.mp hk))
      rw [if_pos rfl, find?_modifyFirst_self (p := fun p : K × R => p.1 == k)
        (f := fun p => (p.1, r)) fun _ => rfl, hp]
      rfl
    · rw [if_neg hkk, find?_modifyFirst_of_neg fun p hp => ?_, assocLookup]
      rw [beq_iff_eq.mp hp]
      exact ⟨beq_eq_false_iff_ne.mpr hkk, beq_eq_false_iff_ne.mpr hkk⟩
  case isFalse hk =>
    by_cases hkk : k = k'
    · subst hkk
      have hnone : ∀ p ∈ l, (p.1 == k) = false := by
        intro p hp
        rw [Bool.eq_false_iff]
        exact fun h => hk (List.any_eq_true.mpr ⟨p, hp, h⟩)
      rw [if_pos rfl, find?_append_singleton (p := fun p : K × R => p.1 == k) (a := (k, r))
        (beq_self_eq_true k) hnone]
      rfl
    · rw [if_neg hkk, List.find?_append, assocLookup]
      have hne : (k == k') = false := beq_eq_false_iff_ne.mpr hkk
      rw [List.find?_cons_of_neg (by simp [hne]), List.find?_nil, Option.or_none]

theorem assocLookup_erase {k : K} : ∀ {l : List (K × R)}, (l.map Prod.fst).Nodup → ∀ k',
    assocLookup (assocErase l k) k' = if k = k' then none else assocLookup l k'
  | [], _, k' => (ite_self none).symm
  | p :: l, h, k' => by
    obtain ⟨hp, hl⟩ := List.nodup_cons.mp h
    have ih := assocLookup_erase (k := k) hl k'
    by_cases hpk : p.1 = k
    · rw [assocErase, List.eraseP_cons_of_pos (by rw [hpk]; exact beq_self_eq_true k)]
      by_cases hkk : k = k'
      · rw [if_pos hkk, ← Option.not_isSome_iff_eq_none, assocLookup_isSome, ← hkk, ← hpk]
        exact hp
      · rw [if_neg hkk, assocLookup, assocLookup,
          List.find?_cons_of_neg (by rw [hpk]; exact mt beq_iff_eq.mp hkk)]
    · rw [assocErase,
        List.eraseP_cons_of_neg (p := fun p : K × R => p.1 == k) (mt beq_iff_eq.mp hpk)]
      by_cases hpk' : p.1 = k'
      · rw [if_neg (by rw [← hpk']; exact Ne.symm hpk), assocLookup, assocLookup,
          List.find?_cons_of_pos (by rw [hpk']; exact beq_self_eq_true k'),
          List.find?_cons_of_pos (by rw [hpk']; exact beq_self_eq_true k')]
      · rw [assocLookup, assocLookup, List.find?_cons_of_neg (by exact mt beq_iff_eq.mp hpk'),
          List.find?_cons_of_neg (by exact mt beq_iff_eq.mp hpk')]
        exact ih

variable (K R) in
/-- Records in a list of pairs. -/
def assoc : Keeper (List (K × R)) K R where
  Valid l := (l.map Prod.fst).Nodup
  lookup := assocLookup
  keys l := l.map Prod.fst
  put := assocPut
  erase := assocErase
  valid_put h k r := nodup_assocPut h k r
  valid_erase h _ := h.sublist (List.eraseP_sublist.map _)
  lookup_put _ k r k' := assocLookup_put _ k r k'
  lookup_erase h _ k' := assocLookup_erase h k'
  nodup_keys h := h
  mem_keys _ _ := assocLookup_isSome.symm

end Assoc

/-! ### Files under names -/

section Named

variable {N : Type v} [DecidableEq N] {name : K → N} {read : N → Option K}

omit [DecidableEq K] [DecidableEq N] in
theorem name_injective (hread : ∀ k, read (name k) = some k) {k k' : K} (h : name k = name k') :
    k = k' := Option.some.inj ((hread k).symm.trans ((congrArg read h).trans (hread k')))

variable (R) in
/-- Records in a directory; no name is read as a key but that key's own. -/
def named (name : K → N) (read : N → Option K) (hread : ∀ k, read (name k) = some k) :
    Keeper (AList fun _ : N => R) K R where
  Valid files := ∀ n ∈ files, ∀ k, read n = some k → n = name k
  lookup files k := files.lookup (name k)
  keys files := files.keys.filterMap read
  put files k r := files.insert (name k) r
  erase files k := files.erase (name k)
  valid_put h k r n hn k' hk' := by
    rcases (AList.mem_insert _).mp hn with rfl | hn
    · rw [Option.some.inj ((hread k).symm.trans hk')]
    · exact h n hn k' hk'
  valid_erase h k n hn k' hk' := h n (AList.mem_erase.mp hn).2 k' hk'
  lookup_put _ k r k' := by
    by_cases hk : k = k'
    · rw [if_pos hk, ← hk, AList.lookup_insert]
    · rw [if_neg hk, AList.lookup_insert_ne fun h => hk (name_injective hread h).symm]
  lookup_erase _ k k' := by
    by_cases hk : k = k'
    · rw [if_pos hk, ← hk, AList.lookup_erase]
    · rw [if_neg hk, AList.lookup_erase_ne fun h => hk (name_injective hread h).symm]
  nodup_keys {files} h := by
    refine List.pairwise_filterMap.mpr (files.keys_nodup.imp_of_mem ?_)
    rintro n n' hn hn' hne k hk _ hk' rfl
    exact hne ((h n hn k hk).trans (h n' hn' k hk').symm)
  mem_keys {files} h k := by
    rw [List.mem_filterMap]
    constructor
    · rintro ⟨n, hn, hk⟩
      rw [AList.lookup_isSome, ← h n hn k hk]
      exact hn
    · intro hs
      exact ⟨name k, AList.lookup_isSome.mp hs, hread k⟩

/-- What a name that means no key says of the directory. -/
theorem named_foreign (hread : ∀ k, read (name k) = some k) {n : N} (hn : read n = none)
    (files : AList fun _ : N => R) (k : K) (r : R) :
    ((named R name read hread).put files k r).lookup n = files.lookup n ∧
      ((named R name read hread).erase files k).lookup n = files.lookup n := by
  have hne : n ≠ name k := by
    rintro rfl
    exact absurd (hn.symm.trans (hread k)) (by simp)
  exact ⟨AList.lookup_insert_ne hne, AList.lookup_erase_ne hne⟩

end Named

end Keeper
