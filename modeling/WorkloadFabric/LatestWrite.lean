/-
Cells that keep their latest write.

A write carries a stamp, and a cell refuses a write older than the one it holds.

  - `held_le_foldl` : what a cell holds never gets older;
  - `foldl_latest` : of writes with different stamps the latest is left over;
  - `foldl_writeAt_perm` : writes to many cells, no two to one cell with the same
    stamp, may come in any order.
-/
import Mathlib.Order.Lattice
import Mathlib.Data.List.Pairwise
import Mathlib.Tactic.Common

/-- Cells `C` with the stamp of what they hold, and writes `W` with a stamp each. -/
structure Register (C W κ : Type*) where
  held : C → κ
  stamp : W → κ
  put : C → W → C
  held_put : ∀ c w, held (put c w) = stamp w
  /-- nothing of an earlier write shows behind a later one -/
  put_put : ∀ c v w, put (put c v) w = put c w

namespace Register

variable {C W κ : Type*} [LinearOrder κ] (R : Register C W κ)

/-- The write is refused where it is older than what the cell holds. -/
def write (c : C) (w : W) : C := if R.stamp w < R.held c then c else R.put c w

/-! ### One cell -/

theorem held_le_write (c : C) (w : W) : R.held c ≤ R.held (R.write c w) := by
  rw [write]
  split
  · exact le_refl _
  · next h =>
    rw [R.held_put]
    exact le_of_not_gt h

theorem held_le_foldl (c : C) (ws : List W) : R.held c ≤ R.held (ws.foldl R.write c) := by
  induction ws generalizing c with
  | nil => exact le_refl _
  | cons w ws ih => exact le_trans (R.held_le_write c w) (ih _)

theorem put_write (c : C) (v w : W) : R.put (R.write c v) w = R.put c w := by
  rw [write]
  split
  · rfl
  · exact R.put_put c v w

/-- Two writes that are not made at the same time may be swapped. -/
theorem write_right_comm {v w : W} (h : R.stamp v ≠ R.stamp w) (c : C) :
    R.write (R.write c v) w = R.write (R.write c w) v := by
  have hswap {v w : W} (hlt : R.stamp v < R.stamp w) :
      R.write (R.write c v) w = R.write (R.write c w) v := by
    by_cases hw : R.stamp w < R.held c
    · -- both are refused
      have hv : R.stamp v < R.held c := lt_trans hlt hw
      simp only [write, if_pos hv, if_pos hw]
    · have hput : R.write (R.write c v) w = R.put c w := by
        have hnot : ¬R.stamp w < R.held (R.write c v) := by
          rw [write]
          split
          · exact hw
          · rw [R.held_put]
            exact not_lt_of_gt hlt
        rw [write, if_neg hnot, R.put_write]
      rw [hput, write, write, if_neg hw, R.held_put, if_pos hlt]
  rcases lt_or_gt_of_ne h with hlt | hlt
  · exact hswap hlt
  · exact (hswap hlt).symm

/-- **The latest write is left over.** -/
theorem foldl_latest {ws : List W} {m : W} (hm : m ∈ ws)
    (hws : ws.Pairwise fun v w => R.stamp v ≠ R.stamp w)
    (hlast : ∀ w ∈ ws, R.stamp w ≤ R.stamp m) {c : C} (hc : R.held c ≤ R.stamp m) :
    ws.foldl R.write c = R.put c m := by
  induction ws generalizing c with
  | nil => exact absurd hm List.not_mem_nil
  | cons w ws ih =>
    obtain ⟨hw, hws⟩ := List.pairwise_cons.mp hws
    rw [List.foldl_cons]
    rcases List.mem_cons.mp hm with rfl | hm
    · -- the others are older than the latest one, and refused from here on
      rw [write, if_neg (not_lt_of_ge hc)]
      have hrest : ∀ vs : List W, (∀ v ∈ vs, R.stamp v < R.stamp m) →
          vs.foldl R.write (R.put c m) = R.put c m := by
        intro vs hvs
        induction vs with
        | nil => rfl
        | cons v vs ihv =>
          have hv : R.stamp v < R.held (R.put c m) := by
            rw [R.held_put]
            exact hvs v (by simp)
          rw [List.foldl_cons, write, if_pos hv]
          exact ihv fun u hu => hvs u (List.mem_cons_of_mem v hu)
      exact hrest ws fun v hv =>
        lt_of_le_of_ne (hlast v (List.mem_cons_of_mem m hv)) (hw v hv).symm
    · have hle : R.held (R.write c w) ≤ R.stamp m := by
        rw [write]
        split
        · exact hc
        · rw [R.held_put]
          exact hlast w (by simp)
      rw [ih hm hws (fun v hv => hlast v (List.mem_cons_of_mem w hv)) hle, R.put_write]

/-! ### Many cells -/

/-- A write to the cell at place `a.1`; there may be none. -/
def writeAt (cs : List C) (a : ℕ × W) : List C := cs.modify a.1 (R.write · a.2)

/-- The writes to one cell. -/
def writesTo (i : ℕ) (as : List (ℕ × W)) : List W := (as.filter (·.1 = i)).map (·.2)

theorem writesTo_cons_self (a : ℕ × W) (as : List (ℕ × W)) :
    writesTo a.1 (a :: as) = a.2 :: writesTo a.1 as := by
  rw [writesTo, List.filter_cons_of_pos (by simp)]
  rfl

theorem writesTo_cons_of_ne {i : ℕ} {a : ℕ × W} (h : a.1 ≠ i) (as : List (ℕ × W)) :
    writesTo i (a :: as) = writesTo i as := by
  rw [writesTo, List.filter_cons_of_neg (by simpa using h)]
  rfl

/-- Each cell gets the writes that are made to it. -/
theorem getElem?_foldl_writeAt (cs : List C) (as : List (ℕ × W)) (i : ℕ) :
    (as.foldl R.writeAt cs)[i]? = cs[i]?.map ((writesTo i as).foldl R.write) := by
  induction as generalizing cs with
  | nil =>
    show cs[i]? = cs[i]?.map fun c => c
    rw [Option.map_id']
  | cons a as ih =>
    rw [List.foldl_cons, ih, writeAt]
    by_cases h : a.1 = i
    · subst h
      rw [List.getElem?_modify_eq, writesTo_cons_self]
      show (cs[a.1]?.map _).map _ = _
      rw [Option.map_map]
      rfl
    · rw [List.getElem?_modify_ne _ _ h, writesTo_cons_of_ne h]

theorem writeAt_right_comm {a b : ℕ × W} (h : a.1 = b.1 → R.stamp a.2 ≠ R.stamp b.2)
    (cs : List C) : R.writeAt (R.writeAt cs a) b = R.writeAt (R.writeAt cs b) a := by
  refine List.ext_getElem? fun i => ?_
  have hcell (x y : ℕ × W) : (R.writeAt (R.writeAt cs x) y)[i]? =
      cs[i]?.map ((writesTo i [x, y]).foldl R.write) := R.getElem?_foldl_writeAt cs [x, y] i
  rw [hcell, hcell]
  congr 1
  by_cases ha : a.1 = i
  · by_cases hb : b.1 = i
    · subst ha
      rw [writesTo_cons_self, ← hb, writesTo_cons_self, writesTo_cons_self, hb, writesTo_cons_self]
      exact funext fun c => R.write_right_comm (h hb.symm) c
    · subst ha
      rw [writesTo_cons_self, writesTo_cons_of_ne hb, writesTo_cons_of_ne hb, writesTo_cons_self]
  · rw [writesTo_cons_of_ne ha]
    by_cases hb : b.1 = i
    · subst hb
      rw [writesTo_cons_self, writesTo_cons_self, writesTo_cons_of_ne ha]
    · rw [writesTo_cons_of_ne hb, writesTo_cons_of_ne hb, writesTo_cons_of_ne ha]

/-- **Writes may come in any order**, if no two are made to one cell at the same time. -/
theorem foldl_writeAt_perm {as bs : List (ℕ × W)} (hperm : as.Perm bs)
    (h : as.Pairwise fun a b => a.1 = b.1 → R.stamp a.2 ≠ R.stamp b.2) (cs : List C) :
    as.foldl R.writeAt cs = bs.foldl R.writeAt cs := by
  have hsymm : Std.Symm fun a b : ℕ × W => a.1 = b.1 → R.stamp a.2 ≠ R.stamp b.2 :=
    ⟨fun a b hab heq => (hab heq.symm).symm⟩
  refine hperm.foldl_eq' (fun a ha b hb cs => ?_) cs
  by_cases hab : a = b
  · rw [hab]
  · exact R.writeAt_right_comm (h.forall ha hb hab) cs

end Register
