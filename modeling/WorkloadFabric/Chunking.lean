/-
A stretch of work done in chunks.

A loop that takes part of what is left until nothing is left, be it units of work, bytes to
send or bytes to receive; how much it takes each time is not its own to say.

  - `Chunking.induction` : induction along such a loop;
  - `Chunking.sum_chunks`, `Chunking.mem_chunks` : nothing is left over, and no chunk is empty;
  - `flatten_cut` : what is cut in pieces is all there, in the order it had;
  - `leading_eq_take`, `leading_sum` : the pieces that are whole in a stretch are the first
    ones, as many as one likes.
-/
import Mathlib.Tactic.Common
import Mathlib.Algebra.BigOperators.Group.List.Basic
import Mathlib.Algebra.GroupWithZero.Nat
import Mathlib.Algebra.Order.Floor.Div

/-- How much of `n` the `k`-th turn takes. -/
structure Chunking where
  size : ℕ → ℕ → ℕ
  size_pos : ∀ (k : ℕ) {n : ℕ}, 0 < n → 0 < size k n
  size_le : ∀ k n, size k n ≤ n

namespace Chunking

variable (c : Chunking)

/-- The chunks in which `n` is taken from the `k`-th turn on. -/
def chunks (k n : ℕ) : List ℕ :=
  if 0 < n then c.size k n :: chunks (k + 1) (n - c.size k n) else []
termination_by n
decreasing_by
  have := c.size_pos k ‹0 < n›
  omega

@[simp] theorem chunks_zero (k : ℕ) : c.chunks k 0 = [] := by
  rw [chunks, if_neg (Nat.lt_irrefl 0)]

theorem chunks_of_pos (k : ℕ) {n : ℕ} (hn : 0 < n) :
    c.chunks k n = c.size k n :: c.chunks (k + 1) (n - c.size k n) := by
  rw [chunks, if_pos hn]

/-- Induction along the loop: nothing is left, or a chunk is taken. -/
theorem induction {P : ℕ → ℕ → Prop} (zero : ∀ k, P k 0)
    (chunk : ∀ k n, 0 < n → P (k + 1) (n - c.size k n) → P k n) (k n : ℕ) : P k n := by
  induction n using Nat.strongRecOn generalizing k with
  | ind n ih =>
    rcases Nat.eq_zero_or_pos n with rfl | hn
    · exact zero k
    · have hsize := c.size_pos k hn
      exact chunk k n hn (ih _ (by omega) _)

theorem sum_chunks (k n : ℕ) : (c.chunks k n).sum = n := by
  induction k, n using c.induction with
  | zero k => rw [chunks_zero, List.sum_nil]
  | chunk k n hn ih =>
    rw [chunks_of_pos c k hn, List.sum_cons, ih, Nat.add_sub_cancel' (c.size_le k n)]

/-- Every chunk is the size of a turn, and none is empty. -/
theorem mem_chunks {k n a : ℕ} (h : a ∈ c.chunks k n) : 0 < a ∧ ∃ k n, a = c.size k n := by
  induction k, n using c.induction with
  | zero k =>
    rw [chunks_zero] at h
    exact (List.not_mem_nil h).elim
  | chunk k n hn ih =>
    rw [chunks_of_pos c k hn] at h
    rcases List.mem_cons.mp h with rfl | h
    · exact ⟨c.size_pos k hn, k, n, rfl⟩
    · exact ih h

theorem length_chunks_le (k n : ℕ) : (c.chunks k n).length ≤ n :=
  (List.length_le_sum_of_one_le _ fun _ h => (c.mem_chunks h).1).trans_eq (c.sum_chunks k n)

/-- `m` at a time, while there is so much. -/
def atMost (m : ℕ) (hm : 0 < m) : Chunking where
  size _ n := min m n
  size_pos _ _ hn := Nat.lt_min.mpr ⟨hm, hn⟩
  size_le _ _ := Nat.min_le_right _ _

theorem mem_chunks_atMost {m k n a : ℕ} {hm : 0 < m} (h : a ∈ (atMost m hm).chunks k n) :
    1 ≤ a ∧ a ≤ m := by
  obtain ⟨hpos, _, _, rfl⟩ := (atMost m hm).mem_chunks h
  exact ⟨hpos, Nat.min_le_left _ _⟩

/-- A chunk less is one turn less. -/
theorem ceilDiv_sub_min {m n : ℕ} (hm : 0 < m) (hn : 0 < n) :
    (n - min m n) ⌈/⌉ m + 1 = n ⌈/⌉ m := by
  rw [Nat.ceilDiv_eq_add_pred_div, Nat.ceilDiv_eq_add_pred_div]
  rcases Nat.le_total m n with hle | hle
  · rw [Nat.min_eq_left hle, ← Nat.add_div_right _ hm]
    congr 1
    omega
  · rw [Nat.min_eq_right hle, Nat.sub_self, Nat.div_eq_of_lt (by omega),
      show n + m - 1 = n - 1 + m by omega, Nat.add_div_right _ hm, Nat.div_eq_of_lt (by omega)]

end Chunking

/-- A list cut in pieces of these sizes. -/
def cut {α : Type*} : List ℕ → List α → List (List α)
  | [], _ => []
  | n :: ns, l => l.take n :: cut ns (l.drop n)

theorem flatten_cut {α : Type*} (ns : List ℕ) (l : List α) : (cut ns l).flatten = l.take ns.sum := by
  induction ns generalizing l with
  | nil => rfl
  | cons n ns ih =>
    rw [cut, List.flatten_cons, ih, List.sum_cons, List.take_add]

theorem take_cut {α : Type*} (k : ℕ) (ns : List ℕ) (l : List α) :
    (cut ns l).take k = cut (ns.take k) l := by
  induction ns generalizing k l with
  | nil => rw [List.take_nil, cut, List.take_nil]
  | cons n ns ih =>
    cases k with
    | zero => rfl
    | succ k => rw [cut, List.take_succ_cons, ih, List.take_succ_cons, cut]

@[simp] theorem length_cut {α : Type*} (ns : List ℕ) (l : List α) :
    (cut ns l).length = ns.length := by
  induction ns generalizing l with
  | nil => rfl
  | cons n ns ih => rw [cut, List.length_cons, ih, List.length_cons]

/-- What is in the pieces, and in none of them twice, is in one of them. -/
theorem countP_mem_pieces {α : Type*} [DecidableEq α] {a : α} :
    ∀ {pieces : List (List α)}, pieces.flatten.Nodup → a ∈ pieces.flatten →
      pieces.countP (a ∈ ·) = 1
  | [], _, h => absurd h List.not_mem_nil
  | piece :: pieces, hnodup, h => by
    obtain ⟨-, hrest, hdisjoint⟩ := List.nodup_append.mp (List.flatten_cons ▸ hnodup)
    rw [List.flatten_cons] at h
    by_cases ha : a ∈ piece
    · have hnone : pieces.countP (a ∈ ·) = 0 := by
        refine List.countP_eq_zero.mpr fun l hl hal => ?_
        have hflat : a ∈ pieces.flatten := List.mem_flatten_of_mem hl (of_decide_eq_true hal)
        exact hdisjoint a ha a hflat rfl
      rw [List.countP_cons_of_pos (by simpa using ha), hnone]
    · rw [List.countP_cons_of_neg (by simpa using ha)]
      exact countP_mem_pieces hrest ((List.mem_append.mp h).resolve_left ha)

/-- The first items, as many as fit into `n` by their sizes. -/
def leading {α : Type*} (size : α → ℕ) : ℕ → List α → List α
  | _, [] => []
  | n, a :: l => if size a ≤ n then a :: leading size (n - size a) l else []

theorem leading_eq_take {α : Type*} (size : α → ℕ) (n : ℕ) (l : List α) :
    ∃ d, leading size n l = l.take d := by
  induction l generalizing n with
  | nil => exact ⟨0, rfl⟩
  | cons a l ih =>
    rw [leading]
    split
    · obtain ⟨d, hd⟩ := ih (n - size a)
      exact ⟨d + 1, by rw [hd, List.take_succ_cons]⟩
    · exact ⟨0, rfl⟩

/-- Items that are no larger than the stretch that they make up. -/
theorem leading_sum {α : Type*} {size : α → ℕ} {l : List α} (h : ∀ a ∈ l, 0 < size a) (d : ℕ) :
    leading size ((l.take d).map size).sum l = l.take d := by
  induction l generalizing d with
  | nil => rw [List.take_nil, leading]
  | cons a l ih =>
    obtain ⟨ha, hl⟩ := List.forall_mem_cons.mp h
    cases d with
    | zero =>
      rw [List.take_zero, leading, if_neg]
      exact Nat.not_le.mpr ha
    | succ d =>
      rw [List.take_succ_cons, List.map_cons, List.sum_cons, leading,
        if_pos (Nat.le_add_right _ _), Nat.add_sub_cancel_left, ih hl]
