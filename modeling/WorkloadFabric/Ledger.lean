/-
Audited machines.

A `Ledger` is a state, a fence, a revision counter and the list of everything
that was asked of the machine: an accepted entry moved the state along an edge, a
refused one did not.  The fence only advances together with a move.

  - `IsPath` : a list of moves leads from one state to another along edges;
  - `IsPath.eq_nil_of_dead_end` : nothing follows a move into a dead end;
  - `Step.conforms`, `conforms_of_steps` : every ledger that steps lead to from a
    fresh one carries a path to its own state, fences in order, and one
    revision an entry.
-/
import Mathlib.Logic.Relation
import Mathlib.Tactic.Common

universe u

/-! ### Paths -/

/-- The moves lead from `a` to `b`, each from where the last one ended and along
an edge. -/
def IsPath {S : Type u} (edge : S → S → Prop) (a : S) : List (S × S) → S → Prop
  | [], b => a = b
  | (x, y) :: moves, b => x = a ∧ edge x y ∧ IsPath edge y moves b

namespace IsPath

variable {S : Type u} {edge : S → S → Prop} {a b : S}

theorem append_singleton {moves : List (S × S)} (h : IsPath edge a moves b) {c : S}
    (he : edge b c) : IsPath edge a (moves ++ [(b, c)]) c := by
  induction moves generalizing a with
  | nil =>
    cases h
    exact ⟨rfl, he, rfl⟩
  | cons m moves ih => exact ⟨h.1, h.2.1, ih h.2.2⟩

/-- The rest of a path starts where its first part ended. -/
theorem of_append {moves moves' : List (S × S)} (h : IsPath edge a (moves ++ moves') b) :
    ∃ c, IsPath edge a moves c ∧ IsPath edge c moves' b := by
  induction moves generalizing a with
  | nil => exact ⟨a, rfl, h⟩
  | cons m moves ih =>
    obtain ⟨c, h₁, h₂⟩ := ih h.2.2
    exact ⟨c, ⟨h.1, h.2.1, h₁⟩, h₂⟩

/-- **Nothing follows a move into a dead end.** -/
theorem eq_nil_of_dead_end {pre post : List (S × S)} {x y : S}
    (h : IsPath edge a (pre ++ (x, y) :: post) b) (hy : ∀ z, ¬edge y z) : post = [] := by
  obtain ⟨c, -, h⟩ := h.of_append
  rcases post with _ | ⟨⟨x', y'⟩, post⟩
  · rfl
  · obtain ⟨-, -, rfl, he, -⟩ := h
    exact absurd he (hy y')

end IsPath

/-! ### Ledgers -/

/-- What was asked of the machine, under which fence, and whether it moved. -/
structure Ledger.Entry (S : Type u) where
  fence : ℕ
  source : S
  target : S
  accepted : Bool

structure Ledger (S : Type u) where
  state : S
  fence : ℕ
  revision : ℕ
  entries : List (Ledger.Entry S)

namespace Ledger

variable {S : Type u}

def fresh (init : S) : Ledger S := ⟨init, 1, 1, []⟩

def log (L : Ledger S) (source target : S) (accepted : Bool) : Ledger S :=
  { L with
    entries := L.entries ++ [⟨L.fence, source, target, accepted⟩]
    revision := L.revision + 1 }

def moveTo (L : Ledger S) (target : S) : Ledger S :=
  { L.log L.state target true with state := target }

def advance (L : Ledger S) : Ledger S := { L with fence := L.fence + 1 }

/-- The accepted moves, in order. -/
def moves (L : Ledger S) : List (S × S) :=
  (L.entries.filter (·.accepted)).map fun e => (e.source, e.target)

/-- A refusal is logged; a move may advance the fence before or after it. -/
inductive Step (edge : S → S → Prop) (L : Ledger S) : Ledger S → Prop
  | refuse (source target : S) : Step edge L (L.log source target false)
  | move {target : S} (h : edge L.state target) : Step edge L (L.moveTo target)
  | moveAdvance {target : S} (h : edge L.state target) : Step edge L (L.moveTo target).advance
  | advanceMove {target : S} (h : edge L.state target) : Step edge L (L.advance.moveTo target)

/-- The trail tells the machine's whole story. -/
structure Conforms (edge : S → S → Prop) (init : S) (L : Ledger S) : Prop where
  path : IsPath edge init L.moves L.state
  sorted : (L.entries.map (·.fence)).Pairwise (· ≤ ·)
  le_fence : ∀ e ∈ L.entries, e.fence ≤ L.fence
  revision_eq : L.revision = 1 + L.entries.length
  fence_le : L.fence ≤ 1 + L.entries.length

variable {edge : S → S → Prop} {init : S} {L L' : Ledger S}

/-- A fence at least as large as all before it goes to the end. -/
theorem pairwise_append_fence {fences : List ℕ} (h : fences.Pairwise (· ≤ ·)) {g : ℕ}
    (hg : ∀ f ∈ fences, f ≤ g) : (fences ++ [g]).Pairwise (· ≤ ·) := by
  rw [List.pairwise_append]
  refine ⟨h, List.pairwise_singleton _ _, fun f hf g' hg' => ?_⟩
  rw [List.mem_singleton.mp hg']
  exact hg f hf

/-- No fence of the trail is ahead of the current one. -/
theorem Conforms.fences_le (h : Conforms edge init L) :
    ∀ f ∈ L.entries.map (·.fence), f ≤ L.fence := by
  intro f hf
  obtain ⟨e, he, rfl⟩ := List.mem_map.mp hf
  exact h.le_fence e he

theorem conforms_fresh (edge : S → S → Prop) (init : S) : Conforms edge init (fresh init) where
  path := rfl
  sorted := .nil
  le_fence e he := absurd he (by simp [fresh])
  revision_eq := rfl
  fence_le := Nat.le_refl 1

theorem Conforms.log_refused (h : Conforms edge init L) (s t : S) :
    Conforms edge init (L.log s t false) where
  path := by
    have hm : (L.log s t false).moves = L.moves := by simp [log, moves]
    rw [hm]
    exact h.path
  sorted := by
    rw [log, List.map_append]
    exact pairwise_append_fence h.sorted h.fences_le
  le_fence e he := by
    rcases List.mem_append.mp he with he | he
    · exact h.le_fence e he
    · obtain rfl := List.mem_singleton.mp he
      exact Nat.le_refl _
  revision_eq := by
    have := h.revision_eq
    simp only [log, List.length_append, List.length_singleton]
    omega
  fence_le := by
    have := h.fence_le
    simp only [log, List.length_append, List.length_singleton]
    omega

theorem Conforms.moveTo (h : Conforms edge init L) {t : S} (he : edge L.state t) :
    Conforms edge init (L.moveTo t) where
  path := by
    have hm : (L.moveTo t).moves = L.moves ++ [(L.state, t)] := by
      simp [Ledger.moveTo, log, moves]
    rw [hm]
    exact h.path.append_singleton he
  -- behind the path an accepted entry is logged as a refused one is
  sorted := by simpa [log, Ledger.moveTo] using (h.log_refused L.state t).sorted
  le_fence e hmem := by
    rcases List.mem_append.mp hmem with hmem | hmem
    · exact h.le_fence e hmem
    · obtain rfl := List.mem_singleton.mp hmem
      exact Nat.le_refl _
  revision_eq := by simpa [log, Ledger.moveTo] using (h.log_refused L.state t).revision_eq
  fence_le := by simpa [log, Ledger.moveTo] using (h.log_refused L.state t).fence_le

/-- **A step keeps the trail truthful.** -/
theorem Step.conforms (h : Conforms edge init L) (hs : Step edge L L') :
    Conforms edge init L' := by
  cases hs with
  | refuse s t => exact h.log_refused s t
  | move he => exact h.moveTo he
  | moveAdvance he =>
    -- advancing after the move leaves the trail alone and the current fence ahead of it
    have h' := h.moveTo he
    refine ⟨h'.path, h'.sorted, fun e hmem => Nat.le_succ_of_le (h'.le_fence e hmem),
      h'.revision_eq, ?_⟩
    have := h.fence_le
    simp only [advance, Ledger.moveTo, log, List.length_append, List.length_singleton]
    omega
  | @advanceMove t he =>
    -- advancing before the move: the new entry carries the new fence
    have hpath := (h.moveTo he).path
    have hrev := (h.moveTo he).revision_eq
    have hfence := h.fence_le
    refine ⟨by simpa [advance, Ledger.moveTo, log, moves] using hpath, ?_, fun e hmem => ?_,
      by simpa [advance, Ledger.moveTo, log] using hrev, ?_⟩
    · rw [Ledger.moveTo, log, List.map_append]
      exact pairwise_append_fence h.sorted fun f hf => Nat.le_succ_of_le (h.fences_le f hf)
    · rcases List.mem_append.mp hmem with hmem | hmem
      · exact Nat.le_succ_of_le (h.le_fence e hmem)
      · obtain rfl := List.mem_singleton.mp hmem
        exact Nat.le_refl _
    · simp only [advance, Ledger.moveTo, log, List.length_append, List.length_singleton]
      omega

/-- **Every run keeps the trail truthful.** -/
theorem conforms_of_steps (hs : Relation.ReflTransGen (Step edge) (fresh init) L) :
    Conforms edge init L := by
  induction hs with
  | refl => exact conforms_fresh edge init
  | tail _ hstep ih => exact hstep.conforms ih

end Ledger
