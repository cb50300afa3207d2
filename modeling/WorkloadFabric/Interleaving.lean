/-
Interleavings of components that draw names from one supply.

Components act one at a time, each on a state of its own; some actions draw the next
name of a supply that all of them share.  A component is *equivariant* if it treats the
names alike: under a permutation of the names it does what it did before, permuted.

Two interleavings of the same sequences of actions differ by swaps of neighbours
(`shuffle_iff`).  A swap changes who draws which name and nothing else, so

* **`run_interleaved`** — two interleavings leave every component in the same state,
  up to one permutation of the names that were drawn.
-/
import Mathlib.Algebra.Group.Action.End
import Mathlib.Logic.Equiv.Basic
import Mathlib.Tactic

namespace Interleaving

variable {ι A S T : Type*}

/-! ### Sequences and their interleavings -/

/-- A block of actions of one component. -/
def block (i : ι) (as : List A) : List (ι × A) := as.map fun a => (i, a)

section Sequences

variable [DecidableEq ι]

/-- What component `i` does in an interleaving. -/
def actionsOf (i : ι) (l : List (ι × A)) : List A := (l.filter (·.1 = i)).map (·.2)

theorem actionsOf_append (i : ι) (l l' : List (ι × A)) :
    actionsOf i (l ++ l') = actionsOf i l ++ actionsOf i l' := by
  rw [actionsOf, List.filter_append, List.map_append]
  rfl

theorem actionsOf_cons (i : ι) (x : ι × A) (l : List (ι × A)) :
    actionsOf i (x :: l) = actionsOf i [x] ++ actionsOf i l := actionsOf_append i [x] l

theorem actionsOf_cons_self (i : ι) (a : A) (l : List (ι × A)) :
    actionsOf i ((i, a) :: l) = a :: actionsOf i l := by
  simp [actionsOf]

theorem actionsOf_cons_of_ne {i : ι} {x : ι × A} (h : x.1 ≠ i) (l : List (ι × A)) :
    actionsOf i (x :: l) = actionsOf i l := by
  simp [actionsOf, h]

/-- A component whose first action is `a` takes it after others have acted. -/
theorem exists_of_actionsOf_cons {i : ι} {a : A} {as : List A} :
    ∀ {l : List (ι × A)}, actionsOf i l = a :: as →
      ∃ pre post, l = pre ++ (i, a) :: post ∧ ∀ x ∈ pre, x.1 ≠ i
  | [], h => absurd h (by simp [actionsOf])
  | (j, b) :: l, h => by
    by_cases hj : j = i
    · subst hj
      rw [actionsOf_cons_self, List.cons.injEq] at h
      obtain ⟨rfl, -⟩ := h
      exact ⟨[], l, rfl, fun x hx => absurd hx List.not_mem_nil⟩
    · rw [actionsOf_cons_of_ne hj] at h
      obtain ⟨pre, post, rfl, hpre⟩ := exists_of_actionsOf_cons h
      refine ⟨(j, b) :: pre, post, rfl, fun x hx => ?_⟩
      rcases List.mem_cons.mp hx with rfl | hx
      · exact hj
      · exact hpre x hx

end Sequences

/-- The interleavings that swaps of neighbouring actions of two components lead to. -/
inductive Shuffle : List (ι × A) → List (ι × A) → Prop
  | nil : Shuffle [] []
  | cons (x : ι × A) {l l' : List (ι × A)} (h : Shuffle l l') : Shuffle (x :: l) (x :: l')
  | swap {x y : ι × A} (h : x.1 ≠ y.1) (l : List (ι × A)) :
      Shuffle (x :: y :: l) (y :: x :: l)
  | trans {l l' l'' : List (ι × A)} (h : Shuffle l l') (h' : Shuffle l' l'') : Shuffle l l''

namespace Shuffle

theorem refl : ∀ l : List (ι × A), Shuffle l l
  | [] => .nil
  | x :: l => .cons x (refl l)

theorem symm {l l' : List (ι × A)} (h : Shuffle l l') : Shuffle l' l := by
  induction h with
  | nil => exact .nil
  | cons x _ ih => exact .cons x ih
  | swap h l => exact .swap h.symm l
  | trans _ _ ih ih' => exact .trans ih' ih

/-- An action moves in front of the actions of others. -/
theorem to_front {x : ι × A} (post : List (ι × A)) : ∀ {pre : List (ι × A)},
    (∀ y ∈ pre, y.1 ≠ x.1) → Shuffle (pre ++ x :: post) (x :: (pre ++ post))
  | [], _ => .refl _
  | y :: _, h =>
    .trans (.cons y (to_front post fun z hz => h z (List.mem_cons_of_mem y hz)))
      (.swap (h y List.mem_cons_self) _)

/-- Blocks of two components change places. -/
theorem blocks {i j : ι} (h : i ≠ j) (as bs : List A) :
    Shuffle (block i as ++ block j bs) (block j bs ++ block i as) := by
  induction bs with
  | nil =>
    rw [block, block, List.map_nil, List.append_nil]
    exact .refl _
  | cons b bs ih =>
    refine .trans (to_front (x := (j, b)) (block j bs) fun y hy => ?_) (.cons (j, b) ih)
    obtain ⟨a, -, rfl⟩ := List.mem_map.mp hy
    exact h

variable [DecidableEq ι]

/-- Swaps do not change what a component does. -/
theorem actionsOf_eq {l l' : List (ι × A)} (h : Shuffle l l') (i : ι) :
    actionsOf i l = actionsOf i l' := by
  induction h with
  | nil => rfl
  | cons x _ ih => rw [actionsOf_cons, ih, ← actionsOf_cons]
  | @swap x y h l =>
    have hxy : actionsOf i [x, y] = actionsOf i [y, x] := by
      by_cases hx : x.1 = i
      · subst hx
        rw [actionsOf_cons_of_ne h.symm, actionsOf_cons, actionsOf_cons_of_ne h.symm]
        exact List.append_nil _
      · rw [actionsOf_cons_of_ne hx, actionsOf_cons i y [x], actionsOf_cons_of_ne hx]
        exact (List.append_nil _).symm
    calc actionsOf i (x :: y :: l)
        = actionsOf i [x, y] ++ actionsOf i l := actionsOf_append i [x, y] l
      _ = actionsOf i [y, x] ++ actionsOf i l := by rw [hxy]
      _ = actionsOf i (y :: x :: l) := (actionsOf_append i [y, x] l).symm
  | trans _ _ ih ih' => exact ih.trans ih'

end Shuffle

/-- **Interleavings of the same sequences differ by swaps.** -/
theorem shuffle_iff [DecidableEq ι] {l l' : List (ι × A)} :
    Shuffle l l' ↔ ∀ i, actionsOf i l = actionsOf i l' := by
  refine ⟨fun h i => h.actionsOf_eq i, fun h => ?_⟩
  induction l generalizing l' with
  | nil =>
    cases l' with
    | nil => exact .nil
    | cons x l' =>
      have hx := h x.1
      rw [actionsOf_cons_self x.1 x.2] at hx
      exact absurd hx (by simp [actionsOf])
  | cons x l ih =>
    have hx := h x.1
    rw [actionsOf_cons_self x.1 x.2] at hx
    -- the component of `x` has `x` first in the other interleaving as well
    obtain ⟨pre, post, rfl, hpre⟩ := exists_of_actionsOf_cons hx.symm
    have hfront : Shuffle (pre ++ x :: post) (x :: (pre ++ post)) := .to_front post hpre
    have hrest (i : ι) : actionsOf i l = actionsOf i (pre ++ post) := by
      have hi := (h i).trans (hfront.actionsOf_eq i)
      rw [actionsOf_cons, actionsOf_cons i x (pre ++ post)] at hi
      exact List.append_cancel_left hi
    exact .trans (.cons x (ih hrest)) hfront.symm

/-! ### Components -/

/-- How a component acts.  An action that draws finds a fresh name. -/
structure Component (S A T : Type*) where
  step : S → A → T → S
  draws : S → A → Bool

/-- The states of all components, and how many names have been drawn. -/
structure System (ι S : Type*) where
  state : ι → S
  drawn : ℕ

section Runs

variable [DecidableEq ι] (M : Component S A T) (name : ℕ → T)

/-- One component acts. -/
def act (g : System ι S) (x : ι × A) : System ι S where
  state := Function.update g.state x.1 (M.step (g.state x.1) x.2 (name g.drawn))
  drawn := if M.draws (g.state x.1) x.2 then g.drawn + 1 else g.drawn

/-- A run of the system. -/
def run (g : System ι S) (l : List (ι × A)) : System ι S := l.foldl (act M name) g

variable {M name}

theorem act_state_self (g : System ι S) (i : ι) (a : A) :
    (act M name g (i, a)).state i = M.step (g.state i) a (name g.drawn) :=
  Function.update_self ..

theorem act_state_of_ne (g : System ι S) {x : ι × A} {i : ι} (h : i ≠ x.1) :
    (act M name g x).state i = g.state i := Function.update_of_ne h ..

theorem drawn_le_act (g : System ι S) (x : ι × A) : g.drawn ≤ (act M name g x).drawn := by
  rw [act]
  split
  · exact Nat.le_succ _
  · exact le_refl _

theorem drawn_le_run (g : System ι S) (l : List (ι × A)) : g.drawn ≤ (run M name g l).drawn := by
  induction l generalizing g with
  | nil => exact le_refl _
  | cons x l ih => exact (drawn_le_act g x).trans (ih (act M name g x))

/-- No more names are drawn than there are actions that may draw. -/
theorem drawn_run_le {p : A → Bool} (hp : ∀ s a, M.draws s a = true → p a = true)
    (g : System ι S) (l : List (ι × A)) :
    (run M name g l).drawn ≤ g.drawn + l.countP (p ·.2) := by
  induction l generalizing g with
  | nil => exact le_refl _
  | cons x l ih =>
    have hact : (act M name g x).drawn ≤ g.drawn + if p x.2 then 1 else 0 := by
      rw [act]
      split
      · next hd => rw [hp _ _ hd, if_pos rfl]
      · exact Nat.le_add_right ..
    have hrun := ih (act M name g x)
    rw [List.countP_cons]
    show (run M name (act M name g x) l).drawn ≤ _
    omega

end Runs

/-! ### Renaming -/

/-- The permutation moves none but the first `n` names. -/
def Moves (name : ℕ → T) (n : ℕ) (ρ : Equiv.Perm T) : Prop :=
  ∀ t, (∀ k < n, name k ≠ t) → ρ t = t

namespace Moves

variable {name : ℕ → T} {n m : ℕ} {ρ ρ' : Equiv.Perm T}

theorem one : Moves name n 1 := fun _ _ => rfl

theorem mul (h : Moves name n ρ) (h' : Moves name n ρ') : Moves name n (ρ' * ρ) := by
  intro t ht
  rw [Equiv.Perm.mul_apply, h t ht, h' t ht]

theorem mono (h : Moves name n ρ) (hle : n ≤ m) : Moves name m ρ :=
  fun t ht => h t fun k hk => ht k (hk.trans_le hle)

theorem swap [DecidableEq T] : Moves name (n + 2) (Equiv.swap (name n) (name (n + 1))) :=
  fun t ht => Equiv.swap_apply_of_ne_of_ne (ht n (by omega)).symm (ht (n + 1) (by omega)).symm

/-- A name that is still to be drawn is not moved. -/
theorem fixes {limit : ℕ} (h : Moves name n ρ) (hinj : Set.InjOn name (Set.Iio limit))
    (hn : n ≤ m) (hm : m < limit) : ρ (name m) = name m :=
  h _ fun _ hk heq => (hk.trans_le hn).ne (hinj (hk.trans_le (hn.trans hm.le)) hm heq)

end Moves

/-- The component treats the first `limit` names alike, as long as it keeps to `Inv` and what
it has come to `Fits`; both may speak of the names that it makes up for itself. -/
structure Equivariant [MulAction (Equiv.Perm T) S] (M : Component S A T) (name : ℕ → T)
    (limit : ℕ) (Inv Fits : S → Prop) : Prop where
  names : Set.InjOn name (Set.Iio limit)
  step : ∀ {ρ : Equiv.Perm T} {s : S} {a : A} (t : T), Moves name limit ρ → Inv s →
    Fits (M.step s a t) → M.step (ρ • s) a (ρ t) = ρ • M.step s a t
  draws : ∀ (ρ : Equiv.Perm T) (s : S) (a : A), M.draws (ρ • s) a = M.draws s a
  ignores : ∀ {s : S} {a : A} (t t' : T), M.draws s a = false → M.step s a t = M.step s a t'
  inv : ∀ {s : S} {a : A} (t : T), Inv s → Inv (M.step s a t)
  /-- what does not fit never does again -/
  fits : ∀ {s : S} {a : A} (t : T), Fits (M.step s a t) → Fits s
  fits_smul : ∀ (ρ : Equiv.Perm T) {s : S}, Fits s → Fits (ρ • s)

/-- What is not drawn is ignored, so a name that is kept comes out kept. -/
theorem Equivariant.step_of [MulAction (Equiv.Perm T) S] {M : Component S A T} {name : ℕ → T}
    {limit : ℕ} {Inv Fits : S → Prop} (hM : Equivariant M name limit Inv Fits)
    {ρ : Equiv.Perm T} (hρ : Moves name limit ρ) {s : S} {a : A} {t : T} (hs : Inv s)
    (hfits : Fits (M.step s a t)) (ht : M.draws s a = true → ρ t = t) :
    M.step (ρ • s) a t = ρ • M.step s a t := by
  rw [← hM.step t hρ hs hfits]
  cases hd : M.draws s a with
  | true => rw [ht hd]
  | false => exact hM.ignores t (ρ t) ((hM.draws ρ s a).trans hd)

/-! ### Interleaved runs -/

section Interleaved

variable [MulAction (Equiv.Perm T) S]

/-- The systems are the same up to a permutation of the names drawn. -/
def Alike (name : ℕ → T) (g g' : System ι S) : Prop :=
  g'.drawn = g.drawn ∧ ∃ ρ : Equiv.Perm T, Moves name g.drawn ρ ∧ ∀ i, g'.state i = ρ • g.state i

variable {M : Component S A T} {name : ℕ → T} {limit : ℕ} {Inv Fits : S → Prop}
  {g g' : System ι S}

theorem Alike.refl (g : System ι S) : Alike name g g :=
  ⟨rfl, 1, .one, fun _ => (one_smul ..).symm⟩

theorem Alike.trans {g'' : System ι S} (h : Alike name g g') (h' : Alike name g' g'') :
    Alike name g g'' := by
  obtain ⟨hd, ρ, hρ, hs⟩ := h
  obtain ⟨hd', ρ', hρ', hs'⟩ := h'
  rw [hd] at hρ'
  exact ⟨hd'.trans hd, ρ' * ρ, hρ.mul hρ', fun i => by rw [hs', hs, mul_smul]⟩

variable [DecidableEq ι]

/-- The system can take the actions: every component holds drawn names only, comes to
something that fits, and the names do not run out. -/
structure Ready (M : Component S A T) (name : ℕ → T) (limit : ℕ) (Inv Fits : S → Prop)
    (g : System ι S) (l : List (ι × A)) : Prop where
  inv : ∀ i, Inv (g.state i)
  fits : ∀ i, Fits ((run M name g l).state i)
  fresh : ∀ i ρ, Moves name limit ρ → (∀ k < g.drawn, ρ (name k) = name k) →
    ρ • g.state i = g.state i
  enough : (run M name g l).drawn ≤ limit

variable {x y : ι × A} {l l' : List (ι × A)}

theorem Ready.drawn_le (h : Ready M name limit Inv Fits g l) : g.drawn ≤ limit :=
  (drawn_le_run g l).trans h.enough

section Equivariant

variable (hM : Equivariant M name limit Inv Fits)

include hM

/-- What fits in the end did so all along. -/
theorem Equivariant.fits_of_run {i : ι} (h : Fits ((run M name g l).state i)) :
    Fits (g.state i) := by
  induction l generalizing g with
  | nil => exact h
  | cons x l ih =>
    have hact := ih (g := act M name g x) h
    by_cases hi : i = x.1
    · subst hi
      rw [act_state_self g x.1 x.2] at hact
      exact hM.fits _ hact
    · rwa [act_state_of_ne g hi] at hact

namespace Ready

theorem fits_head (h : Ready M name limit Inv Fits g (x :: l)) :
    Fits (M.step (g.state x.1) x.2 (name g.drawn)) := by
  have hact := hM.fits_of_run (g := act M name g x) (h.fits x.1)
  rwa [act_state_self g x.1 x.2] at hact

/-- Ready for one interleaving, ready for another. -/
theorem of_shuffle (h : Ready M name limit Inv Fits g l)
    (hrun : Alike name (run M name g l) (run M name g l')) :
    Ready M name limit Inv Fits g l' where
  inv := h.inv
  fits i := by
    obtain ⟨-, ρ, -, hs⟩ := hrun
    rw [hs]
    exact hM.fits_smul ρ (h.fits i)
  fresh := h.fresh
  enough := hrun.1.trans_le h.enough

/-- **The system stays ready.** -/
theorem next (h : Ready M name limit Inv Fits g (x :: l)) :
    Ready M name limit Inv Fits (act M name g x) l where
  inv i := by
    by_cases hi : i = x.1
    · subst hi
      rw [act_state_self g x.1 x.2]
      exact hM.inv _ (h.inv x.1)
    · rw [act_state_of_ne g hi]
      exact h.inv i
  fits := h.fits
  fresh i ρ hρ hfix := by
    have hold := h.fresh i ρ hρ fun k hk => hfix k (hk.trans_le (drawn_le_act g x))
    by_cases hi : i = x.1
    · subst hi
      rw [act_state_self g x.1 x.2, ← hM.step_of hρ (h.inv x.1) (h.fits_head hM), hold]
      -- what the action drew is among the names that are kept
      intro hd
      refine hfix g.drawn ?_
      rw [act, if_pos hd]
      exact Nat.lt_succ_self _
    · rwa [act_state_of_ne g hi]
  enough := h.enough

/-- Like systems stay alike. -/
theorem alike_act (h : Ready M name limit Inv Fits g (x :: l)) (hg : Alike name g g') :
    Alike name (act M name g x) (act M name g' x) := by
  obtain ⟨hd, ρ, hρ, hs⟩ := hg
  have hdraws : M.draws (g'.state x.1) x.2 = M.draws (g.state x.1) x.2 := by
    rw [hs, hM.draws]
  have hle := (h.next hM).drawn_le
  refine ⟨?_, ρ, hρ.mono (drawn_le_act g x), fun i => ?_⟩
  · rw [act, act, hdraws, hd]
  · by_cases hi : i = x.1
    · subst hi
      rw [act_state_self g x.1 x.2, act_state_self g' x.1 x.2, hs, hd]
      refine hM.step_of (hρ.mono h.drawn_le) (h.inv x.1) (h.fits_head hM) fun hdraw => ?_
      rw [act, if_pos hdraw] at hle
      exact hρ.fixes hM.names le_rfl hle
    · rw [act_state_of_ne g hi, act_state_of_ne g' hi, hs]

theorem alike_run (h : Ready M name limit Inv Fits g l) (hg : Alike name g g') :
    Alike name (run M name g l) (run M name g' l) := by
  induction l generalizing g g' with
  | nil => exact hg
  | cons x l ih => exact ih (h.next hM) (h.alike_act hM hg)

/-- Two components that act in the other order draw each other's names. -/
theorem exists_exchange (h : Ready M name limit Inv Fits g (x :: y :: l)) (hxy : x.1 ≠ y.1) :
    ∃ ρ, Moves name (act M name (act M name g x) y).drawn ρ ∧
      M.step (g.state x.1) x.2 (name (act M name g y).drawn) =
        ρ • M.step (g.state x.1) x.2 (name g.drawn) ∧
      M.step (g.state y.1) y.2 (name g.drawn) =
        ρ • M.step (g.state y.1) y.2 (name (act M name g x).drawn) ∧
      ∀ i, ρ • g.state i = g.state i := by
  classical
  have hy : (act M name g x).state y.1 = g.state y.1 :=
    act_state_of_ne g hxy.symm
  have hfits : Fits (M.step (g.state y.1) y.2 (name (act M name g x).drawn)) := by
    have hnext := (h.next hM).fits_head hM
    rwa [hy] at hnext
  by_cases hboth : M.draws (g.state x.1) x.2 = true ∧ M.draws (g.state y.1) y.2 = true
  · -- both draw: the two names are exchanged
    obtain ⟨hdx, hdy⟩ := hboth
    have hdrawnx : (act M name g x).drawn = g.drawn + 1 := if_pos hdx
    have hdrawny : (act M name g y).drawn = g.drawn + 1 := if_pos hdy
    have hdrawn : (act M name (act M name g x) y).drawn =
        g.drawn + 2 := by
      rw [act, hy, if_pos hdy, hdrawnx]
    have hlimit : g.drawn + 2 ≤ limit := hdrawn ▸ ((h.next hM).next hM).drawn_le
    have hρ : Moves name (g.drawn + 2) (Equiv.swap (name g.drawn) (name (g.drawn + 1))) := .swap
    have hfresh (i : ι) : Equiv.swap (name g.drawn) (name (g.drawn + 1)) • g.state i =
        g.state i := by
      refine h.fresh i _ (hρ.mono hlimit) fun k hk => ?_
      have hne (m : ℕ) (hm : g.drawn ≤ m) (hlt : m < limit) : name k ≠ name m := fun heq =>
        (hk.trans_le hm).ne (hM.names (hk.trans_le (hm.trans hlt.le)) hlt heq)
      exact Equiv.swap_apply_of_ne_of_ne (hne _ le_rfl (by omega)) (hne _ (by omega) (by omega))
    refine ⟨_, hdrawn ▸ hρ, ?_, ?_, hfresh⟩
    · rw [← hM.step _ (hρ.mono hlimit) (h.inv x.1) (h.fits_head hM), hfresh,
        Equiv.swap_apply_left, hdrawny]
    · rw [← hM.step _ (hρ.mono hlimit) (h.inv y.1) hfits, hfresh, hdrawnx,
        Equiv.swap_apply_right]
  · -- at most one draws, and what it draws is the same
    refine ⟨1, .one, ?_, ?_, fun _ => one_smul ..⟩
    · rw [one_smul, act]
      split
      · next hdy => exact hM.ignores _ _ (by simpa [hdy] using hboth)
      · rfl
    · rw [one_smul, act]
      split
      · next hdx => exact hM.ignores _ _ (by simpa [hdx] using hboth)
      · rfl

/-- **A swap leaves like systems.** -/
theorem alike_swap (h : Ready M name limit Inv Fits g (x :: y :: l)) (hxy : x.1 ≠ y.1) :
    Alike name (act M name (act M name g x) y)
      (act M name (act M name g y) x) := by
  obtain ⟨ρ, hρ, hx, hy, hother⟩ := h.exists_exchange hM hxy
  refine ⟨?_, ρ, hρ, fun i => ?_⟩
  · simp only [act, Function.update_of_ne hxy, Function.update_of_ne hxy.symm]
    split_ifs <;> rfl
  · by_cases hix : i = x.1
    · subst hix
      rw [act_state_self _ x.1 x.2, act_state_of_ne g hxy, act_state_of_ne _ hxy,
        act_state_self g x.1 x.2, hx]
    · by_cases hiy : i = y.1
      · subst hiy
        rw [act_state_of_ne _ hxy.symm, act_state_self g y.1 y.2, act_state_self _ y.1 y.2,
          act_state_of_ne g hxy.symm, hy]
      · rw [act_state_of_ne _ hix, act_state_of_ne _ hiy, act_state_of_ne _ hiy,
          act_state_of_ne _ hix, hother]

end Ready

/-- Interleavings that differ by swaps leave like systems. -/
theorem Shuffle.alike (hl : Shuffle l l') :
    ∀ {g g' : System ι S}, Ready M name limit Inv Fits g l → Ready M name limit Inv Fits g' l →
      Alike name g g' → Alike name (run M name g l) (run M name g' l') := by
  induction hl with
  | nil => exact fun _ _ hg => hg
  | cons x _ ih => exact fun h h' hg => ih (h.next hM) (h'.next hM) (h.alike_act hM hg)
  | swap hxy l =>
    intro g g' h h' hg
    exact (h.alike_run hM hg).trans
      (((h'.next hM).next hM).alike_run hM (h'.alike_swap hM hxy))
  | trans hl _ ih ih' =>
    intro g g' h h' hg
    exact (ih h h (.refl g)).trans (ih' (h.of_shuffle hM (ih h h (.refl g)))
      (h'.of_shuffle hM (ih h' h' (.refl g'))) hg)

/-- **Interleavings of the same sequences leave every component in the same state**, up
to one permutation of the names drawn. -/
theorem run_interleaved (h : Ready M name limit Inv Fits g l)
    (hl : ∀ i, actionsOf i l = actionsOf i l') : Alike name (run M name g l) (run M name g l') :=
  (shuffle_iff.mpr hl).alike hM h h (.refl g)

end Equivariant

end Interleaved

/-! ### The first decision -/

section FirstDecision

variable {D : Type*} (decides : List A → A → Option D)

/-- What the first action decides that decides anything; `decides` is given the actions
before it, and `before` are those before the first. -/
def firstDecision (before : List A) : List A → Option D
  | [] => none
  | a :: as => (decides before a).or (firstDecision (before ++ [a]) as)

/-- An action decides at the end if nothing has been decided before. -/
theorem firstDecision_append_singleton (before as : List A) (a : A) :
    firstDecision decides before (as ++ [a]) =
      (firstDecision decides before as).or (decides (before ++ as) a) := by
  induction as generalizing before with
  | nil => rw [List.nil_append, firstDecision, firstDecision, firstDecision, List.append_nil,
      Option.or_none, Option.none_or]
  | cons x as ih =>
    rw [List.cons_append, firstDecision, firstDecision, ih, Option.or_assoc, List.append_assoc,
      List.singleton_append]

end FirstDecision

end Interleaving
