/-
Runs of a deterministic machine, action by action.

A run folds its actions into the state.  Four facts about runs are kept here, for
any states and actions:

* **`always_iff_along`** — where the good actions are those that keep a property,
  the property holds of every state reached exactly when every action is good;
* **`last_iff_along`** — where the property, once lost, stays lost, the last state
  tells;
* **`kept_iff_along`** — where the good actions are those that keep a relation to the
  state before, later states stand in it to all earlier ones exactly when every action
  is good;
* **`heard_of_silent`** — actions that change nothing can be struck from a run, and
  no other action gets another response.
-/
import Mathlib.Tactic.Common

namespace Machine

universe u v w

variable {S : Type u} {A : Type v}

/-! ### Good actions -/

section Along

variable (next : S → A → S)

/-- Every action of the run is good in the state where it is taken. -/
def Along (good : S → A → Prop) : S → List A → Prop
  | _, [] => True
  | s, a :: as => good s a ∧ Along good (next s a) as

variable {next} {good : S → A → Prop}

theorem along_iff {s : S} {as : List A} :
    Along next good s as ↔ ∀ pre a post, as = pre ++ a :: post → good (pre.foldl next s) a := by
  induction as generalizing s with
  | nil => exact iff_of_true trivial fun pre a post h => absurd h (by simp)
  | cons b as ih =>
    rw [Along, ih]
    constructor
    · rintro ⟨hb, has⟩ pre a post h
      rcases pre with _ | ⟨c, pre⟩
      · obtain ⟨rfl, -⟩ := List.cons.inj h
        exact hb
      · obtain ⟨rfl, heq⟩ := List.cons.inj h
        exact has pre a post heq
    · intro h
      exact ⟨h [] b as rfl, fun pre a post heq => h (b :: pre) a post (congrArg (b :: ·) heq)⟩

theorem along_append {s : S} {as bs : List A} :
    Along next good s (as ++ bs) ↔ Along next good s as ∧ Along next good (as.foldl next s) bs := by
  induction as generalizing s with
  | nil => exact ⟨fun h => ⟨trivial, h⟩, fun h => h.2⟩
  | cons a as ih => exact (and_congr_right fun _ => ih).trans and_assoc.symm

theorem along_of_forall {s : S} {as : List A} (h : ∀ s, ∀ a ∈ as, good s a) :
    Along next good s as :=
  along_iff.mpr fun _ a _ heq => h _ a (by rw [heq]; simp)

/-- **What a state has stays with all later ones exactly when every action is good**, if
the good actions are those that keep it. -/
theorem kept_iff_along {R : S → S → Prop} (hrefl : ∀ s, R s s)
    (htrans : ∀ {s t u}, R s t → R t u → R s u) (hkeep : ∀ s a, R s (next s a) ↔ good s a) {s : S}
    {as : List A} :
    (∀ pre mid post, as = pre ++ mid ++ post →
      R (pre.foldl next s) ((pre ++ mid).foldl next s)) ↔ Along next good s as := by
  constructor
  · intro h
    refine along_iff.mpr fun pre a post heq => (hkeep _ a).mp ?_
    have ha := h pre [a] post (by rw [heq, List.append_assoc]; rfl)
    rwa [List.foldl_append] at ha
  · rintro h pre mid post rfl
    rw [along_append, along_append] at h
    obtain ⟨⟨-, hmid⟩, -⟩ := h
    rw [List.foldl_append]
    generalize pre.foldl next s = t at hmid
    induction mid generalizing t with
    | nil => exact hrefl t
    | cons a mid ih => exact htrans ((hkeep t a).mpr hmid.1) (ih _ hmid.2)

variable {K : S → A → Prop} {I P : S → Prop} (hinv : ∀ s a, K s a → I s → I (next s a))
  (hstep : ∀ s a, K s a → I s → P s → (P (next s a) ↔ good s a))

include hinv

/-- An invariant holds of every state reached. -/
theorem invariant_run {s : S} (hs : I s) {as : List A} (hok : Along next K s as) :
    I (as.foldl next s) := by
  induction as generalizing s with
  | nil => exact hs
  | cons a as ih => exact ih (hinv s a hok.1 hs) hok.2

include hstep

/-- **A property holds of every state reached exactly when every action is good**, if
the good actions are those that keep it. -/
theorem always_iff_along {s : S} (hs : I s) (hP : P s) {as : List A} (hok : Along next K s as) :
    (∀ pre post, as = pre ++ post → P (pre.foldl next s)) ↔ Along next good s as := by
  induction as generalizing s with
  | nil =>
    refine iff_of_true (fun pre post h => ?_) trivial
    obtain ⟨rfl, -⟩ := List.append_eq_nil_iff.mp h.symm
    exact hP
  | cons a as ih =>
    obtain ⟨hoka, hokas⟩ := hok
    have hnext := hinv s a hoka hs
    rw [Along, ← hstep s a hoka hs hP]
    constructor
    · intro h
      have ha : P (next s a) := h [a] as rfl
      exact ⟨ha, (ih hnext ha hokas).mp fun pre post heq =>
        h (a :: pre) post (congrArg (a :: ·) heq)⟩
    · rintro ⟨ha, has⟩ pre post h
      rcases pre with _ | ⟨b, pre⟩
      · exact hP
      · obtain ⟨rfl, heq⟩ := List.cons.inj h
        exact (ih hnext ha hokas).mpr has pre post heq

/-- **The last state tells**, if the property stays lost once it is lost. -/
theorem last_iff_along (hlost : ∀ s a, K s a → I s → ¬P s → ¬P (next s a)) {s : S} (hs : I s)
    (hP : P s) {as : List A} (hok : Along next K s as) :
    P (as.foldl next s) ↔ Along next good s as := by
  rw [← always_iff_along hinv hstep hs hP hok]
  constructor
  · intro h pre post heq
    by_contra hpre
    -- lost on the way, and lost at the end
    have hlast : ∀ (post : List A) {t : S}, Along next K t post → I t → ¬P t →
        ¬P (post.foldl next t) := by
      intro post
      induction post with
      | nil => exact fun _ _ ht => ht
      | cons a post ih =>
        intro t hok hI ht
        exact ih hok.2 (hinv t a hok.1 hI) (hlost t a hok.1 hI ht)
    rw [heq, List.foldl_append] at h
    rw [heq] at hok
    obtain ⟨hokpre, hokpost⟩ := along_append.mp hok
    exact hlast post hokpost (invariant_run hinv hs hokpre) hpre h
  · exact fun h => h as [] (List.append_nil as).symm

end Along

/-! ### Silent actions -/

section Silent

variable {R : Type w} (step : S → A → R × S)

/-- The state after a run. -/
def after (s : S) (as : List A) : S := as.foldl (fun s a => (step s a).2) s

/-- What the kept actions of a run get for a response; a struck action is marked
`false`. -/
def heard : S → List (Bool × A) → List R
  | _, [] => []
  | s, (kept, a) :: as =>
    if kept then (step s a).1 :: heard (step s a).2 as else heard (step s a).2 as

/-- The run without its struck actions. -/
def struck (as : List (Bool × A)) : List A := (as.filter (·.1)).map (·.2)

/-- The responses to a run. -/
def responses (s : S) (as : List A) : List R := heard step s (as.map fun a => (true, a))

variable {step} {E : S → S → Prop} (htrans : ∀ {s t u}, E s t → E t u → E s u)
  (hstep : ∀ {s t} a, E s t → (step s a).1 = (step t a).1 ∧ E (step s a).2 (step t a).2)

include htrans hstep

/-- **Silent actions can be struck.**  Where each struck action would leave the state
as it is, the kept ones get the same responses without it, and the run ends in the
same state. -/
theorem heard_of_silent {s t : S} (hst : E s t) {as : List (Bool × A)}
    (h : Along (fun s a => (step s a.2).2) (fun s a => a.1 = false → E (step s a.2).2 s) s as) :
    heard step s as = responses step t (struck as) ∧
      E (after step s (as.map (·.2))) (after step t (struck as)) := by
  induction as generalizing s t with
  | nil => exact ⟨rfl, hst⟩
  | cons a as ih =>
    obtain ⟨kept, a⟩ := a
    obtain ⟨ha, has⟩ := h
    cases kept with
    | false =>
      -- the other run stays where it is
      have hs : E (step s a).2 t := htrans (ha rfl) hst
      exact ih hs has
    | true =>
      obtain ⟨hr, hnext⟩ := hstep a hst
      obtain ⟨hheard, hafter⟩ := ih hnext has
      refine ⟨?_, hafter⟩
      show (step s a).1 :: heard step (step s a).2 as =
        (step t a).1 :: responses step (step t a).2 (struck as)
      rw [hr, hheard]

end Silent

end Machine
