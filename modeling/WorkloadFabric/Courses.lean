/-
What is observed of a part of a machine along a run.

The part may not be there yet; once it is there it shows a value after every action.
Its course is what it shows, without repetitions.

* **`course_concat`** — one more action lengthens the course exactly if the part shows
  something else behind it;
* **`course_born`** — the course of a part begins when the part does.
-/
import Mathlib.Data.List.Destutter
import Mathlib.Data.List.Infix
import Mathlib.Tactic.Common

namespace Machine

/-! ### Repetitions -/

section Repetitions

variable {O : Type*} [DecidableEq O]

theorem getLast?_destutter' (a : O) (l : List O) :
    (l.destutter' (· ≠ ·) a).getLast? = (a :: l).getLast? := by
  induction l generalizing a with
  | nil => rfl
  | cons b l ih =>
    rw [List.getLast?_cons_cons]
    by_cases h : a = b
    · subst h
      rw [List.destutter'_cons_neg _ (not_not.mpr rfl), ih]
    · rw [List.destutter'_cons_pos _ h, List.getLast?_cons, ih, List.getLast?_cons]
      rfl

/-- The last value stands last. -/
theorem getLast?_destutter (l : List O) : (l.destutter (· ≠ ·)).getLast? = l.getLast? := by
  cases l with
  | nil => rfl
  | cons a l => exact getLast?_destutter' a l

theorem destutter'_concat (a : O) (l : List O) (b : O) :
    (l ++ [b]).destutter' (· ≠ ·) a =
      if (a :: l).getLast? = some b then l.destutter' (· ≠ ·) a
      else l.destutter' (· ≠ ·) a ++ [b] := by
  induction l generalizing a with
  | nil =>
    by_cases h : a = b
    · subst h
      simp
    · simp [h]
  | cons c l ih =>
    rw [List.getLast?_cons_cons, List.cons_append]
    by_cases h : a = c
    · subst h
      have hsame : ¬a ≠ a := not_not.mpr rfl
      rw [List.destutter'_cons_neg _ hsame, List.destutter'_cons_neg _ hsame, ih]
    · rw [List.destutter'_cons_pos _ h, List.destutter'_cons_pos _ h, ih]
      split <;> rfl

/-- One more value is new if it is not the last one. -/
theorem destutter_concat (l : List O) (b : O) :
    (l ++ [b]).destutter (· ≠ ·) =
      if l.getLast? = some b then l.destutter (· ≠ ·) else l.destutter (· ≠ ·) ++ [b] := by
  cases l with
  | nil => rfl
  | cons a l => exact destutter'_concat a l b

end Repetitions

/-! ### The course -/

section Course

variable {S A O : Type*} (next : S → A → S) (look : S → Option O) (s : S)

/-- What the part shows, in the beginning and after every action. -/
def shown (as : List A) : List O := as.inits.filterMap fun pre => look (pre.foldl next s)

variable {next look s}

theorem shown_concat (as : List A) (a : A) :
    shown next look s (as ++ [a]) =
      shown next look s as ++ (look ((as ++ [a]).foldl next s)).toList := by
  rw [shown, List.inits_append, List.filterMap_append, shown]
  rfl

theorem getLast?_shown {as : List A} {o : O} (h : look (as.foldl next s) = some o) :
    (shown next look s as).getLast? = some o := by
  induction as using List.reverseRecOn with
  | nil => simp_all [shown]
  | append_singleton as a _ =>
    rw [shown_concat, h]
    exact List.getLast?_concat ..

variable [DecidableEq O]

/-- What the part shows, without repetitions. -/
def course (next : S → A → S) (look : S → Option O) (s : S) (as : List A) : List O :=
  (shown next look s as).destutter (· ≠ ·)

theorem getLast?_course {as : List A} {o : O} (h : look (as.foldl next s) = some o) :
    (course next look s as).getLast? = some o := by
  rw [course, getLast?_destutter, getLast?_shown h]

/-- **One more action lengthens the course if the part shows something else behind it.** -/
theorem course_concat {as : List A} {a : A} {o o' : O} (h : look (as.foldl next s) = some o)
    (h' : look ((as ++ [a]).foldl next s) = some o') :
    course next look s (as ++ [a]) =
      if o = o' then course next look s as else course next look s as ++ [o'] := by
  rw [course, shown_concat, h', Option.toList_some, destutter_concat, getLast?_shown h]
  simp only [Option.some.injEq]
  rfl

/-- What has not been there so far has no course. -/
theorem shown_eq_nil {as : List A} (h : course next look s as = []) :
    shown next look s as = [] := by
  rwa [course, List.destutter_eq_nil] at h

theorem course_unborn {as : List A} {a : A} (h : course next look s as = [])
    (h' : look ((as ++ [a]).foldl next s) = none) : course next look s (as ++ [a]) = [] := by
  rw [course, shown_concat, shown_eq_nil h, h']
  rfl

/-- **The course begins when the part does.** -/
theorem course_born {as : List A} {a : A} {o : O} (h : course next look s as = [])
    (h' : look ((as ++ [a]).foldl next s) = some o) :
    course next look s (as ++ [a]) = [o] := by
  rw [course, shown_concat, shown_eq_nil h, h']
  rfl

end Course

end Machine
