/-
Lists searched from the front, and lists whose last member is the marked one.

`modifyFirst p f l` writes `f` through a reference to the first member of `l`
that satisfies `p`, which is what a search loop that keeps a pointer does.
`SoleLast p l` says that the last member of `l` is its one and only member
satisfying `p` (or that `l` is empty); a list keeps this shape when members are
rewritten without touching `p`, and when every member is unmarked and a marked
one is pushed at the back.  Lists whose members stand in a relation are counted
and searched alike (`countP_forall₂`, `find?_forall₂`).
-/
import Mathlib.Tactic
import Mathlib.Data.List.ModifyLast

namespace FirstMatch

variable {α β : Type*}

/-- Apply `f` to the first member satisfying `p`. -/
def modifyFirst (p : α → Bool) (f : α → α) : List α → List α
  | [] => []
  | a :: l => if p a then f a :: l else a :: modifyFirst p f l

@[simp] theorem modifyFirst_nil (p : α → Bool) (f : α → α) : modifyFirst p f [] = [] := rfl

theorem modifyFirst_cons_pos {p : α → Bool} {f : α → α} {a : α} {l : List α} (h : p a = true) :
    modifyFirst p f (a :: l) = f a :: l := by
  rw [modifyFirst, if_pos h]

theorem modifyFirst_cons_neg {p : α → Bool} {f : α → α} {a : α} {l : List α} (h : p a = false) :
    modifyFirst p f (a :: l) = a :: modifyFirst p f l := by
  rw [modifyFirst, if_neg (by simp [h])]

/-- What `f` leaves alone is left alone in the whole list. -/
theorem map_modifyFirst {p : α → Bool} {f : α → α} {g : α → β} (h : ∀ a, g (f a) = g a) :
    ∀ l : List α, (modifyFirst p f l).map g = l.map g
  | [] => rfl
  | a :: l => by
    rcases hp : p a with _ | _
    · rw [modifyFirst_cons_neg hp, List.map_cons, map_modifyFirst h l, List.map_cons]
    · rw [modifyFirst_cons_pos hp, List.map_cons, h, List.map_cons]

@[simp] theorem length_modifyFirst (p : α → Bool) (f : α → α) (l : List α) :
    (modifyFirst p f l).length = l.length := by
  simpa using congrArg List.length (map_modifyFirst (g := fun _ => ()) (fun _ => rfl) l)

/-- When the first match is the last member, it is the member rewritten. -/
theorem modifyFirst_append_singleton {p : α → Bool} {f : α → α} {a : α} (ha : p a = true) :
    ∀ {l : List α}, (∀ b ∈ l, p b = false) → modifyFirst p f (l ++ [a]) = l ++ [f a]
  | [], _ => modifyFirst_cons_pos ha
  | b :: l, h => by
    rw [List.cons_append, modifyFirst_cons_neg (h b List.mem_cons_self),
      modifyFirst_append_singleton ha fun c hc => h c (List.mem_cons_of_mem _ hc)]
    rfl

theorem find?_append_singleton {p : α → Bool} {a : α} (ha : p a = true) {l : List α}
    (h : ∀ b ∈ l, p b = false) : (l ++ [a]).find? p = some a := by
  rw [List.find?_append, List.find?_eq_none.mpr (by simpa using h)]
  simp [ha]

/-- A search for what `f` does not touch finds the old member, maybe rewritten. -/
theorem find?_modifyFirst {p q : α → Bool} {f : α → α} (hf : ∀ a, q (f a) = q a) {b : α} :
    ∀ {l : List α}, (modifyFirst p f l).find? q = some b →
      ∃ a, l.find? q = some a ∧ (b = a ∨ b = f a)
  | [], h => absurd h (by simp)
  | a :: l, h => by
    rcases hp : p a with _ | _
    · rw [modifyFirst_cons_neg hp] at h
      rcases hq : q a with _ | _
      · rw [List.find?_cons_of_neg (by simp [hq])] at h ⊢
        exact find?_modifyFirst hf h
      · rw [List.find?_cons_of_pos hq] at h ⊢
        exact ⟨a, rfl, .inl (Option.some.inj h).symm⟩
    · rw [modifyFirst_cons_pos hp] at h
      rcases hq : q a with _ | _
      · rw [List.find?_cons_of_neg (by simp [hf, hq])] at h
        rw [List.find?_cons_of_neg (by simp [hq])]
        exact ⟨b, h, .inl rfl⟩
      · rw [List.find?_cons_of_pos (by rw [hf, hq])] at h
        rw [List.find?_cons_of_pos hq]
        exact ⟨a, rfl, .inr (Option.some.inj h).symm⟩

/-- The search that the rewriting made finds the member rewritten. -/
theorem find?_modifyFirst_self {p : α → Bool} {f : α → α} (hf : ∀ a, p (f a) = p a) :
    ∀ l : List α, (modifyFirst p f l).find? p = (l.find? p).map f
  | [] => rfl
  | a :: l => by
    rcases hp : p a with _ | _
    · rw [modifyFirst_cons_neg hp, List.find?_cons_of_neg (by simp [hp]),
        List.find?_cons_of_neg (by simp [hp]), find?_modifyFirst_self hf l]
    · rw [modifyFirst_cons_pos hp, List.find?_cons_of_pos (by rw [hf, hp]),
        List.find?_cons_of_pos hp, Option.map_some]

/-- A search that never stops at the rewritten member finds what it found before. -/
theorem find?_modifyFirst_of_neg {p q : α → Bool} {f : α → α}
    (h : ∀ a, p a = true → q a = false ∧ q (f a) = false) :
    ∀ l : List α, (modifyFirst p f l).find? q = l.find? q
  | [] => rfl
  | a :: l => by
    rcases hp : p a with _ | _
    · rw [modifyFirst_cons_neg hp, List.find?_cons, List.find?_cons,
        find?_modifyFirst_of_neg h l]
    · obtain ⟨hq, hqf⟩ := h a hp
      rw [modifyFirst_cons_pos hp, List.find?_cons_of_neg (by simp [hqf]),
        List.find?_cons_of_neg (by simp [hq])]

theorem find?_modifyLast {q : α → Bool} {f : α → α} (hf : ∀ a, q (f a) = q a) {b : α}
    {l : List α} (h : (l.modifyLast f).find? q = some b) :
    ∃ a, l.find? q = some a ∧ (b = a ∨ b = f a) := by
  rcases l.eq_nil_or_concat with rfl | ⟨init, a, rfl⟩
  · exact absurd (show List.find? q [] = some b from h) (by simp)
  · rw [List.concat_eq_append] at h ⊢
    rw [List.modifyLast_concat, List.find?_append] at h
    rw [List.find?_append]
    cases hi : init.find? q with
    | some c =>
      rw [hi, Option.some_or, Option.some.injEq] at h
      exact ⟨c, rfl, .inl h.symm⟩
    | none =>
      rw [hi, Option.none_or, List.find?_singleton, hf] at h
      rw [Option.none_or, List.find?_singleton]
      cases hq : q a with
      | true =>
        rw [hq, if_pos rfl, Option.some.injEq] at h
        exact ⟨a, rfl, .inr h.symm⟩
      | false =>
        rw [hq] at h
        exact absurd h (by simp)

/-- Where keys are unique, a search by key stops at the member it is for. -/
theorem find?_of_nodup [DecidableEq β] {k : α → β} :
    ∀ {l : List α}, (l.map k).Nodup → ∀ {a : α}, a ∈ l → l.find? (k · == k a) = some a
  | [], _, _, ha => absurd ha List.not_mem_nil
  | b :: l, h, a, ha => by
    rw [List.map_cons, List.nodup_cons] at h
    rcases List.mem_cons.mp ha with rfl | ha
    · exact List.find?_cons_of_pos (by simp)
    · have hne : k b ≠ k a := fun heq => h.1 (heq ▸ List.mem_map_of_mem ha)
      rw [List.find?_cons_of_neg (by simpa using hne)]
      exact find?_of_nodup h.2 ha

theorem map_modifyLast {f : α → α} {g : α → β} (h : ∀ a, g (f a) = g a) (l : List α) :
    (l.modifyLast f).map g = l.map g := by
  rcases l.eq_nil_or_concat with rfl | ⟨init, a, rfl⟩
  · rfl
  · rw [List.concat_eq_append, List.modifyLast_concat, List.map_append, List.map_append,
      List.map_singleton, List.map_singleton, h]

/-! ### Lists under a map -/

theorem modifyFirst_map {p : β → Bool} {q : α → Bool} {f : β → β} {f' : α → α} {g : α → β}
    (hp : ∀ a, p (g a) = q a) (hf : ∀ a, f (g a) = g (f' a)) :
    ∀ l : List α, modifyFirst p f (l.map g) = (modifyFirst q f' l).map g
  | [] => rfl
  | a :: l => by
    rcases hq : q a with _ | _
    · rw [List.map_cons, modifyFirst_cons_neg ((hp a).trans hq), modifyFirst_cons_neg hq,
        modifyFirst_map hp hf l, List.map_cons]
    · rw [List.map_cons, modifyFirst_cons_pos ((hp a).trans hq), modifyFirst_cons_pos hq, hf,
        List.map_cons]

theorem modifyLast_map {f : β → β} {f' : α → α} {g : α → β} (hf : ∀ a, f (g a) = g (f' a))
    (l : List α) : (l.map g).modifyLast f = (l.modifyLast f').map g := by
  rcases l.eq_nil_or_concat with rfl | ⟨init, a, rfl⟩
  · rfl
  · rw [List.concat_eq_append, List.map_append, List.map_singleton, List.modifyLast_concat,
      List.modifyLast_concat, List.map_append, List.map_singleton, hf]

theorem find?_map {p : β → Bool} {q : α → Bool} {g : α → β} (hp : ∀ a, p (g a) = q a)
    (l : List α) : (l.map g).find? p = (l.find? q).map g := by
  rw [List.find?_map, show p ∘ g = q from funext hp]

/-! ### Members by their place -/

/-- The first match, by its place. -/
theorem find?_eq_getElem? (p : α → Bool) : ∀ l : List α, l.find? p = l[l.findIdx p]?
  | [] => rfl
  | a :: l => by
    rcases hp : p a with _ | _
    · rw [List.find?_cons_of_neg (by simp [hp]), List.findIdx_cons, hp, cond_false,
        List.getElem?_cons_succ, find?_eq_getElem? p l]
    · rw [List.find?_cons_of_pos hp, List.findIdx_cons, hp, cond_true, List.getElem?_cons_zero]

theorem modifyFirst_eq_mapIdx (p : α → Bool) (f : α → α) : ∀ l : List α,
    modifyFirst p f l = l.mapIdx fun i a => if l.findIdx p = i then f a else a
  | [] => rfl
  | a :: l => by
    rcases hp : p a with _ | _
    · rw [modifyFirst_cons_neg hp, modifyFirst_eq_mapIdx p f l, List.mapIdx_cons,
        List.findIdx_cons, hp, cond_false, if_neg (Nat.succ_ne_zero _)]
      simp only [Nat.add_right_cancel_iff]
    · rw [modifyFirst_cons_pos hp, List.mapIdx_cons, List.findIdx_cons, hp, cond_true, if_pos rfl]
      refine congrArg (f a :: ·) (List.mapIdx_eq_iff.mpr fun i => ?_).symm
      cases l[i]? <;> rfl

theorem modifyLast_eq_mapIdx (f : α → α) (l : List α) :
    l.modifyLast f = l.mapIdx fun i a => if l.length - 1 = i then f a else a := by
  rcases l.eq_nil_or_concat with rfl | ⟨init, a, rfl⟩
  · rfl
  · rw [List.concat_eq_append, List.modifyLast_concat, List.mapIdx_append, List.length_append,
      List.length_singleton, Nat.add_sub_cancel, List.mapIdx_singleton]
    rw [Nat.zero_add, if_pos rfl]
    refine congrArg (· ++ [f a]) (List.mapIdx_eq_iff.mpr fun i => ?_).symm
    rcases hi : init[i]? with _ | b
    · rfl
    · have hlt := (List.getElem?_eq_some_iff.mp hi).1
      rw [Option.map_some, if_neg (by omega)]

/-- Rewriting one place changes nothing exactly when its member is left as it is. -/
theorem mapIdx_at_eq_self {k : ℕ} {f : α → α} {l : List α} :
    (l.mapIdx fun i a => if k = i then f a else a) = l ↔ ∀ a, l[k]? = some a → f a = a := by
  constructor
  · intro h a ha
    have hk := congrArg (·[k]?) h
    simp only [List.getElem?_mapIdx, ha, Option.map_some, if_pos, Option.some.injEq] at hk
    exact hk
  · intro h
    refine List.mapIdx_eq_iff.mpr fun i => ?_
    rcases hi : l[i]? with _ | a
    · rfl
    · rw [Option.map_some]
      by_cases hk : k = i
      · rw [if_pos hk, h a (hk ▸ hi)]
      · rw [if_neg hk]

/-! ### The sole marked member stands last -/

/-- `l` is empty, or its last member is its only member satisfying `p`. -/
def SoleLast (p : α → Bool) (l : List α) : Prop :=
  l = [] ∨ ∃ init a, l = init ++ [a] ∧ p a = true ∧ ∀ b ∈ init, p b = false

theorem SoleLast.nil (p : α → Bool) : SoleLast p [] := .inl rfl

/-- Handing the mark over: unmark everyone, push a marked member. -/
theorem SoleLast.handOver {p : α → Bool} {l : List α} {a : α} (ha : p a = true)
    (hl : ∀ b ∈ l, p b = false) : SoleLast p (l ++ [a]) :=
  .inr ⟨l, a, rfl, ha, hl⟩

/-- The shape only depends on the marks. -/
theorem SoleLast.of_map {p : α → Bool} {l l' : List α} (h : SoleLast p l)
    (hm : l'.map p = l.map p) : SoleLast p l' := by
  rcases h with rfl | ⟨init, a, rfl, ha, hinit⟩
  · left
    simpa using hm
  · right
    rw [List.map_append, List.map_singleton] at hm
    obtain ⟨init', last, rfl, h1, h2⟩ := List.map_eq_append_iff.mp hm
    obtain ⟨a', rfl, ha'⟩ := List.map_eq_singleton_iff.mp h2
    refine ⟨init', a', rfl, by rw [ha', ha], fun b hb => ?_⟩
    have hmem : p b ∈ init.map p := h1 ▸ List.mem_map_of_mem hb
    obtain ⟨c, hc, hpc⟩ := List.mem_map.mp hmem
    rw [← hpc, hinit c hc]

theorem SoleLast.modifyFirst {p q : α → Bool} {f : α → α} {l : List α} (h : SoleLast p l)
    (hf : ∀ a, p (f a) = p a) : SoleLast p (modifyFirst q f l) :=
  h.of_map (map_modifyFirst hf l)

theorem SoleLast.countP_le_one {p : α → Bool} {l : List α} (h : SoleLast p l) :
    l.countP p ≤ 1 := by
  rcases h with rfl | ⟨init, a, rfl, -, hinit⟩
  · exact Nat.zero_le _
  · have hnone : init.countP p = 0 := List.countP_eq_zero.mpr fun b hb => by simp [hinit b hb]
    rw [List.countP_append, hnone, Nat.zero_add]
    exact List.countP_le_length

/-- A search that stops at the marked member stops at the last one only. -/
theorem SoleLast.find?_marked {p q : α → Bool} {l : List α} (h : SoleLast p l) {a : α}
    (hf : l.find? q = some a) (ha : p a = true) :
    ∃ init, l = init ++ [a] ∧ (∀ b ∈ init, p b = false) ∧ ∀ b ∈ init, q b = false := by
  rcases h with rfl | ⟨init, last, rfl, hlast, hinit⟩
  · exact absurd hf (by simp)
  · rw [List.find?_append] at hf
    cases hi : init.find? q with
    | some b =>
      rw [hi, Option.some_or, Option.some.injEq] at hf
      have hb := hinit b (List.mem_of_find?_eq_some hi)
      rw [hf, ha] at hb
      exact absurd hb (by decide)
    | none =>
      rw [hi, Option.none_or] at hf
      obtain rfl : last = a := List.mem_singleton.mp (List.mem_of_find?_eq_some hf) |>.symm
      refine ⟨init, rfl, hinit, fun b hb => ?_⟩
      simpa using List.find?_eq_none.mp hi b hb

/-- A marked member stands at the last place. -/
theorem SoleLast.place {p : α → Bool} {l : List α} (h : SoleLast p l) {i : ℕ} {a : α}
    (hi : l[i]? = some a) (ha : p a = true) : i + 1 = l.length := by
  rcases h with rfl | ⟨init, last, rfl, -, hinit⟩
  · exact absurd hi (by simp)
  · have hlt := (List.getElem?_eq_some_iff.mp hi).1
    rw [List.length_append, List.length_singleton] at hlt ⊢
    by_contra hne
    rw [List.getElem?_append_left (by omega)] at hi
    rw [hinit a (List.mem_of_getElem? hi)] at ha
    exact Bool.false_ne_true ha

/-- Unless the list is empty, a search for the mark finds it. -/
theorem SoleLast.find?_isSome {p : α → Bool} {l : List α} (h : SoleLast p l) (hl : l ≠ []) :
    ∃ a, l.find? p = some a ∧ p a = true := by
  rcases h with rfl | ⟨init, a, rfl, ha, hinit⟩
  · exact absurd rfl hl
  · exact ⟨a, find?_append_singleton ha hinit, ha⟩

/-- The only marked member is the last one. -/
theorem SoleLast.eq_of_mem {p : α → Bool} {init : List α} {a b : α}
    (hinit : ∀ c ∈ init, p c = false) (hb : b ∈ init ++ [a]) (hp : p b = true) : b = a := by
  rcases List.mem_append.mp hb with hb | hb
  · rw [hinit b hb] at hp
    exact absurd hp (by simp)
  · simpa using hb

/-! ### Lists side by side -/

section Forall₂

variable {γ : Type*} {R : γ → α → Prop} {cs : List γ} {as : List α}

theorem countP_forall₂ {p : γ → Bool} {q : α → Bool} (h : List.Forall₂ R cs as)
    (hpq : ∀ c a, R c a → p c = q a) : cs.countP p = as.countP q := by
  induction h with
  | nil => rfl
  | cons hR _ ih => rw [List.countP_cons, List.countP_cons, ih, hpq _ _ hR]

theorem forall_mem_forall₂ {P : γ → Prop} {Q : α → Prop} (h : List.Forall₂ R cs as)
    (hPQ : ∀ c a, R c a → (P c ↔ Q a)) : (∀ c ∈ cs, P c) ↔ ∀ a ∈ as, Q a := by
  induction h with
  | nil => simp
  | cons hR _ ih => rw [List.forall_mem_cons, List.forall_mem_cons, ih, hPQ _ _ hR]

theorem find?_forall₂ {p : γ → Bool} {q : α → Bool} (h : List.Forall₂ R cs as)
    (hpq : ∀ c a, R c a → p c = q a) : Option.Rel R (cs.find? p) (as.find? q) := by
  induction h with
  | nil => exact .none
  | cons hR _ ih =>
    rw [List.find?_cons, List.find?_cons, hpq _ _ hR]
    split
    · exact .some hR
    · exact ih

end Forall₂

end FirstMatch
