/-
Layouts: stricter decoders beside lenient ones.

A lenient decoder takes more than the encoder writes.  A layout is a decoder that returns
nothing and only looks at how the input is laid out.  `Exact` says that a layout tells
exactly whether a decoder took an encoding off the front of the input; it composes along
the decoder (`Exact.cons`, `Exact.many`), because no part is ever longer than the
encoding of what was read.  `Exact.eq_iff` : an input that is read to its end is the
encoding of what was read exactly where the layout accepts it.
-/
import WorkloadFabric.Decoder

namespace Decoder

variable {ε β α γ : Type}

/-! ### Decoders without slack -/

/-- The decoder takes the encoding of what it returns off the front of the input, or
gives up with one of the errors `P`. -/
def Faithful (P : ε → Prop) (enc : α → List β) (m : Decoder ε β α) : Prop :=
  ∀ s, (∃ a rest, s = enc a ++ rest ∧ m s = .ok (a, rest)) ∨ ∃ e, P e ∧ m s = .error e

/-- The layout of whatever the decoder accepts. -/
def any (m : Decoder ε β α) : Decoder ε β Unit := do
  let _ ← m
  return ()

/-- Layouts one after the other. -/
def seq : List (Decoder ε β Unit) → Decoder ε β Unit
  | [] => return ()
  | l :: ls => do
    l
    seq ls

theorem any_pure (a : α) : any (pure a : Decoder ε β α) = seq [] := rfl

theorem any_map {m : Decoder ε β α} {f : α → γ} : any (m >>= fun a => pure (f a)) = any m := by
  simp only [any, bind_assoc, pure_bind]

/-- What is accepted in front, and what is accepted behind it. -/
theorem any_cons {m : Decoder ε β α} {f : α → Decoder ε β γ} {l : Decoder ε β Unit}
    {ls : List (Decoder ε β Unit)} (h : any m = l) (h' : ∀ a, any (f a) = seq ls) :
    any (m >>= f) = seq (l :: ls) := by
  subst h
  have hf : (fun a => any (f a)) = fun _ => seq ls := funext h'
  simp only [any] at hf
  simp only [any, seq, bind_assoc, pure_bind, hf]

/-- Nothing is kept of the next part. -/
theorem Along.skip {δ : Type} {R : δ → γ → Prop} {p : Decoder ε β δ} {m : Decoder ε β α}
    {g : α → Decoder ε β γ} {l : Decoder ε β Unit} {ls : List (Decoder ε β Unit)} (h : any m = l)
    (h' : ∀ a, Along R (seq ls >>= fun _ => p) (g a)) :
    Along R (seq (l :: ls) >>= fun _ => p) (m >>= g) := by
  subst h
  simp only [any, seq, bind_assoc, pure_bind]
  exact (Along.refl m).bind fun _ a _ => h' a

theorem Along.skipped {δ : Type} {R : δ → γ → Prop} {p : Decoder ε β δ} {m : Decoder ε β γ}
    (h : Along R p m) : Along R (seq [] >>= fun _ => p) m := by
  rwa [seq, pure_bind]

namespace Faithful

variable {P : ε → Prop} {enc : α → List β} {m : Decoder ε β α} {s : List β}

theorem eq_append (h : Faithful P enc m) {a : α} {rest : List β} (hm : m s = .ok (a, rest)) :
    s = enc a ++ rest := by
  rcases h s with ⟨a', rest', hs, hm'⟩ | ⟨e, -, hm'⟩
  · rw [hm] at hm'
    cases hm'
    exact hs
  · exact absurd (hm.symm.trans hm') (by simp)

theorem takes (h : Faithful P enc m) : Takes (fun a bs => bs = enc a) m :=
  fun _ a _ hm => ⟨enc a, h.eq_append hm, rfl⟩

theorem error (h : Faithful P enc m) {e : ε} (hm : m s = .error e) : P e := by
  rcases h s with ⟨a, rest, -, hm'⟩ | ⟨e', he, hm'⟩
  · exact absurd (hm.symm.trans hm') (by simp)
  · rw [hm] at hm'
    cases hm'
    exact he

theorem map (h : Faithful P enc m) {enc' : γ → List β} {f : α → γ}
    (hf : ∀ a, enc' (f a) = enc a) : Faithful P enc' (m >>= fun a => pure (f a)) := by
  intro s
  rw [bind_apply]
  rcases h s with ⟨a, rest, hs, hm⟩ | ⟨e, he, hm⟩
  · rw [hm]
    exact .inl ⟨f a, rest, by rw [hf, hs], rfl⟩
  · rw [hm]
    exact .inr ⟨e, he, rfl⟩

end Faithful

/-! ### Exact layouts -/

/-- What `m` takes off the front is at most as long as the encoding of what it returns
without the parts that were read before; the layout accepts it where the two are the same
and rejects it where they differ. -/
structure Exact (P : ε → Prop) (before : List (List β)) (enc : α → List β)
    (layout : Decoder ε β Unit) (m : Decoder ε β α) : Prop where
  ok : ∀ s a rest, m s = .ok (a, rest) → ∃ bs can, s = bs ++ rest ∧
    enc a = before.flatten ++ can ∧ bs.length ≤ can.length ∧
    (bs = can ∧ layout s = .ok ((), rest) ∨ bs ≠ can ∧ ∃ e, layout s = .error e)
  error : ∀ s e, m s = .error e → P e

namespace Exact

variable {P : ε → Prop} {before : List (List β)} {enc : α → List β} {enc' : γ → List β}
  {l l' : Decoder ε β Unit} {m : Decoder ε β α}

/-- A part without slack, of which the layout accepts everything. -/
theorem of_faithful (h : Faithful P enc m)
    (hl : ∀ s a rest, m s = .ok (a, rest) → l s = .ok ((), rest)) : Exact P [] enc l m where
  ok s a rest hm :=
    ⟨enc a, enc a, h.eq_append hm, rfl, Nat.le_refl _, .inl ⟨rfl, hl s a rest hm⟩⟩
  error _ _ hm := h.error hm

theorem of_any (h : Faithful P enc m) : Exact P [] enc (any m) m :=
  .of_faithful h fun _ a rest hm => bind_eq_ok.mpr ⟨a, rest, hm, rfl⟩

/-- Everything was read: the parts read before are those that the encoder writes. -/
theorem nil {a : α} {parts : List (List β)} (h : enc a = parts.flatten) (hb : before = parts) :
    Exact P before enc (seq []) (pure a : Decoder ε β α) where
  ok s a' rest hm := by
    obtain ⟨rfl, rfl⟩ : a = a' ∧ s = rest := by
      cases hm
      exact ⟨rfl, rfl⟩
    exact ⟨[], [], rfl, by rw [h, hb, List.append_nil], Nat.le_refl _, .inl ⟨rfl, rfl⟩⟩
  error s e hm := by cases hm

/-- One part, then the others. -/
theorem bind {Q : α → Prop} {f : α → Decoder ε β γ} (h : Exact P [] enc l m) (hQ : Ensures Q m)
    (h' : ∀ a, Q a → Exact P (before ++ [enc a]) enc' l' (f a)) :
    Exact P before enc' (l >>= fun _ => l') (m >>= f) where
  ok s c rest hm := by
    obtain ⟨a, mid, hms, hf⟩ := bind_eq_ok.mp hm
    obtain ⟨bs, can, hs, ha, hlen, hl⟩ := h.ok s a mid hms
    obtain ⟨bs', can', hmid, hc, hlen', hl'⟩ := (h' a (hQ s a mid hms)).ok mid c rest hf
    have hcan : can = enc a := by simpa using ha.symm
    refine ⟨bs ++ bs', can ++ can', by rw [hs, hmid, List.append_assoc], ?_, ?_, ?_⟩
    · rw [hc, List.flatten_append, List.flatten_singleton, hcan, List.append_assoc]
    · rw [List.length_append, List.length_append]
      omega
    · rcases hl with ⟨heq, hl⟩ | ⟨hne, e, hl⟩
      · -- the first part fits, so the second one decides
        rw [bind_apply, hl, heq]
        rcases hl' with ⟨heq', hl'⟩ | ⟨hne', hl'⟩
        · exact .inl ⟨by rw [heq'], hl'⟩
        · exact .inr ⟨fun h => hne' (List.append_cancel_left h), hl'⟩
      · refine .inr ⟨fun heq => hne ?_, e, by rw [bind_apply, hl]⟩
        -- neither part is too long, so both would have the right length
        have hsum := congrArg List.length heq
        rw [List.length_append, List.length_append] at hsum
        exact List.append_inj_left heq (by omega)
  error s e hm := by
    rcases bind_eq_error.mp hm with hms | ⟨a, mid, hms, hf⟩
    · exact h.error s e hms
    · exact (h' a (hQ s a mid hms)).error mid e hf

theorem cons {f : α → Decoder ε β γ} {ls : List (Decoder ε β Unit)} (h : Exact P [] enc l m)
    (h' : ∀ a, Exact P (before ++ [enc a]) enc' (seq ls) (f a)) :
    Exact P before enc' (seq (l :: ls)) (m >>= f) :=
  h.bind (Q := fun _ => True) (fun _ _ _ _ => trivial) fun a _ => h' a

/-- The last part, from which the result is made. -/
theorem map (h : Exact P [] enc l m) {f : α → γ}
    (hf : ∀ a, enc' (f a) = before.flatten ++ enc a) :
    Exact P before enc' l (m >>= fun a => pure (f a)) where
  ok s c rest hm := by
    obtain ⟨a, mid, hms, hpure⟩ := bind_eq_ok.mp hm
    obtain ⟨bs, can, hs, ha, hlen, hl⟩ := h.ok s a mid hms
    cases hpure
    exact ⟨bs, can, hs, by rw [hf, ha]; rfl, hlen, hl⟩
  error s e hm := by
    rcases bind_eq_error.mp hm with hms | ⟨a, mid, -, hpure⟩
    · exact h.error s e hms
    · cases hpure

/-- A part with slack: of the inputs that are read alike the layout accepts one. -/
theorem of_slack (f : α → γ) (c : α → Prop) [DecidablePred c] (h : Faithful P enc m)
    (hlen : ∀ a, (enc a).length = (enc' (f a)).length) (hc : ∀ a, enc a = enc' (f a) ↔ c a)
    (e : ε) :
    Exact P [] enc' (m >>= fun a => if c a then pure () else fail e)
      (m >>= fun a => pure (f a)) where
  ok s b rest hm := by
    obtain ⟨a, mid, hms, hpure⟩ := bind_eq_ok.mp hm
    cases hpure
    refine ⟨enc a, enc' (f a), h.eq_append hms, rfl, Nat.le_of_eq (hlen a), ?_⟩
    rw [bind_apply, hms]
    simp only
    split
    · next ha => exact .inl ⟨(hc a).mpr ha, rfl⟩
    · next ha => exact .inr ⟨fun heq => ha ((hc a).mp heq), e, rfl⟩
  error s e' hm := by
    rcases bind_eq_error.mp hm with hms | ⟨a, mid, -, hpure⟩
    · exact h.error hms
    · cases hpure

/-- A check of the decoder. -/
theorem check {c : Prop} [Decidable c] {e : ε} (he : P e) (h : Exact P before enc l m) :
    Exact P before enc l (if c then fail e else m) := by
  split
  · refine ⟨fun s a rest hm => absurd hm (by simp [fail]), fun s e' hm => ?_⟩
    obtain rfl : e = e' := by simpa [fail] using hm
    exact he
  · exact h

/-- Another encoding of the values that can be read. -/
theorem congr_enc {Q : α → Prop} (h : Exact P [] enc l m) (hQ : Ensures Q m) {enc' : α → List β}
    (henc : ∀ a, Q a → enc' a = before.flatten ++ enc a) : Exact P before enc' l m where
  ok s a rest hm := by
    obtain ⟨bs, can, hs, ha, hlen, hl⟩ := h.ok s a rest hm
    refine ⟨bs, can, hs, ?_, hlen, hl⟩
    rw [henc a (hQ s a rest hm), ha]
    rfl
  error := h.error

/-- A part without slack, which the layout looks at. -/
theorem value {f : α → Decoder ε β γ} {g : α → Decoder ε β Unit} (h : Faithful P enc m)
    (h' : ∀ a, Exact P (before ++ [enc a]) enc' (g a) (f a)) :
    Exact P before enc' (m >>= g) (m >>= f) where
  ok s c rest hm := by
    obtain ⟨a, mid, hms, hf⟩ := bind_eq_ok.mp hm
    obtain ⟨bs, can, hmid, hc, hlen, hl⟩ := (h' a).ok mid c rest hf
    refine ⟨enc a ++ bs, enc a ++ can, by rw [h.eq_append hms, hmid, List.append_assoc], ?_, ?_, ?_⟩
    · rw [hc, List.flatten_append, List.flatten_singleton, List.append_assoc]
    · rw [List.length_append, List.length_append]
      omega
    · rw [bind_apply, hms]
      rcases hl with ⟨heq, hl⟩ | ⟨hne, hl⟩
      · exact .inl ⟨by rw [heq], hl⟩
      · exact .inr ⟨fun h => hne (List.append_cancel_left h), hl⟩
  error s e hm := by
    rcases bind_eq_error.mp hm with hms | ⟨a, mid, -, hf⟩
    · exact h.error hms
    · exact (h' a).error mid e hf

/-- A list is laid out item by item. -/
theorem many (h : Exact P [] enc l m) (n : ℕ) :
    Exact P [] (fun as : List α => as.flatMap enc) (seq (.replicate n l)) (Decoder.many m n) := by
  induction n with
  | zero => exact nil (show _ = [].flatten from rfl) rfl
  | succ n ih =>
    rw [List.replicate_succ]
    refine h.cons fun a => ih.map fun as => ?_
    rw [List.flatMap_cons, List.nil_append, List.flatten_singleton]

/-- **An input read to its end is the encoding of what was read exactly where the layout
accepts it.** -/
theorem eq_iff (h : Exact P [] enc l m) {s : List β} {a : α} (hm : m s = .ok (a, [])) :
    enc a = s ↔ l s = .ok ((), []) := by
  obtain ⟨bs, can, hs, ha, -, hl⟩ := h.ok s a [] hm
  obtain rfl : s = bs := by rw [hs, List.append_nil]
  obtain rfl : enc a = can := ha
  rcases hl with ⟨heq, hl⟩ | ⟨hne, e, hl⟩
  · exact iff_of_true heq.symm hl
  · exact iff_of_false (Ne.symm hne) (by rw [hl]; simp)

end Exact

end Decoder
