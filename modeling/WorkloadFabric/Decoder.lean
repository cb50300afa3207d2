/-
Decoders: readers of a list of symbols that may give up.

  - `Reads` : what a decoder makes of the encoding of a value, whatever follows
    it; it composes along the decoder (`Reads.bind`, `Reads.many`);
  - `Stable` : more input changes nothing unless the decoder stopped for want of
    it;
  - `Begins` : which decoder reads the first part of another, and what comes behind it;
  - `Along` : two decoders that take just as much, part by part;
  - `Throws`, `Takes` : how a decoder ends early, and what it takes off the input;
  - `Checked` : a decoder that looks up only what it has checked to be there, found by
    instance search;
  - `lift` : a decoder whose errors are thrown as others;
  - `Reads.stops_on_part` : a stable decoder that reads an encoding to its end
    stops on every shorter part of it.
-/
import Mathlib.Tactic.Common

/-- Reads a value off the front of the input, or gives up. -/
abbrev Decoder (ε β α : Type) := StateT (List β) (Except ε) α

namespace Decoder

variable {ε β α γ : Type}

def fail (e : ε) : Decoder ε β α := fun _ => .error e

/-- The next symbol. -/
def symbol (eof : ε) : Decoder ε β β
  | [] => .error eof
  | b :: rest => .ok (b, rest)

/-- Give up unless `n` symbols remain. -/
def need (n : ℕ) (eof : ε) : Decoder ε β Unit := fun s =>
  if s.length < n then .error eof else .ok ((), s)

/-- The next `n` symbols, which are there. -/
def take (n : ℕ) : Decoder ε β (List β) := fun s => .ok (s.take n, s.drop n)

/-- `n` values of one kind in a row. -/
def many (item : Decoder ε β α) : ℕ → Decoder ε β (List α)
  | 0 => pure []
  | n + 1 => do
    let a ← item
    let l ← many item n
    return a :: l

theorem bind_apply (m : Decoder ε β α) (f : α → Decoder ε β γ) (s : List β) :
    (m >>= f) s = match m s with
      | .ok (a, rest) => f a rest
      | .error e => .error e := by
  show (m s >>= fun p => f p.1 p.2) = _
  cases m s <;> rfl

theorem bind_eq_ok {m : Decoder ε β α} {f : α → Decoder ε β γ} {s : List β} {r : γ × List β} :
    (m >>= f) s = .ok r ↔ ∃ a rest, m s = .ok (a, rest) ∧ f a rest = .ok r := by
  rw [bind_apply]
  rcases m s with e | ⟨a, rest⟩
  · simp
  · simp

theorem bind_eq_error {m : Decoder ε β α} {f : α → Decoder ε β γ} {s : List β} {e : ε} :
    (m >>= f) s = .error e ↔
      m s = .error e ∨ ∃ a rest, m s = .ok (a, rest) ∧ f a rest = .error e := by
  rw [bind_apply]
  rcases m s with e' | ⟨a, rest⟩
  · simp
  · simp

theorem need_of_le {n : ℕ} {s : List β} (h : n ≤ s.length) (eof : ε) :
    (need n eof : Decoder ε β Unit) s = .ok ((), s) := if_neg (by omega)

/-! ### Reading an encoding -/

/-- On inputs shorter than `bound`, the decoder takes the encoding `bs` off the
front and returns `a` if `ok` holds, and rejects it otherwise. -/
def Reads (bound : ℕ) (reject : ε) (ok : Prop) (m : Decoder ε β α) (bs : List β) (a : α) : Prop :=
  ∀ s, (bs ++ s).length < bound →
    (ok → m (bs ++ s) = .ok (a, s)) ∧ (¬ok → m (bs ++ s) = .error reject)

namespace Reads

variable {bound : ℕ} {reject : ε} {p q : Prop} {m : Decoder ε β α} {bs cs : List β} {a : α}

/-- An encoding that is always accepted. -/
theorem of_eq (h : ∀ s, (bs ++ s).length < bound → m (bs ++ s) = .ok (a, s)) :
    Reads bound reject True m bs a :=
  fun s hs => ⟨fun _ => h s hs, fun hn => absurd trivial hn⟩

theorem of_pure (a : α) : Reads bound reject True (pure a : Decoder ε β α) [] a :=
  of_eq fun _ _ => rfl

theorem congr_ok (h : Reads bound reject p m bs a) (hpq : p ↔ q) : Reads bound reject q m bs a := by
  rwa [← hpq]

theorem bind {f : α → Decoder ε β γ} {b : γ} (h : Reads bound reject p m bs a)
    (h' : Reads bound reject q (f a) cs b) : Reads bound reject (p ∧ q) (m >>= f) (bs ++ cs) b := by
  intro s hs
  rw [List.append_assoc] at hs ⊢
  have hcs : (cs ++ s).length < bound := by
    rw [List.length_append] at hs
    omega
  obtain ⟨hok, hno⟩ := h (cs ++ s) hs
  obtain ⟨hok', hno'⟩ := h' s hcs
  rw [bind_apply]
  constructor
  · rintro ⟨hp, hq⟩
    rw [hok hp]
    exact hok' hq
  · intro hn
    by_cases hp : p
    · rw [hok hp]
      exact hno' fun hq => hn ⟨hp, hq⟩
    · rw [hno hp]

theorem of_nil (a : α) : Reads bound reject True (Pure.pure a : Decoder ε β α) [].flatten a :=
  of_pure a

/-- The first of several parts. -/
theorem bind_cons {f : α → Decoder ε β γ} {parts : List (List β)} {b : γ}
    (h : Reads bound reject p m bs a) (h' : Reads bound reject q (f a) parts.flatten b) :
    Reads bound reject (p ∧ q) (m >>= f) (bs :: parts).flatten b := by
  rw [List.flatten_cons]
  exact h.bind h'

/-- The first of several parts, where it is always accepted. -/
theorem cons {f : α → Decoder ε β γ} {parts : List (List β)} {b : γ}
    (h : Reads bound reject True m bs a) (h' : Reads bound reject q (f a) parts.flatten b) :
    Reads bound reject q (m >>= f) (bs :: parts).flatten b :=
  (h.bind_cons h').congr_ok (by rw [true_and])

/-- The last part, where all others are always accepted. -/
theorem singleton {f : α → Decoder ε β γ} {b : γ} (h : Reads bound reject p m bs a)
    (h' : Reads bound reject True (f a) [].flatten b) :
    Reads bound reject p (m >>= f) [bs].flatten b :=
  (h.bind_cons h').congr_ok (by rw [and_true])

/-- The last part, followed by the result. -/
theorem last {f : α → γ} (h : Reads bound reject p m bs a) :
    Reads bound reject p (m >>= fun a => pure (f a)) bs (f a) := by
  have h' := h.bind (f := fun a => pure (f a)) (of_pure (f a))
  rw [List.append_nil] at h'
  exact h'.congr_ok (by rw [and_true])

/-- Only encodings within the bound matter. -/
theorem of_bound (h : bs.length < bound → Reads bound reject p m bs a) :
    Reads bound reject p m bs a := by
  intro s hs
  refine h ?_ s hs
  rw [List.length_append] at hs
  omega

/-- What is needed is there. -/
theorem need_bind {n : ℕ} {eof : ε} (hn : n ≤ bs.length) (h : Reads bound reject p m bs a) :
    Reads bound reject p (need n eof >>= fun _ => m) bs a := by
  intro s hs
  rw [bind_apply, need_of_le (by rw [List.length_append]; omega)]
  exact h s hs

/-- A check that rejects. -/
theorem check {c : Prop} [Decidable c] (h : Reads bound reject p m bs a) :
    Reads bound reject (¬c ∧ p) (if c then fail reject else m) bs a := by
  intro s hs
  obtain ⟨hok, hno⟩ := h s hs
  by_cases hc : c
  · rw [if_pos hc]
    exact ⟨fun h => absurd hc h.1, fun _ => rfl⟩
  · rw [if_neg hc]
    exact ⟨fun h => hok h.2, fun hn => hno fun hp => hn ⟨hc, hp⟩⟩

/-- A list is read item by item. -/
theorem many {item : Decoder ε β α} {enc : α → List β} {ok : α → Prop}
    (h : ∀ a, Reads bound reject (ok a) item (enc a) a) (l : List α) :
    Reads bound reject (∀ a ∈ l, ok a) (Decoder.many item l.length) (l.flatMap enc) l := by
  induction l with
  | nil => exact (of_pure []).congr_ok (by simp)
  | cons a l ih =>
    rw [List.flatMap_cons]
    exact ((h a).bind ih.last).congr_ok (by simp)

end Reads

/-! ### What a decoder can return -/

/-- Whatever `m` reads satisfies `P`. -/
def Ensures (P : α → Prop) (m : Decoder ε β α) : Prop :=
  ∀ s a rest, m s = .ok (a, rest) → P a

namespace Ensures

variable {P : α → Prop} {Q : γ → Prop} {m : Decoder ε β α}

theorem pure {a : α} (h : P a) : Ensures P (Pure.pure a : Decoder ε β α) := by
  rintro s a rest ⟨⟩
  exact h

theorem fail (e : ε) : Ensures P (Decoder.fail e : Decoder ε β α) := by
  rintro s a rest ⟨⟩

/-- What the first part ensures may be used for the second. -/
theorem bind {f : α → Decoder ε β γ} (h : Ensures P m) (h' : ∀ a, P a → Ensures Q (f a)) :
    Ensures Q (m >>= f) := by
  intro s b rest hs
  obtain ⟨a, mid, hm, hf⟩ := bind_eq_ok.mp hs
  exact h' a (h s a mid hm) mid b rest hf

/-- A part that ensures nothing. -/
theorem after {f : α → Decoder ε β γ} (h : ∀ a, Ensures Q (f a)) : Ensures Q (m >>= f) :=
  bind (P := fun _ => True) (fun _ _ _ _ => trivial) fun a _ => h a

theorem ite {c : Prop} [Decidable c] {m' : Decoder ε β α} (h : Ensures P m) (h' : Ensures P m') :
    Ensures P (if c then m else m') := by
  split
  · exact h
  · exact h'

theorem many (m : Decoder ε β α) (n : ℕ) :
    Ensures (fun l => l.length = n) (Decoder.many m n) := by
  induction n with
  | zero => exact pure rfl
  | succ n ih => exact after fun a => ih.bind fun l hl => pure (by rw [List.length_cons, hl])

end Ensures

/-! ### What a decoder can throw -/

/-- Whatever ends `m` early satisfies `P`. -/
def Throws (P : ε → Prop) (m : Decoder ε β α) : Prop := ∀ s e, m s = .error e → P e

namespace Throws

variable {P : ε → Prop} {m : Decoder ε β α}

theorem pure (a : α) : Throws P (Pure.pure a : Decoder ε β α) := by
  rintro s e ⟨⟩

theorem need {eof : ε} (h : P eof) (n : ℕ) : Throws P (Decoder.need n eof : Decoder ε β Unit) := by
  intro s e hs
  rw [Decoder.need] at hs
  split at hs
  · cases hs
    exact h
  · cases hs

theorem symbol {eof : ε} (h : P eof) : Throws P (Decoder.symbol eof : Decoder ε β β) := by
  intro s e hs
  cases s with
  | nil =>
    cases hs
    exact h
  | cons b s => cases hs

theorem take (n : ℕ) : Throws P (Decoder.take n : Decoder ε β (List β)) := by
  rintro s e ⟨⟩

theorem bind {f : α → Decoder ε β γ} (h : Throws P m) (h' : ∀ a, Throws P (f a)) :
    Throws P (m >>= f) := by
  intro s e hs
  rcases bind_eq_error.mp hs with hm | ⟨a, rest, -, hf⟩
  · exact h s e hm
  · exact h' a rest e hf

end Throws

/-! ### What a decoder takes off the input -/

/-- What `m` takes off the front stands in `R` to what it reads. -/
def Takes (R : α → List β → Prop) (m : Decoder ε β α) : Prop :=
  ∀ s a rest, m s = .ok (a, rest) → ∃ bs, s = bs ++ rest ∧ R a bs

namespace Takes

variable {R : α → List β → Prop} {R' : γ → List β → Prop} {m : Decoder ε β α}

theorem pure {a : α} (h : R a []) : Takes R (Pure.pure a : Decoder ε β α) := by
  rintro s a rest ⟨⟩
  exact ⟨[], rfl, h⟩

/-- One part after the other. -/
theorem bind {f : α → Decoder ε β γ} (h : Takes R m)
    (h' : ∀ a bs, R a bs → Takes (fun c cs => R' c (bs ++ cs)) (f a)) : Takes R' (m >>= f) := by
  intro s c rest hs
  obtain ⟨a, mid, hm, hf⟩ := bind_eq_ok.mp hs
  obtain ⟨bs, rfl, hbs⟩ := h s a mid hm
  obtain ⟨cs, rfl, hcs⟩ := h' a bs hbs mid c rest hf
  exact ⟨bs ++ cs, (List.append_assoc ..).symm, hcs⟩

theorem need_take (n : ℕ) (eof : ε) : Takes (fun v bs => v.length = n ∧ bs = v)
    (need n eof >>= fun _ => take n : Decoder ε β (List β)) := by
  intro s v rest hs
  rw [bind_apply, need] at hs
  by_cases h : s.length < n
  · rw [if_pos h] at hs
    cases hs
  · rw [if_neg h] at hs
    cases hs
    refine ⟨s.take n, (List.take_append_drop n s).symm, ?_, rfl⟩
    rw [List.length_take]
    omega

end Takes

/-! ### Stability -/

/-- Where the decoder does not stop, more input is left over and changes
nothing. -/
class Stable (stop : ε → Prop) (m : Decoder ε β α) : Prop where
  extend : ∀ x y, (∃ e, stop e ∧ m x = .error e) ∨
    m (x ++ y) = (m x).map fun r => (r.1, r.2 ++ y)

section Stable

variable {stop : ε → Prop} {m : Decoder ε β α}

instance (a : α) : Stable stop (pure a : Decoder ε β α) := ⟨fun _ _ => .inr rfl⟩

instance (e : ε) : Stable stop (fail e : Decoder ε β α) := ⟨fun _ _ => .inr rfl⟩

instance {f : α → Decoder ε β γ} [hm : Stable stop m] [hf : ∀ a, Stable stop (f a)] :
    Stable stop (m >>= f) where
  extend x y := by
    rw [bind_apply, bind_apply]
    rcases hm.extend x y with ⟨e, he, hx⟩ | h
    · rw [hx]
      exact .inl ⟨e, he, rfl⟩
    · rw [h]
      cases m x with
      | error e => exact .inr rfl
      | ok r => exact (hf r.1).extend r.2 y

theorem stable_symbol {eof : ε} (h : stop eof) : Stable stop (symbol eof : Decoder ε β β) where
  extend x y := by
    cases x with
    | nil => exact .inl ⟨eof, h, rfl⟩
    | cons b x => exact .inr rfl

theorem stable_need {eof : ε} (h : stop eof) (n : ℕ) :
    Stable stop (need n eof : Decoder ε β Unit) where
  extend x y := by
    by_cases hx : x.length < n
    · exact .inl ⟨eof, h, by rw [need, if_pos hx]⟩
    · have hxy : ¬(x ++ y).length < n := by
        rw [List.length_append]
        omega
      exact .inr (by rw [need, need, if_neg hx, if_neg hxy]; rfl)

/-- Symbols are taken once they are known to be there. -/
theorem stable_need_take {eof : ε} (h : stop eof) (n : ℕ) :
    Stable stop (need n eof >>= fun _ => take n : Decoder ε β (List β)) where
  extend x y := by
    rw [bind_apply, bind_apply]
    by_cases hx : x.length < n
    · exact .inl ⟨eof, h, by rw [need, if_pos hx]⟩
    · have hxy : ¬(x ++ y).length < n := by
        rw [List.length_append]
        omega
      have hle : n ≤ x.length := by omega
      rw [need, need, if_neg hx, if_neg hxy]
      simp only [take, List.take_append_of_le_length hle, List.drop_append_of_le_length hle]
      exact .inr rfl

/-- **A proper prefix of an encoding is never taken for one.** -/
theorem Reads.stops_on_part {bound : ℕ} {reject : ε} {p : Prop} {bs x y : List β} {a : α}
    [hm : Stable stop m] (h : Reads bound reject p m bs a) (hr : stop reject)
    (hb : bs.length < bound) (hxy : bs = x ++ y) (hy : y ≠ []) :
    ∃ e, stop e ∧ m x = .error e := by
  subst hxy
  obtain ⟨hok, hno⟩ := h [] (by rwa [List.append_nil])
  rw [List.append_nil] at hok hno
  rcases hm.extend x y with hx | hx
  · exact hx
  · by_cases hp : p
    · rw [hok hp] at hx
      cases hmx : m x with
      | error e => simp [hmx, Except.map] at hx
      | ok r =>
        rw [hmx, Except.map, Except.ok.injEq, Prod.mk.injEq] at hx
        exact absurd (List.append_eq_nil_iff.mp hx.2.symm).2 hy
    · rw [hno hp] at hx
      cases hmx : m x with
      | error e =>
        rw [hmx, Except.map, Except.error.injEq] at hx
        exact ⟨e, hx ▸ hr, rfl⟩
      | ok r => simp [hmx, Except.map] at hx

end Stable

/-! ### Checked decoders -/

/-- The decoder looks up only what it has checked to be there: it ends early with the errors
`stop` or `P`, and more input changes nothing unless it stops. -/
class Checked (stop P : ε → Prop) (m : Decoder ε β α) : Prop where
  stable : Stable stop m
  ends : Throws (fun e => stop e ∨ P e) m

namespace Checked

variable {stop P : ε → Prop} {m : Decoder ε β α}

theorem throws (h : Checked stop P m) {s : List β} {e : ε} (he : m s = .error e) :
    stop e ∨ P e := h.ends s e he

instance (a : α) : Checked stop P (pure a : Decoder ε β α) := ⟨inferInstance, .pure a⟩

instance {f : α → Decoder ε β γ} [hm : Checked stop P m] [hf : ∀ a, Checked stop P (f a)] :
    Checked stop P (m >>= f) where
  stable := by
    have := hm.stable
    have := fun a => (hf a).stable
    infer_instance
  ends := hm.ends.bind fun a => (hf a).ends

instance {c : Prop} [Decidable c] {m' : Decoder ε β α} [hm : Checked stop P m]
    [hm' : Checked stop P m'] : Checked stop P (if c then m else m') := by
  split
  · exact hm
  · exact hm'

instance {n : ℕ} [hm : Checked stop P m] : Checked stop P (many m n) := by
  induction n with
  | zero => exact inferInstanceAs (Checked stop P (pure []))
  | succ n ih => exact inferInstanceAs (Checked stop P (m >>= _))

theorem fail {e : ε} (h : stop e ∨ P e) : Checked stop P (fail e : Decoder ε β α) where
  stable := inferInstance
  ends s e' he := by
    cases he
    exact h

theorem need {eof : ε} (h : stop eof) (n : ℕ) :
    Checked stop P (need n eof : Decoder ε β Unit) := ⟨stable_need h n, .need (.inl h) n⟩

theorem symbol {eof : ε} (h : stop eof) : Checked stop P (symbol eof : Decoder ε β β) :=
  ⟨stable_symbol h, .symbol (.inl h)⟩

theorem need_take {eof : ε} (h : stop eof) (n : ℕ) :
    Checked stop P (Decoder.need n eof >>= fun _ => take n : Decoder ε β (List β)) :=
  ⟨stable_need_take h n, (Throws.need (.inl h) n).bind fun _ => .take n⟩

end Checked

/-! ### How a decoder begins -/

/-- `m` reads what `p` reads, and goes on with one of the decoders `Q`. -/
def Begins (p : Decoder ε β γ) (Q : γ → Decoder ε β α → Prop) (m : Decoder ε β α) : Prop :=
  ∀ s, match p s with
    | .error e => m s = .error e
    | .ok (c, rest) => ∃ k, Q c k ∧ m s = k rest

namespace Begins

variable {δ : Type} {p : Decoder ε β γ} {Q : γ → Decoder ε β α → Prop} {m : Decoder ε β α}

/-- Both read one part first. -/
theorem skip {x : Decoder ε β δ} {p : δ → Decoder ε β γ} {f : δ → Decoder ε β α}
    (h : ∀ a, Begins (p a) Q (f a)) : Begins (x >>= p) Q (x >>= f) := by
  intro s
  rw [bind_apply, bind_apply]
  rcases x s with e | ⟨a, rest⟩
  · rfl
  · exact h a rest

/-- The beginning of the first part. -/
theorem inner {Q' : γ → Decoder ε β δ → Prop} {f : α → Decoder ε β δ} (h : Begins p Q m)
    (hQ : ∀ c k, Q c k → Q' c (k >>= f)) : Begins p Q' (m >>= f) := by
  intro s
  have hs := h s
  rw [bind_apply]
  rcases hp : p s with e | ⟨c, rest⟩
  · rw [hp] at hs
    rw [show m s = .error e from hs]
  · rw [hp] at hs
    obtain ⟨k, hk, hm⟩ := hs
    exact ⟨k >>= f, hQ c k hk, by rw [hm, bind_apply]⟩

theorem error {s : List β} {e : ε} (h : Begins p Q m) (hp : p s = .error e) : m s = .error e := by
  have hs := h s
  rw [hp] at hs
  exact hs

theorem ok {s rest : List β} {c : γ} (h : Begins p Q m) (hp : p s = .ok (c, rest)) :
    ∃ k, Q c k ∧ m s = k rest := by
  have hs := h s
  rw [hp] at hs
  exact hs

end Begins

/-! ### Decoders side by side -/

/-- Where `m` reads something, `p` takes just as much, and reads what stands in `R` to it. -/
def Along (R : γ → α → Prop) (p : Decoder ε β γ) (m : Decoder ε β α) : Prop :=
  ∀ s a rest, m s = .ok (a, rest) → ∃ c, p s = .ok (c, rest) ∧ R c a

namespace Along

variable {R : γ → α → Prop} {p : Decoder ε β γ} {m : Decoder ε β α}

theorem refl (m : Decoder ε β α) : Along Eq m m := fun _ a _ hm => ⟨a, hm, rfl⟩

theorem pure {c : γ} {a : α} (h : R c a) :
    Along R (Pure.pure c : Decoder ε β γ) (Pure.pure a : Decoder ε β α) := by
  rintro s _ rest ⟨⟩
  exact ⟨c, rfl, h⟩

/-- Part by part. -/
theorem bind {α' γ' : Type} {R' : γ' → α' → Prop} {f : γ → Decoder ε β γ'}
    {g : α → Decoder ε β α'} (h : Along R p m) (h' : ∀ c a, R c a → Along R' (f c) (g a)) :
    Along R' (p >>= f) (m >>= g) := by
  intro s a' rest hs
  obtain ⟨a, mid, hm, hg⟩ := bind_eq_ok.mp hs
  obtain ⟨c, hp, hR⟩ := h s a mid hm
  obtain ⟨c', hf, hR'⟩ := h' c a hR mid a' rest hg
  exact ⟨c', bind_eq_ok.mpr ⟨c, mid, hp, hf⟩, hR'⟩

theorem many (h : Along R p m) (n : ℕ) :
    Along (List.Forall₂ R) (Decoder.many p n) (Decoder.many m n) := by
  induction n with
  | zero => exact pure .nil
  | succ n ih =>
    exact h.bind fun c a hR => ih.bind fun cs as hRs => pure (.cons hR hRs)

end Along

/-! ### Errors thrown as others -/

section Lift

variable {ε' : Type} (f : ε → ε')

/-- The decoder, with its errors thrown as others. -/
def lift (m : Decoder ε β α) : Decoder ε' β α := fun s => (m s).mapError f

variable {f} {m : Decoder ε β α}

theorem lift_eq_ok {s : List β} {r : α × List β} : lift f m s = .ok r ↔ m s = .ok r := by
  rw [lift]
  rcases m s with e | r'
  · exact iff_of_false (by simp [Except.mapError]) (by simp)
  · simp [Except.mapError]

theorem lift_eq_error {s : List β} {e' : ε'} :
    lift f m s = .error e' ↔ ∃ e, m s = .error e ∧ f e = e' := by
  rw [lift]
  rcases m s with e | r'
  · simp [Except.mapError]
  · simp [Except.mapError]

theorem Takes.lift {R : α → List β → Prop} (h : Takes R m) : Takes R (Decoder.lift f m) :=
  fun s a rest hs => h s a rest (lift_eq_ok.mp hs)

theorem Throws.lift {P : ε → Prop} {P' : ε' → Prop} (h : Throws P m) (hP : ∀ e, P e → P' (f e)) :
    Throws P' (Decoder.lift f m) := by
  intro s e' hs
  obtain ⟨e, he, rfl⟩ := lift_eq_error.mp hs
  exact hP e (h s e he)

theorem Stable.lift {stop : ε → Prop} {stop' : ε' → Prop} (h : Stable stop m)
    (hstop : ∀ e, stop e → stop' (f e)) : Stable stop' (Decoder.lift f m) where
  extend x y := by
    rcases h.extend x y with ⟨e, he, hx⟩ | hx
    · exact .inl ⟨f e, hstop e he, lift_eq_error.mpr ⟨e, hx, rfl⟩⟩
    · right
      rw [Decoder.lift, Decoder.lift, hx]
      rcases m x with e | r
      · rfl
      · rfl

/-- The errors of a checked decoder may be thrown as others. -/
theorem Checked.lift {stop P : ε → Prop} {stop' P' : ε' → Prop} (h : Checked stop P m)
    (hstop : ∀ e, stop e → stop' (f e)) (hP : ∀ e, P e → P' (f e)) :
    Checked stop' P' (Decoder.lift f m) :=
  ⟨h.stable.lift hstop, h.ends.lift fun _ he => he.imp (hstop _) (hP _)⟩

theorem Reads.lift {bound : ℕ} {reject : ε} {p : Prop} {bs : List β} {a : α}
    (h : Reads bound reject p m bs a) : Reads bound (f reject) p (Decoder.lift f m) bs a :=
  fun s hs => ⟨fun hp => lift_eq_ok.mpr ((h s hs).1 hp),
    fun hn => lift_eq_error.mpr ⟨reject, (h s hs).2 hn, rfl⟩⟩

end Lift

end Decoder
