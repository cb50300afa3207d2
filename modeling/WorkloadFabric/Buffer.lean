/-
Buffers: decoders that look their input up in memory.

A cursor is a position in a buffer.  The room behind it is computed in machine words, so it
would wrap around if the position ran past the end, and a look-up outside the buffer is
undefined (`none`).  The cursor stays where an error left it, and the positions that are
subtracted, looked up and moved are written down, so that a run of many pieces of code can be
asked whether it ever left the buffer or wrapped around.

* **`Tracks`** — the code does what a decoder does with the rest of the buffer, keeps its
  cursor inside and uses no position outside; **`Tracks.bind`** composes it along the code.
* `HasCode` : the code of a decoder, put together by instance search from that of its parts.
-/
import WorkloadFabric.Decoder

namespace Decoder

variable {ε ε' β α γ : Type} {word : ℕ}

structure Cursor (β : Type) where
  data : List β
  pos : ℕ

namespace Cursor

/-- The room left, as a word. -/
def remaining (word : ℕ) (c : Cursor β) : ℕ := (c.data.length + word - c.pos) % word

/-- What is left to read. -/
def rest (c : Cursor β) : List β := c.data.drop c.pos

/-- The position is inside the buffer, whose size is a word. -/
structure Valid (word : ℕ) (c : Cursor β) : Prop where
  pos_le : c.pos ≤ c.data.length
  length_lt : c.data.length < word

theorem Valid.remaining_eq {c : Cursor β} (h : c.Valid word) :
    c.remaining word = c.rest.length := by
  have hle := h.pos_le
  have hlt := h.length_lt
  rw [remaining, rest, List.length_drop, show c.data.length + word - c.pos =
    c.data.length - c.pos + word by omega, Nat.add_mod_right, Nat.mod_eq_of_lt (by omega)]

end Cursor

/-- A use of the position. -/
inductive Touch where
  /-- It is subtracted from the size. -/
  | room (pos : ℕ)
  /-- So many symbols are looked up behind it. -/
  | look (pos n : ℕ)
  /-- It is moved on by so many symbols. -/
  | move (pos n : ℕ)
deriving DecidableEq

/-- Nothing wraps around, and no symbol outside the buffer is looked up. -/
def Touch.Within (size : ℕ) : Touch → Prop
  | room pos => pos ≤ size
  | look pos n | move pos n => pos + n ≤ size

/-- A cursor; the code writes to its trace and never reads it. -/
structure Traced (β : Type) extends Cursor β where
  trace : List Touch := []

/-- Code that leaves its cursor to whoever catches what it throws; `none` where it looks
outside of the buffer. -/
abbrev Code (ε β α : Type) := ExceptT ε (StateT (Traced β) Option) α

namespace Code

/-- `if (n > size - pos) throw eof` -/
def need (word n : ℕ) (eof : ε) : Code ε β Unit := fun c =>
  let c' := { c with trace := c.trace ++ [.room c.pos] }
  if c.remaining word < n then some (.error eof, c') else some (.ok (), c')

/-- `p[pos++]`, unchecked. -/
def next (word : ℕ) : Code ε β β := fun c =>
  match c.data[c.pos]? with
  | none => none
  | some b => some (.ok b, { c with
      pos := (c.pos + 1) % word
      trace := c.trace ++ [.look c.pos 1, .move c.pos 1] })

/-- Copy `n` symbols from `p + pos`, unchecked, and `pos += n`. -/
def copy (word n : ℕ) : Code ε β (List β) := fun c =>
  if c.pos + n ≤ c.data.length then
    some (.ok (c.rest.take n), { c with
      pos := (c.pos + n) % word
      trace := c.trace ++ [.look c.pos n, .move c.pos n] })
  else none

/-- `size - pos == 0` -/
def atEnd (word : ℕ) : Code ε β Bool := fun c =>
  some (.ok (c.remaining word == 0), { c with trace := c.trace ++ [.room c.pos] })

/-- The code, with its errors thrown as others. -/
def lift (f : ε → ε') (m : Code ε β α) : Code ε' β α := fun c =>
  (m c).map fun r => (r.1.mapError f, r.2)

theorem bind_apply (m : Code ε β α) (f : α → Code ε β γ) (c : Traced β) :
    (m >>= f) c = match m c with
      | none => none
      | some (.error e, c') => some (.error e, c')
      | some (.ok a, c') => f a c' := by
  show (m c >>= fun p => ExceptT.bindCont f p.1 p.2) = _
  rcases m c with _ | ⟨e | a, c'⟩
  · rfl
  · rfl
  · rfl

end Code

/-! ### From one cursor to the next -/

/-- The cursor has moved on inside its buffer, and what was done on the way stayed inside. -/
structure Onward (word : ℕ) (c c' : Traced β) : Prop where
  data : c'.data = c.data
  valid : c'.Valid word
  pos_le : c.pos ≤ c'.pos
  within : ∃ ts, c'.trace = c.trace ++ ts ∧ ∀ t ∈ ts, t.Within c.data.length

namespace Onward

variable {c c' c'' : Traced β}

theorem refl (h : c.Valid word) : Onward word c c :=
  ⟨rfl, h, Nat.le_refl _, [], (List.append_nil _).symm, by simp⟩

theorem trans (h : Onward word c c') (h' : Onward word c' c'') : Onward word c c'' := by
  obtain ⟨ts, hts, hin⟩ := h.within
  obtain ⟨ts', hts', hin'⟩ := h'.within
  refine ⟨h'.data.trans h.data, h'.valid, Nat.le_trans h.pos_le h'.pos_le, ts ++ ts', ?_, ?_⟩
  · rw [hts', hts, List.append_assoc]
  · rw [h.data] at hin'
    exact List.forall_mem_append.mpr ⟨hin, hin'⟩

/-- Subtracting the position from the size stays in the buffer. -/
theorem room (hc : c.Valid word) :
    Onward word c { c with trace := c.trace ++ [.room c.pos] } :=
  ⟨rfl, hc, Nat.le_refl _, _, rfl, by simpa [Touch.Within] using hc.pos_le⟩

/-- Looking up what is there, and moving over it, stays in the buffer. -/
theorem moved {n : ℕ} (hc : c.Valid word) (hn : c.pos + n ≤ c.data.length) :
    Onward word c { c with
      pos := c.pos + n
      trace := c.trace ++ [.look c.pos n, .move c.pos n] } :=
  ⟨rfl, ⟨hn, hc.length_lt⟩, Nat.le_add_right _ _, _, rfl, by simpa [Touch.Within] using hn⟩

/-- What lies between two cursors is what the position was moved over. -/
theorem pos_eq (h : Onward word c c') (hc : c.Valid word) {bs : List β}
    (hrest : c.rest = bs ++ c'.rest) : c'.pos = c.pos + bs.length := by
  have hlen := congrArg List.length hrest
  rw [List.length_append, Cursor.rest, Cursor.rest, List.length_drop, List.length_drop,
    h.data] at hlen
  have hle := hc.pos_le
  have hle' := h.valid.pos_le
  rw [h.data] at hle'
  omega

end Onward

/-! ### Code that follows a decoder -/

/-- How the code and the decoder end alike; the decoder throws the errors of the code as
others. -/
inductive Ends (word : ℕ) (f : ε → ε') (c : Traced β) :
    Option (Except ε α × Traced β) → Except ε' (α × List β) → Prop
  | error {e : ε} {c' : Traced β} (h : Onward word c c') :
      Ends word f c (some (.error e, c')) (.error (f e))
  | ok {a : α} {c' : Traced β} (h : Onward word c c') :
      Ends word f c (some (.ok a, c')) (.ok (a, c'.rest))

/-- The code does with a buffer what the decoder does with what is left of it. -/
def Tracks (word : ℕ) (f : ε → ε') (m : Code ε β α) (d : Decoder ε' β α) : Prop :=
  ∀ c : Traced β, c.Valid word → Ends word f c (m c) (d c.rest)

theorem Ends.after {f : ε → ε'} {c c' : Traced β} {r : Option (Except ε α × Traced β)}
    {s : Except ε' (α × List β)} (hon : Onward word c c') (h : Ends word f c' r s) :
    Ends word f c r s := by
  cases h with
  | error hon' => exact .error (hon.trans hon')
  | ok hon' => exact .ok (hon.trans hon')

/-- Code that goes on where other code ended. -/
theorem Ends.bind {f : ε → ε'} {c : Traced β} {m : Code ε β α} {g : α → Code ε β γ}
    {d : Decoder ε' β α} {k : α → Decoder ε' β γ} (h : Ends word f c (m c) (d c.rest))
    (h' : ∀ a c', m c = some (.ok a, c') → Onward word c c' →
      Ends word f c' (g a c') (k a c'.rest)) :
    Ends word f c ((m >>= g) c) ((d >>= k) c.rest) := by
  rw [Code.bind_apply, Decoder.bind_apply]
  generalize hm : m c = r at h
  generalize d c.rest = s at h
  cases h with
  | error hon => exact .error hon
  | ok hon => exact .after hon (h' _ _ hm hon)

namespace Tracks

variable {f : ε → ε'}

theorem pure (a : α) : Tracks word f (Pure.pure a : Code ε β α) (Pure.pure a) :=
  fun _ hc => .ok (.refl hc)

theorem bind {m : Code ε β α} {g : α → Code ε β γ} {d : Decoder ε' β α}
    {k : α → Decoder ε' β γ} (h : Tracks word f m d) (h' : ∀ a, Tracks word f (g a) (k a)) :
    Tracks word f (m >>= g) (d >>= k) :=
  fun c hc => (h c hc).bind fun a c' _ hon => h' a c' hon.valid

/-- A check uses the position once and leaves it alone. -/
theorem need (n : ℕ) (eof : ε) :
    Tracks word f (Code.need word n eof : Code ε β Unit) (Decoder.need n (f eof)) := by
  intro c hc
  have hon := Onward.room hc
  rw [Code.need, Decoder.need, hc.remaining_eq]
  split
  · exact .error hon
  · exact .ok hon

/-- Behind a passed check the symbols are there, and the position is where it was. -/
theorem need_passed {n : ℕ} {eof : ε} {c c' : Traced β} {u : Unit} (hc : c.Valid word)
    (h : Code.need word n eof c = some (.ok u, c')) :
    c'.data = c.data ∧ c'.pos = c.pos ∧ c.pos + n ≤ c.data.length := by
  have hle := hc.pos_le
  rw [Code.need, hc.remaining_eq, Cursor.rest, List.length_drop] at h
  split at h
  · cases h
  · next hn =>
    cases h
    exact ⟨rfl, rfl, by omega⟩

/-- Code behind a check may rely on what was checked. -/
theorem need_bind {n : ℕ} {eof : ε} {m : Code ε β α} {d : Decoder ε' β α}
    (h : ∀ c : Traced β, c.Valid word → c.pos + n ≤ c.data.length →
      Ends word f c (m c) (d c.rest)) :
    Tracks word f (Code.need word n eof >>= fun _ => m)
      (Decoder.need n (f eof) >>= fun _ => d) := by
  intro c hc
  refine (need n eof c hc).bind fun _ c' hr hon => ?_
  obtain ⟨hdata, hpos, hlen⟩ := need_passed hc hr
  rw [← hdata, ← hpos] at hlen
  exact h c' hon.valid hlen

theorem symbol (eof : ε) : Tracks word f (Code.need word 1 eof >>= fun _ => Code.next word)
    (Decoder.need 1 (f eof) >>= fun _ => Decoder.symbol (f eof) : Decoder ε' β β) := by
  refine need_bind fun c hc hlen => ?_
  have hlt := hc.length_lt
  rw [Code.next, List.getElem?_eq_getElem (by omega), Cursor.rest,
    List.drop_eq_getElem_cons (by omega), Decoder.symbol, Nat.mod_eq_of_lt (by omega)]
  exact .ok (.moved hc hlen)

theorem take (n : ℕ) (eof : ε) : Tracks word f (Code.need word n eof >>= fun _ => Code.copy word n)
    (Decoder.need n (f eof) >>= fun _ => Decoder.take n : Decoder ε' β (List β)) := by
  refine need_bind fun c hc hlen => ?_
  have hlt := hc.length_lt
  rw [Code.copy, if_pos hlen, Decoder.take, Nat.mod_eq_of_lt (by omega),
    show c.rest.drop n = Cursor.rest ⟨c.data, c.pos + n⟩ from List.drop_drop]
  exact .ok (.moved hc hlen)

/-- The position is at the end exactly if nothing is left. -/
theorem atEnd {d d' : Decoder ε' β α} {m m' : Code ε β α} (h : Tracks word f m d)
    (h' : Tracks word f m' d') :
    Tracks word f (Code.atEnd word >>= fun b => if !b then m else m')
      (get >>= fun rest => if !rest.isEmpty then d else d') := by
  intro c hc
  have hon := Onward.room hc
  have hempty : (c.rest.length == 0) = c.rest.isEmpty := by cases c.rest <;> rfl
  rw [Code.bind_apply, Decoder.bind_apply, Code.atEnd, hc.remaining_eq, hempty]
  show Ends word f c ((if !c.rest.isEmpty then m else m') _)
    ((if !c.rest.isEmpty then d else d') c.rest)
  split
  · exact .after hon (h _ hon.valid)
  · exact .after hon (h' _ hon.valid)

/-- The errors of the code may be thrown as others by the code itself. -/
theorem lift {m : Code ε β α} {d : Decoder ε' β α} (h : Tracks word f m d) :
    Tracks word id (m.lift f) d := by
  intro c hc
  have hends := h c hc
  rw [Code.lift]
  generalize m c = r at hends
  generalize d c.rest = s at hends
  cases hends with
  | error hon => exact .error hon
  | ok hon => exact .ok hon

end Tracks

/-! ### The code of a decoder -/

/-- The code of a decoder, which throws the same errors. -/
class HasCode (word : ℕ) (d : Decoder ε β α) where
  code : Code ε β α
  tracks : Tracks word id code d

namespace HasCode

variable {d d' : Decoder ε β α}

/-- Code that throws errors of its own. -/
@[reducible]
def ofTracks {f : ε' → ε} {m : Code ε' β α} (h : Tracks word f m d) : HasCode word d :=
  ⟨m.lift f, h.lift⟩

instance (a : α) : HasCode word (pure a : Decoder ε β α) := ⟨pure a, .pure a⟩

instance (e : ε) : HasCode word (fail e : Decoder ε β α) := ⟨throw e, fun _ hc => .error (.refl hc)⟩

instance (n : ℕ) (eof : ε) : HasCode word (need n eof : Decoder ε β Unit) :=
  ⟨Code.need word n eof, .need n eof⟩

instance {k : α → Decoder ε β γ} [hd : HasCode word d] [hk : ∀ a, HasCode word (k a)] :
    HasCode word (d >>= k) :=
  ⟨hd.code >>= fun a => (hk a).code, hd.tracks.bind fun a => (hk a).tracks⟩

instance {c : Prop} [Decidable c] [hd : HasCode word d] [hd' : HasCode word d'] :
    HasCode word (if c then d else d') where
  code := if c then hd.code else hd'.code
  tracks := by
    split
    · exact hd.tracks
    · exact hd'.tracks

instance [hd : HasCode word d] [hd' : HasCode word d'] :
    HasCode word (get >>= fun rest => if !rest.isEmpty then d else d') :=
  ⟨_, hd.tracks.atEnd hd'.tracks⟩

/-- A loop. -/
@[reducible]
def many [HasCode word d] : (n : ℕ) → HasCode word (Decoder.many d n)
  | 0 => inferInstanceAs (HasCode word (pure []))
  | n + 1 =>
    have := many n
    inferInstanceAs (HasCode word (do
      let a ← d
      let l ← Decoder.many d n
      return a :: l))

instance [HasCode word d] (n : ℕ) : HasCode word (Decoder.many d n) := many n

end HasCode

end Decoder
