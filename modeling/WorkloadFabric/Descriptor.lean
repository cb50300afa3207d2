/-
Work descriptors: the text by which the coordinator tells a worker what is left to do.

The text is cut at its colons by hand and each part is given to `std::stoull`, which skips
white space, takes a sign, and leaves alone what follows the digits.

* **`descriptor_grammar`** — a descriptor is parsed by its grammar exactly when it is made
  of digits and colons or is refused by that laxer grammar too.
-/
import Mathlib.Data.List.TakeWhile
import WorkloadFabric.Identity

namespace WorkloadFabric

/-! ### `std::stoull` -/

/-- `isspace`, of the C locale -/
def isSpace (c : UInt8) : Bool := c == 32 || (9 ≤ c && c ≤ 13)

/-- `isdigit` -/
def isDigit (c : UInt8) : Bool := 48 ≤ c && c ≤ 57

/-- The number that digits denote. -/
def numberOf (digits : Text) : ℕ := digits.foldl (fun n c => 10 * n + (c.toNat - 48)) 0

/-- The sign in front of a number, if there is one. -/
inductive Sign where
  | absent
  | plus
  | minus
deriving DecidableEq

namespace Sign

def spelling : Sign → Text
  | absent => []
  | plus => [43]
  | minus => [45]

/-- A number behind a minus is negated in its own type. -/
def apply : Sign → UInt64 → UInt64
  | absent, v => v
  | plus, v => v
  | minus, v => 0 - v

end Sign

def takeSign : Text → Sign × Text
  | [] => (.absent, [])
  | c :: s => if c = 43 then (.plus, s) else if c = 45 then (.minus, s) else (.absent, c :: s)

/-- `std::stoull` in base ten; `none` for what it throws. -/
def stoull (str : Text) : Option UInt64 :=
  let (sign, s) := takeSign (str.dropWhile isSpace)
  let digits := s.takeWhile isDigit
  if digits = [] then none
  else if 2 ^ 64 ≤ numberOf digits then none
  else some (sign.apply (.ofNat (numberOf digits)))

/-- What `std::stoull` reads as `v`. -/
structure Lax (p : Text) (v : UInt64) : Prop where
  reads : ∃ (spaces : Text) (sign : Sign) (digits rest : Text),
    p = spaces ++ (sign.spelling ++ (digits ++ rest)) ∧ (∀ c ∈ spaces, isSpace c) ∧
    digits ≠ [] ∧ (∀ c ∈ digits, isDigit c) ∧ (∀ c ∈ rest.head?, ¬isDigit c) ∧
    numberOf digits < 2 ^ 64 ∧ v = sign.apply (.ofNat (numberOf digits))

/-- Digits only. -/
structure Numeral (p : Text) (v : UInt64) : Prop where
  nonempty : p ≠ []
  digits : ∀ c ∈ p, isDigit c
  value : numberOf p = v.toNat

theorem isDigit_iff {c : UInt8} : isDigit c ↔ 48 ≤ c.toNat ∧ c.toNat ≤ 57 := by
  rw [isDigit, Bool.and_eq_true, decide_eq_true_eq, decide_eq_true_eq, UInt8.le_iff_toNat_le,
    UInt8.le_iff_toNat_le]
  rfl

theorem not_isSpace_of_isDigit {c : UInt8} (h : isDigit c) : ¬isSpace c := by
  obtain ⟨h48, -⟩ := isDigit_iff.mp h
  intro hspace
  rw [isSpace, Bool.or_eq_true, Bool.and_eq_true, beq_iff_eq, decide_eq_true_eq,
    decide_eq_true_eq, UInt8.le_iff_toNat_le, UInt8.le_iff_toNat_le] at hspace
  rcases hspace with rfl | ⟨-, h13⟩
  · exact absurd h48 (by decide)
  · exact absurd (h48.trans h13) (by decide)

theorem takeSign_eq {s s' : Text} {sign : Sign} (h : takeSign s = (sign, s')) :
    s = sign.spelling ++ s' := by
  cases s with
  | nil =>
    cases h
    rfl
  | cons c s =>
    rw [takeSign] at h
    split at h
    · next hc =>
      cases h
      rw [hc]
      rfl
    · split at h
      · next hc =>
        cases h
        rw [hc]
        rfl
      · cases h
        rfl

theorem takeSign_spelling {sign : Sign} {digits : Text} (hne : digits ≠ [])
    (hdigits : ∀ c ∈ digits, isDigit c) (rest : Text) :
    takeSign (sign.spelling ++ (digits ++ rest)) = (sign, digits ++ rest) := by
  cases sign with
  | absent =>
    cases digits with
    | nil => exact (hne rfl).elim
    | cons c digits =>
      have hc := hdigits c (.head _)
      have hplus : c ≠ 43 := fun h => absurd (h ▸ hc) (by decide)
      have hminus : c ≠ 45 := fun h => absurd (h ▸ hc) (by decide)
      rw [Sign.spelling, List.nil_append, List.cons_append, takeSign, if_neg hplus, if_neg hminus]
  | plus => rfl
  | minus => rfl

/-- Behind the spaces stands no space: a sign or a digit. -/
theorem dropWhile_spelling {sign : Sign} {spaces digits : Text} (hspaces : ∀ c ∈ spaces, isSpace c)
    (hne : digits ≠ []) (hdigits : ∀ c ∈ digits, isDigit c) (rest : Text) :
    (spaces ++ (sign.spelling ++ (digits ++ rest))).dropWhile isSpace =
      sign.spelling ++ (digits ++ rest) := by
  rw [List.dropWhile_append_of_pos hspaces]
  cases sign with
  | absent =>
    cases digits with
    | nil => exact (hne rfl).elim
    | cons c digits =>
      exact List.dropWhile_cons_of_neg (not_isSpace_of_isDigit (hdigits c (.head _)))
  | plus => rfl
  | minus => rfl

theorem takeWhile_digits {digits rest : Text} (hdigits : ∀ c ∈ digits, isDigit c)
    (hrest : ∀ c ∈ rest.head?, ¬isDigit c) : (digits ++ rest).takeWhile isDigit = digits := by
  rw [List.takeWhile_append_of_pos hdigits]
  cases rest with
  | nil => simp
  | cons c rest => rw [List.takeWhile_cons_of_neg (hrest c rfl), List.append_nil]

theorem stoull_eq_some {p : Text} {v : UInt64} : stoull p = some v ↔ Lax p v := by
  constructor
  · intro h
    rw [stoull] at h
    rcases hs : takeSign (p.dropWhile isSpace) with ⟨sign, s⟩
    rw [hs] at h
    dsimp only at h
    split_ifs at h with hne hlt
    refine ⟨p.takeWhile isSpace, sign, s.takeWhile isDigit, s.dropWhile isDigit, ?_, ?_, hne, ?_, ?_,
      not_le.mp hlt, (Option.some.inj h).symm⟩
    · rw [List.takeWhile_append_dropWhile, ← takeSign_eq hs, List.takeWhile_append_dropWhile]
    · exact fun c hc => List.mem_takeWhile_imp hc
    · exact fun c hc => List.mem_takeWhile_imp hc
    · intro c hc
      have := List.head?_dropWhile_not isDigit s
      rw [hc] at this
      simpa using this
  · rintro ⟨spaces, sign, digits, rest, rfl, hspaces, hne, hdigits, hrest, hlt, rfl⟩
    rw [stoull, dropWhile_spelling hspaces hne hdigits, takeSign_spelling hne hdigits]
    dsimp only
    rw [takeWhile_digits hdigits hrest, if_neg hne, if_neg (not_le.mpr hlt)]

theorem Numeral.lax {p : Text} {v : UInt64} (h : Numeral p v) : Lax p v := by
  refine ⟨[], .absent, p, [], ?_, ?_, h.nonempty, h.digits, ?_, ?_, ?_⟩
  · rw [List.append_nil]
    rfl
  · exact fun c hc => (List.not_mem_nil hc).elim
  · rintro c ⟨⟩
  · exact h.value ▸ v.toNat_lt
  · rw [h.value]
    exact UInt64.ofNat_toNat.symm

/-- Text that `std::stoull` reads is a numeral if there are only digits in it. -/
theorem Lax.numeral {p : Text} {v : UInt64} (h : Lax p v) (hp : ∀ c ∈ p, isDigit c) :
    Numeral p v := by
  obtain ⟨spaces, sign, digits, rest, rfl, hspaces, hne, hdigits, hrest, hlt, rfl⟩ := h
  have hnil : spaces = [] := by
    cases spaces with
    | nil => rfl
    | cons c spaces =>
      exact (not_isSpace_of_isDigit (hp c (.head _)) (hspaces c (.head _))).elim
  have habsent : sign = .absent := by
    subst hnil
    cases sign with
    | absent => rfl
    | plus => exact absurd (hp 43 (.head _)) (by decide)
    | minus => exact absurd (hp 45 (.head _)) (by decide)
  have hend : rest = [] := by
    cases rest with
    | nil => rfl
    | cons c rest => exact (hrest c rfl (hp c (by simp))).elim
  subst hnil habsent hend
  refine ⟨?_, hp, ?_⟩
  · rwa [List.append_nil]
  · rw [List.append_nil]
    exact (UInt64.toNat_ofNat_of_lt' hlt).symm

/-! ### `std::to_string` -/

theorem toNat_digit {c : Char} (h : c.isDigit) :
    (c.toNat.toUInt8).toNat = c.toNat ∧ 48 ≤ c.toNat ∧ c.toNat ≤ 57 := by
  have hc : 48 ≤ c.toNat ∧ c.toNat ≤ 57 := by
    rw [Char.isDigit, Bool.and_eq_true, decide_eq_true_eq, decide_eq_true_eq, ge_iff_le,
      UInt32.le_iff_toNat_le, UInt32.le_iff_toNat_le] at h
    exact h
  exact ⟨Nat.mod_eq_of_lt (by omega), hc⟩

theorem numberOf_map {cs : List Char} (h : ∀ c ∈ cs, c.isDigit) :
    numberOf (cs.map fun c => c.toNat.toUInt8) = Nat.ofDigitChars 10 cs 0 := by
  rw [numberOf, Nat.ofDigitChars_eq_foldl, List.foldl_map]
  refine List.foldl_ext _ _ 0 fun n c hc => ?_
  rw [(toNat_digit (h c hc)).1]
  rfl

theorem length_decimal (v : UInt64) : (decimal v.toNat).length ≤ 20 := by
  rw [decimal, List.length_map, Nat.length_toDigits_le_iff (by decide) (by decide)]
  exact v.toNat_lt.trans (by decide)

theorem numeral_decimal (v : UInt64) : Numeral (decimal v.toNat) v := by
  have hdigits : ∀ c ∈ Nat.toDigits 10 v.toNat, c.isDigit :=
    fun c hc => Nat.isDigit_of_mem_toDigits (by decide) (by decide) hc
  refine ⟨?_, ?_, ?_⟩
  · rw [decimal, ne_eq, List.map_eq_nil_iff]
    exact Nat.toDigits_ne_nil
  · intro b hb
    obtain ⟨c, hc, rfl⟩ := List.mem_map.mp hb
    obtain ⟨hnat, hrange⟩ := toNat_digit (hdigits c hc)
    rw [isDigit_iff, hnat]
    exact hrange
  · rw [decimal, numberOf_map hdigits, Nat.ofDigitChars_ten_toDigits]

/-! ### Descriptors -/

def colon : UInt8 := 58

/-- The parts between the colons; `part` is what stands behind the last one. -/
def splitParts (part : Text) : Text → List Text
  | [] => [part]
  | c :: s => if c = colon then part :: splitParts [] s else splitParts (part ++ [c]) s

structure WorkDescriptor where
  raw : Text
  total : UInt64 := 0
  resumeFrom : UInt64 := 0
  chunk : UInt64 := 0
  token : Text := []
deriving DecidableEq

/-- A descriptor that `parse` accepts. -/
structure ParsedDescriptor extends WorkDescriptor where
  chunk_ne : chunk ≠ 0
  resumeFrom_le : resumeFrom ≤ total
deriving DecidableEq

namespace WorkDescriptor

/-- The number in a part, or the descriptor as it stands when there is none. -/
def stoullOr (d : WorkDescriptor) (part : Text) : Except WorkDescriptor UInt64 :=
  (stoull part).elim (.error d) .ok

/-- The parsed descriptor, or what is left of it where `parse` returns `false`. -/
def parse (d : WorkDescriptor) : Except WorkDescriptor ParsedDescriptor :=
  match splitParts [] d.raw with
  | [p₀, p₁, p₂] => do
    let d := { d with total := ← d.stoullOr p₀ }
    let d := { d with resumeFrom := ← d.stoullOr p₁ }
    let d := { d with chunk := ← d.stoullOr p₂ }
    if h : d.chunk = 0 ∨ d.total < d.resumeFrom then .error d
    else .ok { d with chunk_ne := (not_or.mp h).1, resumeFrom_le := UInt64.not_lt.mp (not_or.mp h).2 }
  | _ => .error d

/-- `parse` succeeds, with these numbers. -/
def ParsesAs (d : WorkDescriptor) (total resumeFrom chunk : UInt64) : Prop :=
  ∃ d' : ParsedDescriptor, d.parse = .ok d' ∧ d'.total = total ∧ d'.resumeFrom = resumeFrom ∧
    d'.chunk = chunk

/-- Three parts, each of which this says something about. -/
def Parts (P : Text → UInt64 → Prop) (s : Text) (total resumeFrom chunk : UInt64) : Prop :=
  ∃ p₀ p₁ p₂ : Text, s = p₀ ++ colon :: (p₁ ++ colon :: p₂) ∧
    (P p₀ total ∧ P p₁ resumeFrom ∧ P p₂ chunk) ∧ chunk ≠ 0 ∧ resumeFrom ≤ total

/-- The grammar of descriptors: three numerals. -/
def Grammatical : Text → UInt64 → UInt64 → UInt64 → Prop := Parts Numeral

/-- The grammar that `parse` goes by: three parts that `std::stoull` reads. -/
def Accepted : Text → UInt64 → UInt64 → UInt64 → Prop := Parts fun p v => Lax p v ∧ colon ∉ p

end WorkDescriptor

/-! ### Cutting at the colons -/

theorem splitParts_append {p : Text} (h : colon ∉ p) (part s : Text) :
    splitParts part (p ++ s) = splitParts (part ++ p) s := by
  induction p generalizing part with
  | nil => rw [List.nil_append, List.append_nil]
  | cons c p ih =>
    rw [List.mem_cons, not_or] at h
    rw [List.cons_append, splitParts, if_neg (Ne.symm h.1), ih h.2, List.append_assoc]
    rfl

theorem splitParts_colon (part s : Text) :
    splitParts part (colon :: s) = part :: splitParts [] s := by
  rw [splitParts, if_pos rfl]

theorem splitParts_of_not_mem {p : Text} (h : colon ∉ p) : splitParts [] p = [p] := by
  have := splitParts_append h [] []
  rwa [List.append_nil, List.nil_append] at this

theorem splitParts_ne_nil (part s : Text) : splitParts part s ≠ [] := by
  induction s generalizing part with
  | nil => exact List.cons_ne_nil _ _
  | cons c s ih =>
    rw [splitParts]
    split
    · exact List.cons_ne_nil _ _
    · exact ih _

/-- The first part ends at the first colon, or is all there is. -/
theorem splitParts_cons_inv {part s p : Text} {ps : List Text} (hpart : colon ∉ part)
    (h : splitParts part s = p :: ps) :
    colon ∉ p ∧ ((ps = [] ∧ part ++ s = p) ∨
      ∃ s', part ++ s = p ++ colon :: s' ∧ splitParts [] s' = ps) := by
  induction s generalizing part with
  | nil =>
    cases h
    exact ⟨hpart, .inl ⟨rfl, List.append_nil _⟩⟩
  | cons c s ih =>
    rw [splitParts] at h
    split at h
    · next hc =>
      cases h
      exact ⟨hpart, .inr ⟨s, by rw [hc], rfl⟩⟩
    · next hc =>
      have hpart' : colon ∉ part ++ [c] := by
        rw [List.mem_append, List.mem_singleton, not_or]
        exact ⟨hpart, Ne.symm hc⟩
      have := ih hpart' h
      rwa [List.append_assoc] at this

theorem splitParts_eq_triple {s p₀ p₁ p₂ : Text} : splitParts [] s = [p₀, p₁, p₂] ↔
    s = p₀ ++ colon :: (p₁ ++ colon :: p₂) ∧ colon ∉ p₀ ∧ colon ∉ p₁ ∧ colon ∉ p₂ := by
  have hnil : colon ∉ ([] : Text) := List.not_mem_nil
  constructor
  · intro h
    obtain ⟨h₀, ⟨hps, -⟩ | ⟨s₁, hs, h⟩⟩ := splitParts_cons_inv hnil h
    · cases hps
    obtain ⟨h₁, ⟨hps, -⟩ | ⟨s₂, hs₁, h⟩⟩ := splitParts_cons_inv hnil h
    · cases hps
    obtain ⟨h₂, ⟨-, hs₂⟩ | ⟨s₃, -, h⟩⟩ := splitParts_cons_inv hnil h
    · rw [List.nil_append] at hs hs₁ hs₂
      exact ⟨by rw [hs, hs₁, hs₂], h₀, h₁, h₂⟩
    · exact (splitParts_ne_nil _ _ h).elim
  · rintro ⟨rfl, h₀, h₁, h₂⟩
    rw [splitParts_append h₀, splitParts_colon, splitParts_append h₁, splitParts_colon,
      splitParts_of_not_mem h₂]
    rfl

namespace WorkDescriptor

theorem stoullOr_of_lax {d : WorkDescriptor} {part : Text} {v : UInt64} (h : Lax part v) :
    d.stoullOr part = .ok v := by
  rw [stoullOr, stoull_eq_some.mpr h]
  rfl

theorem lax_of_stoullOr {d : WorkDescriptor} {part : Text} {v : UInt64}
    (h : d.stoullOr part = .ok v) : Lax part v := by
  rw [stoullOr] at h
  rcases hs : stoull part with _ | w
  · rw [hs] at h
    cases h
  · rw [hs] at h
    cases h
    exact stoull_eq_some.mp hs

theorem parse_of_accepted {d : WorkDescriptor} {total resumeFrom chunk : UInt64}
    (h : Accepted d.raw total resumeFrom chunk) : d.ParsesAs total resumeFrom chunk := by
  obtain ⟨p₀, p₁, p₂, hraw, ⟨⟨h₀, hc₀⟩, ⟨h₁, hc₁⟩, h₂, hc₂⟩, hchunk, hresume⟩ := h
  have hsplit := splitParts_eq_triple.mpr ⟨hraw, hc₀, hc₁, hc₂⟩
  have hgood : ¬(chunk = 0 ∨ total < resumeFrom) := not_or.mpr ⟨hchunk, UInt64.not_lt.mpr hresume⟩
  refine ⟨⟨{ d with total, resumeFrom, chunk }, hchunk, hresume⟩, ?_, rfl, rfl, rfl⟩
  rw [parse, hsplit]
  simp only [stoullOr_of_lax h₀, stoullOr_of_lax h₁, stoullOr_of_lax h₂, bind, Except.bind]
  exact dif_neg hgood

theorem accepted_of_parse {d : WorkDescriptor} {d' : ParsedDescriptor} (h : d.parse = .ok d') :
    Accepted d.raw d'.total d'.resumeFrom d'.chunk := by
  rw [parse] at h
  split at h
  · next p₀ p₁ p₂ hsplit =>
    obtain ⟨hraw, hc₀, hc₁, hc₂⟩ := splitParts_eq_triple.mp hsplit
    rcases h₀ : d.stoullOr p₀ with _ | total
    · rw [h₀] at h
      cases h
    simp only [h₀, bind, Except.bind] at h
    split at h
    · cases h
    · next h₁ =>
      split at h
      · cases h
      · next h₂ =>
        split at h
        · cases h
        · next hgood =>
          cases h
          exact ⟨p₀, p₁, p₂, hraw, ⟨⟨lax_of_stoullOr h₀, hc₀⟩, ⟨lax_of_stoullOr h₁, hc₁⟩,
            lax_of_stoullOr h₂, hc₂⟩, (not_or.mp hgood).1, UInt64.not_lt.mp (not_or.mp hgood).2⟩
  · cases h

theorem parsesAs_iff {d : WorkDescriptor} {total resumeFrom chunk : UInt64} :
    d.ParsesAs total resumeFrom chunk ↔ Accepted d.raw total resumeFrom chunk := by
  refine ⟨?_, parse_of_accepted⟩
  rintro ⟨d', h, rfl, rfl, rfl⟩
  exact accepted_of_parse h

/-! ### The two grammars -/

theorem Parts.imp {P Q : Text → UInt64 → Prop} (h : ∀ p v, P p v → Q p v) {s : Text}
    {total resumeFrom chunk : UInt64} (hs : Parts P s total resumeFrom chunk) :
    Parts Q s total resumeFrom chunk := by
  obtain ⟨p₀, p₁, p₂, hraw, ⟨h₀, h₁, h₂⟩, hvalid⟩ := hs
  exact ⟨p₀, p₁, p₂, hraw, ⟨h _ _ h₀, h _ _ h₁, h _ _ h₂⟩, hvalid⟩

theorem colon_not_mem_of_digits {p : Text} (h : ∀ c ∈ p, isDigit c) : colon ∉ p :=
  fun hmem => absurd (h _ hmem) (by decide)

theorem Grammatical.accepted {s : Text} {total resumeFrom chunk : UInt64}
    (h : Grammatical s total resumeFrom chunk) : Accepted s total resumeFrom chunk :=
  Parts.imp (fun _ _ hp => ⟨hp.lax, colon_not_mem_of_digits hp.digits⟩) h

/-- Nothing but digits and colons. -/
def Plain (s : Text) : Prop := ∀ c ∈ s, isDigit c ∨ c = colon

theorem Grammatical.plain {s : Text} {total resumeFrom chunk : UInt64}
    (h : Grammatical s total resumeFrom chunk) : Plain s := by
  obtain ⟨p₀, p₁, p₂, rfl, ⟨h₀, h₁, h₂⟩, -⟩ := h
  intro c hc
  simp only [List.mem_append, List.mem_cons] at hc
  rcases hc with hc | rfl | hc | rfl | hc
  · exact .inl (h₀.digits c hc)
  · exact .inr rfl
  · exact .inl (h₁.digits c hc)
  · exact .inr rfl
  · exact .inl (h₂.digits c hc)

theorem Accepted.grammatical {s : Text} {total resumeFrom chunk : UInt64}
    (h : Accepted s total resumeFrom chunk) (hs : Plain s) :
    Grammatical s total resumeFrom chunk := by
  obtain ⟨p₀, p₁, p₂, rfl, ⟨⟨h₀, hc₀⟩, ⟨h₁, hc₁⟩, h₂, hc₂⟩, hvalid⟩ := h
  have hdigits {p : Text} (hsub : ∀ c ∈ p, c ∈ p₀ ++ colon :: (p₁ ++ colon :: p₂))
      (hcolon : colon ∉ p) (c : UInt8) (hc : c ∈ p) : isDigit c := by
    rcases hs c (hsub c hc) with h | rfl
    · exact h
    · exact (hcolon hc).elim
  refine ⟨p₀, p₁, p₂, rfl, ⟨h₀.numeral ?_, h₁.numeral ?_, h₂.numeral ?_⟩, hvalid⟩
  · exact hdigits (fun c hc => by simp [hc]) hc₀
  · exact hdigits (fun c hc => by simp [hc]) hc₁
  · exact hdigits (fun c hc => by simp [hc]) hc₂

/-! ### Rendering -/

/-- The text of a descriptor, as the coordinator writes it. -/
def render (total resumeFrom chunk : UInt64) : Text :=
  decimal total.toNat ++ colon :: (decimal resumeFrom.toNat ++ colon :: decimal chunk.toNat)

theorem length_render (total resumeFrom chunk : UInt64) :
    (render total resumeFrom chunk).length ≤ 62 := by
  have h₀ := length_decimal total
  have h₁ := length_decimal resumeFrom
  have h₂ := length_decimal chunk
  rw [render, List.length_append, List.length_cons, List.length_append,
    List.length_cons]
  omega

theorem grammatical_render {total resumeFrom chunk : UInt64} (hchunk : chunk ≠ 0)
    (hresume : resumeFrom ≤ total) :
    Grammatical (render total resumeFrom chunk) total resumeFrom chunk :=
  ⟨_, _, _, rfl, ⟨numeral_decimal _, numeral_decimal _, numeral_decimal _⟩, hchunk, hresume⟩

/-- **Descriptors are parsed by their grammar** exactly when they are plain text or are
refused with what `std::stoull` makes of their parts too; and what the coordinator writes is
parsed as it was meant. -/
theorem descriptor_grammar (d : WorkDescriptor) :
    ((∀ total resumeFrom chunk,
        d.ParsesAs total resumeFrom chunk ↔ Grammatical d.raw total resumeFrom chunk) ↔
      (Plain d.raw ∨ ∀ total resumeFrom chunk, ¬Accepted d.raw total resumeFrom chunk)) ∧
    ∀ total resumeFrom chunk, chunk ≠ 0 → resumeFrom ≤ total →
      d.raw = render total resumeFrom chunk → d.ParsesAs total resumeFrom chunk := by
  refine ⟨⟨fun h => ?_, ?_⟩, fun total resumeFrom chunk hchunk hresume hraw => ?_⟩
  · by_cases hplain : Plain d.raw
    · exact .inl hplain
    · refine .inr fun total resumeFrom chunk hacc => hplain ?_
      exact Grammatical.plain ((h _ _ _).mp (parsesAs_iff.mpr hacc))
  · rintro (hplain | hnone) total resumeFrom chunk
    · rw [parsesAs_iff]
      exact ⟨fun h => h.grammatical hplain, Grammatical.accepted⟩
    · rw [parsesAs_iff]
      exact iff_of_false (hnone _ _ _) fun h => hnone _ _ _ h.accepted
  · rw [parsesAs_iff, hraw]
    exact (grammatical_render hchunk hresume).accepted

theorem descriptor_grammar_five :
    ({ raw := text "5:0:2" } : WorkDescriptor).ParsesAs 5 0 2 :=
  (descriptor_grammar { raw := text "5:0:2" }).2 5 0 2 (by decide) (by decide) (by decide)

/-- A chunk of minus one is taken for 18446744073709551615. -/
theorem descriptor_grammar_negative_chunk :
    ¬∀ (d : WorkDescriptor) (total resumeFrom chunk : UInt64),
      d.ParsesAs total resumeFrom chunk ↔ Grammatical d.raw total resumeFrom chunk := by
  intro h
  have hparse : ({ raw := text "5:0:-1" } : WorkDescriptor).ParsesAs 5 0 0xFFFFFFFFFFFFFFFF :=
    ⟨⟨{ raw := text "5:0:-1", total := 5, chunk := 0xFFFFFFFFFFFFFFFF }, by decide, by decide⟩,
      by decide, rfl, rfl, rfl⟩
  have hplain := ((h _ _ _ _).mp hparse).plain
  exact absurd (hplain 45 (by decide)) (by decide)

end WorkDescriptor

end WorkloadFabric
