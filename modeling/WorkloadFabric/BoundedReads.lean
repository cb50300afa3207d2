/-
The cursor of class `Reader`.

Everywhere else a reader is a decoder of what is left of its buffer.  Here it is what the
source has: a position in a buffer, moved by words.  Any operation may be called at any
time, with lengths from the buffer or from the caller, also after another one has thrown.

* **`tracks_perform`** — each operation does what its decoder does;
* **`bounded_reads`** — in every sequence of operations the position stays in the buffer,
  no use of it wraps around or looks outside, and an operation that returns moves it over just
  the bytes it returns; and what a sequence of writes has written is read back to its end.
-/
import WorkloadFabric.Binary
import WorkloadFabric.Buffer

namespace WorkloadFabric

open Decoder

/-- The exception of the codec. -/
structure CodecError where
  what : Text
deriving DecidableEq

/-- It is one of the ways in which reading a record ends early. -/
def CodecError.toDecodeError (e : CodecError) : DecodeError := .codecError e.what

/-- A member function of `Reader`. -/
abbrev ByteCode (α : Type) := Code CodecError UInt8 α

/-! ### The member functions -/

namespace ByteCode

def need (n : ℕ) : ByteCode Unit := Code.need (2 ^ 64) n ⟨text "read past end"⟩

def u8 : ByteCode UInt8 := do
  need 1
  Code.next (2 ^ 64)

def u16 : ByteCode UInt16 := do
  need 2
  let v0 ← u8
  let v1 ← u8
  return (v0.toUInt16 <<< 8) ||| v1.toUInt16

def u32 : ByteCode UInt32 := do
  need 4
  let v0 ← u8
  let v1 ← u8
  let v2 ← u8
  let v3 ← u8
  return (v0.toUInt32 <<< 24) ||| (v1.toUInt32 <<< 16) ||| (v2.toUInt32 <<< 8) ||| v3.toUInt32

/-- `for (n times) r = (r << 8) | u8()` -/
def shiftIn : ℕ → UInt64 → ByteCode UInt64
  | 0, r => return r
  | n + 1, r => do
    let v ← u8
    shiftIn n ((r <<< 8) ||| v.toUInt64)

def u64 : ByteCode UInt64 := do
  need 8
  shiftIn 8 0

def i64 : ByteCode Int64 := do
  let v ← u64
  return v.toInt64

def f64 : ByteCode Double := do
  let bits ← u64
  return { bits := bits }

/-- Also what `bytes` and `str` do once they know the length. -/
def raw (n : ℕ) : ByteCode (List UInt8) := do
  need n
  Code.copy (2 ^ 64) n

/-- `if (n > remaining()) throw CodecError(what)`, and the check of `need` after it. -/
def sized (what : Text) : ByteCode (List UInt8) := do
  let n ← u64
  Code.need (2 ^ 64) n.toNat ⟨what⟩
  raw n.toNat

def bytes : ByteCode (List UInt8) := sized (text "length exceeds buffer")

def str : ByteCode Text := sized (text "string length exceeds buffer")

end ByteCode

/-! ### Each does what its decoder does -/

/-- The code is that of the decoder. -/
abbrev TracksReader {α : Type} (m : ByteCode α) (d : Reader α) : Prop :=
  Tracks (2 ^ 64) CodecError.toDecodeError m d

section Tracks

theorem tracks_need (n : ℕ) : TracksReader (ByteCode.need n) (need n Reader.pastEnd) :=
  .need n _

theorem tracks_u8 : TracksReader ByteCode.u8 Reader.u8 := .symbol _

theorem tracks_u16 : TracksReader ByteCode.u16 Reader.u16 :=
  (tracks_need 2).bind fun _ => tracks_u8.bind fun _ => tracks_u8.bind fun _ => .pure _

theorem tracks_u32 : TracksReader ByteCode.u32 Reader.u32 := by
  refine (tracks_need 4).bind fun _ => tracks_u8.bind fun _ => tracks_u8.bind fun _ => ?_
  exact tracks_u8.bind fun _ => tracks_u8.bind fun _ => .pure _

theorem tracks_shiftIn (n : ℕ) (r : UInt64) :
    TracksReader (ByteCode.shiftIn n r) (Reader.shiftIn n r) := by
  induction n generalizing r with
  | zero => exact .pure r
  | succ n ih => exact tracks_u8.bind fun _ => ih _

theorem tracks_u64 : TracksReader ByteCode.u64 Reader.u64 :=
  (tracks_need 8).bind fun _ => tracks_shiftIn 8 0

theorem tracks_i64 : TracksReader ByteCode.i64 Reader.i64 := tracks_u64.bind fun _ => .pure _

theorem tracks_f64 : TracksReader ByteCode.f64 Reader.f64 := tracks_u64.bind fun _ => .pure _

theorem tracks_raw (n : ℕ) : TracksReader (ByteCode.raw n) (Reader.raw n) := .take n _

theorem tracks_sized (what : Text) : TracksReader (ByteCode.sized what) (Reader.sized what) :=
  tracks_u64.bind fun n => (Tracks.need n.toNat _).bind fun _ => tracks_raw n.toNat

end Tracks

/-- The code of a reader: it calls the member functions and passes on what they throw. -/
abbrev CodedReader {α : Type} (d : Reader α) := HasCode (2 ^ 64) d

namespace Reader

instance : CodedReader u8 := .ofTracks tracks_u8

instance : CodedReader u32 := .ofTracks tracks_u32

instance : CodedReader u64 := .ofTracks tracks_u64

instance : CodedReader i64 := .ofTracks tracks_i64

instance : CodedReader f64 := .ofTracks tracks_f64

instance (n : ℕ) : CodedReader (raw n) := .ofTracks (tracks_raw n)

instance : CodedReader str := .ofTracks (tracks_sized _)

end Reader

/-! ### Sequences of operations -/

/-- An operation of `Reader`. -/
inductive ReadOp where
  | u8 | u16 | u32 | u64 | i64 | f64 | bytes | str
  | raw (n : UInt64)
deriving DecidableEq

/-- A value as it is written by an operation of `Writer` and returned by one of `Reader`. -/
inductive Value where
  | u8 (v : UInt8)
  | u16 (v : UInt16)
  | u32 (v : UInt32)
  | u64 (v : UInt64)
  | i64 (v : Int64)
  | f64 (v : Double)
  | bytes (v : List UInt8)
  | str (s : Text)
  | raw (v : List UInt8)
deriving DecidableEq

namespace Value

/-- What the operation of `Writer` appends. -/
def written : Value → List UInt8
  | u8 v => Writer.u8 v
  | u16 v => Writer.u16 v
  | u32 v => Writer.u32 v
  | u64 v => Writer.u64 v
  | i64 v => Writer.i64 v
  | f64 v => Writer.f64 v
  | bytes v => Writer.bytes v
  | str s => Writer.str s
  | raw v => Writer.raw v

/-- The corresponding operation of `Reader`. -/
def op : Value → ReadOp
  | u8 _ => .u8
  | u16 _ => .u16
  | u32 _ => .u32
  | u64 _ => .u64
  | i64 _ => .i64
  | f64 _ => .f64
  | bytes _ => .bytes
  | str _ => .str
  | raw v => .raw (.ofNat v.length)

/-- The string or the vector that is returned. -/
def contents : Value → List UInt8
  | bytes v | str v | raw v => v
  | _ => []

theorem length_contents_le (v : Value) : v.contents.length ≤ v.written.length := by
  cases v with
  | bytes v => simp [contents, written, Writer.bytes]
  | str v => simp [contents, written, Writer.str]
  | raw v => exact le_rfl
  | _ => exact Nat.zero_le _

end Value

namespace ReadOp

def perform : ReadOp → ByteCode Value
  | u8 => do let v ← ByteCode.u8; return .u8 v
  | u16 => do let v ← ByteCode.u16; return .u16 v
  | u32 => do let v ← ByteCode.u32; return .u32 v
  | u64 => do let v ← ByteCode.u64; return .u64 v
  | i64 => do let v ← ByteCode.i64; return .i64 v
  | f64 => do let v ← ByteCode.f64; return .f64 v
  | bytes => do let v ← ByteCode.bytes; return .bytes v
  | str => do let v ← ByteCode.str; return .str v
  | raw n => do let v ← ByteCode.raw n.toNat; return .raw v

/-- The decoder that the operation tracks. -/
def decode : ReadOp → Reader Value
  | u8 => do let v ← Reader.u8; return .u8 v
  | u16 => do let v ← Reader.u16; return .u16 v
  | u32 => do let v ← Reader.u32; return .u32 v
  | u64 => do let v ← Reader.u64; return .u64 v
  | i64 => do let v ← Reader.i64; return .i64 v
  | f64 => do let v ← Reader.f64; return .f64 v
  | bytes => do let v ← Reader.bytes; return .bytes v
  | str => do let v ← Reader.str; return .str v
  | raw n => do let v ← Reader.raw n.toNat; return .raw v

/-- **Each operation does what its decoder does.** -/
theorem tracks_perform (op : ReadOp) : TracksReader op.perform op.decode := by
  cases op with
  | u8 => exact tracks_u8.bind fun _ => .pure _
  | u16 => exact tracks_u16.bind fun _ => .pure _
  | u32 => exact tracks_u32.bind fun _ => .pure _
  | u64 => exact tracks_u64.bind fun _ => .pure _
  | i64 => exact tracks_i64.bind fun _ => .pure _
  | f64 => exact tracks_f64.bind fun _ => .pure _
  | bytes => exact (tracks_sized _).bind fun _ => .pure _
  | str => exact (tracks_sized _).bind fun _ => .pure _
  | raw n => exact (tracks_raw n.toNat).bind fun _ => .pure _

/-- What is returned is what was taken. -/
theorem takes_value {α : Type} {R : α → List UInt8 → Prop} {m : Reader α} (h : Takes R m)
    {f : α → Value} {op : ReadOp}
    (hf : ∀ a bs, R a bs → (f a).op = op ∧ bs = (f a).written) :
    Takes (fun v bs => v.op = op ∧ bs = v.written) (m >>= fun a => pure (f a)) := by
  refine h.bind fun a bs hbs => .pure ?_
  rw [List.append_nil]
  exact hf a bs hbs

/-- **What an operation takes is what the writer of its value writes.** -/
theorem takes_decode (op : ReadOp) : Takes (fun v bs => v.op = op ∧ bs = v.written) op.decode := by
  cases op with
  | u8 => exact takes_value Reader.faithful_u8.takes fun _ _ h => ⟨rfl, h⟩
  | u16 => exact takes_value Reader.faithful_u16.takes fun _ _ h => ⟨rfl, h⟩
  | u32 => exact takes_value Reader.faithful_u32.takes fun _ _ h => ⟨rfl, h⟩
  | u64 => exact takes_value Reader.faithful_u64.takes fun _ _ h => ⟨rfl, h⟩
  | i64 => exact takes_value Reader.faithful_i64.takes fun _ _ h => ⟨rfl, h⟩
  | f64 => exact takes_value Reader.faithful_f64.takes fun _ _ h => ⟨rfl, h⟩
  | bytes => exact takes_value (Reader.faithful_sized _).takes fun _ _ h => ⟨rfl, h⟩
  | str => exact takes_value Reader.faithful_str.takes fun _ _ h => ⟨rfl, h⟩
  | raw n =>
    -- a raw read is told its length and has no encoding of its own
    refine takes_value (.need_take n.toNat _) fun v bs h => ⟨?_, h.2⟩
    rw [Value.op, h.1, UInt64.ofNat_toNat]

/-- **What was written is read back.** -/
theorem reads_decode (v : Value) : ReadsAs True v.op.decode v.written v := by
  cases v with
  | u8 v => exact (Reader.reads_u8 v).last
  | u16 v => exact (Reader.reads_u16 v).last
  | u32 v => exact (Reader.reads_u32 v).last
  | u64 v => exact (Reader.reads_u64 v).last
  | i64 v => exact (Reader.reads_i64 v).last
  | f64 v => exact (Reader.reads_f64 v).last
  | bytes v => exact (Reader.reads_sized _ v).last
  | str s => exact (Reader.reads_str s).last
  | raw v =>
    refine .of_bound fun hv => ?_
    have hlen : v.length < 2 ^ 64 := hv
    have h := (Reader.reads_raw v).last (f := Value.raw)
    rwa [← Reader.toNat_length hlen] at h

end ReadOp

/-- The operations in order on one reader; whatever is thrown is caught between them. -/
def readAll : List ReadOp → Traced UInt8 → Option (List (Except CodecError Value) × Traced UInt8)
  | [], c => some ([], c)
  | op :: ops, c => do
    let (r, c) ← op.perform c
    let (rs, c) ← readAll ops c
    return (r :: rs, c)

theorem readAll_cons {op : ReadOp} {ops : List ReadOp} {c c₁ c₂ : Traced UInt8}
    {r : Except CodecError Value} {rs : List (Except CodecError Value)}
    (h : op.perform c = some (r, c₁)) (h' : readAll ops c₁ = some (rs, c₂)) :
    readAll (op :: ops) c = some (r :: rs, c₂) := by
  rw [readAll, h, Option.bind_eq_bind, Option.bind_some]
  dsimp only
  rw [h']
  rfl

/-- What a writer holds after these operations. -/
def allWritten (vs : List Value) : List UInt8 := vs.flatMap Value.written

/-- The bytes that a reader is made of; their number is a `size_t`. -/
structure Buffer where
  data : List UInt8
  length_lt : data.length < 2 ^ 64

/-- A new reader. -/
def Buffer.reader (buf : Buffer) : Traced UInt8 := { data := buf.data, pos := 0 }

theorem Buffer.valid_reader (buf : Buffer) : buf.reader.Valid (2 ^ 64) :=
  ⟨Nat.zero_le _, buf.length_lt⟩

/-- The value that is returned is what stands between the positions before and after. -/
structure Consumed (c : Traced UInt8) (op : ReadOp) (v : Value) (c' : Traced UInt8) : Prop where
  op_eq : v.op = op
  rest_eq : c.rest = v.written ++ c'.rest
  pos_eq : c'.pos = c.pos + v.written.length
  contents_le : v.contents.length ≤ c.remaining (2 ^ 64)

/-- An operation in the buffer: the position does not leave it, nothing wraps around, and a
value that is returned has been consumed. -/
structure BoundedRead (c : Traced UInt8) (op : ReadOp) (result : Except CodecError Value)
    (c' : Traced UInt8) : Prop where
  onward : Onward (2 ^ 64) c c'
  consumed : ∀ v, result = .ok v → Consumed c op v c'

/-- One operation. -/
theorem ReadOp.perform_bounded (op : ReadOp) {c : Traced UInt8} (hc : c.Valid (2 ^ 64)) :
    ∃ result c', op.perform c = some (result, c') ∧ BoundedRead c op result c' := by
  have hends := op.tracks_perform c hc
  generalize op.perform c = r at hends
  generalize hd : op.decode c.rest = s at hends
  cases hends with
  | error hon =>
    refine ⟨_, _, rfl, hon, fun v hv => ?_⟩
    cases hv
  | @ok v c' hon =>
    obtain ⟨bs, hrest, hop, rfl⟩ := op.takes_decode _ _ _ hd
    have hle : v.contents.length ≤ c.remaining (2 ^ 64) := by
      rw [hc.remaining_eq, hrest, List.length_append]
      exact v.length_contents_le.trans (Nat.le_add_right _ _)
    refine ⟨.ok v, c', rfl, hon, fun v' hv => ?_⟩
    cases hv
    exact ⟨hop, hrest, hon.pos_eq hc hrest, hle⟩

/-- All operations. -/
theorem readAll_onward (ops : List ReadOp) {c : Traced UInt8} (hc : c.Valid (2 ^ 64)) :
    ∃ results c', readAll ops c = some (results, c') ∧ Onward (2 ^ 64) c c' := by
  induction ops generalizing c with
  | nil => exact ⟨[], c, rfl, .refl hc⟩
  | cons op ops ih =>
    obtain ⟨r, c₁, hr, hb⟩ := op.perform_bounded hc
    obtain ⟨rs, c₂, hrs, hon⟩ := ih hb.onward.valid
    exact ⟨r :: rs, c₂, readAll_cons hr hrs, hb.onward.trans hon⟩

/-- An operation returns what its writer wrote and goes to the end of it. -/
theorem Value.perform_written (v : Value) {c : Traced UInt8} (hc : c.Valid (2 ^ 64))
    {rest : List UInt8} (hrest : c.rest = v.written ++ rest) :
    ∃ c', v.op.perform c = some (.ok v, c') ∧ Onward (2 ^ 64) c c' ∧ c'.rest = rest := by
  have hlen : (v.written ++ rest).length < 2 ^ 64 := by
    rw [← hrest, Cursor.rest, List.length_drop]
    exact (Nat.sub_le _ _).trans_lt hc.length_lt
  have hends := v.op.tracks_perform c hc
  rw [hrest, ((ReadOp.reads_decode v) rest hlen).1 trivial] at hends
  generalize v.op.perform c = r at hends
  generalize hs : Except.ok (v, rest) = s at hends
  cases hends with
  | error => cases hs
  | @ok a c' hon =>
    obtain ⟨rfl, rfl⟩ := Prod.mk.inj (Except.ok.inj hs)
    exact ⟨c', rfl, hon, rfl⟩

/-- What was written is read back, one value after the other. -/
theorem readAll_written (vs : List Value) {c : Traced UInt8} (hc : c.Valid (2 ^ 64))
    {rest : List UInt8} (hrest : c.rest = allWritten vs ++ rest) :
    ∃ c', readAll (vs.map Value.op) c = some (vs.map .ok, c') ∧
      Onward (2 ^ 64) c c' ∧ c'.rest = rest := by
  induction vs generalizing c with
  | nil => exact ⟨c, rfl, .refl hc, hrest⟩
  | cons v vs ih =>
    rw [allWritten, List.flatMap_cons, List.append_assoc] at hrest
    obtain ⟨c₁, hv, hon, hrest₁⟩ := v.perform_written hc hrest
    obtain ⟨c₂, hvs, hon', hrest₂⟩ := ih hon.valid hrest₁
    exact ⟨c₂, readAll_cons hv hvs, hon.trans hon', hrest₂⟩

/-- **The reader stays in its buffer, and reads back what was written.**  After any sequence
of operations the position is inside and nothing has wrapped around or been looked up
outside; whichever operation comes next is bounded. -/
theorem bounded_reads (buf : Buffer) :
    (∀ ops, ∃ results c, readAll ops buf.reader = some (results, c) ∧ c.data = buf.data ∧
      c.pos ≤ buf.data.length ∧ (∀ t ∈ c.trace, t.Within buf.data.length) ∧
      ∀ op : ReadOp, ∃ result c', op.perform c = some (result, c') ∧
        BoundedRead c op result c') ∧
    ∀ vs rest, buf.data = allWritten vs ++ rest → ∃ c,
      readAll (vs.map Value.op) buf.reader = some (vs.map .ok, c) ∧
      c.pos = (allWritten vs).length := by
  constructor
  · intro ops
    obtain ⟨results, c, hrun, hon⟩ := readAll_onward ops buf.valid_reader
    obtain ⟨ts, htrace, hin⟩ := hon.within
    have hpos := hon.valid.pos_le
    rw [hon.data] at hpos
    refine ⟨results, c, hrun, hon.data, hpos, ?_, fun op => op.perform_bounded hon.valid⟩
    rw [htrace]
    exact hin
  · intro vs rest hdata
    obtain ⟨c, hrun, hon, hrest⟩ := readAll_written vs buf.valid_reader hdata
    refine ⟨c, hrun, ?_⟩
    rw [hon.pos_eq buf.valid_reader (hdata.trans (congrArg (allWritten vs ++ ·) hrest.symm))]
    exact Nat.zero_add _

/-- A word, a string and three more bytes. -/
theorem bounded_reads_three_more : ∃ c,
    readAll [.u16, .str] (Buffer.reader ⟨allWritten [.u16 513, .str (text "ab")] ++ [1, 2, 3],
      by decide⟩) = some ([.ok (.u16 513), .ok (.str (text "ab"))], c) ∧ c.pos = 12 :=
  (bounded_reads _).2 [.u16 513, .str (text "ab")] [1, 2, 3] rfl

end WorkloadFabric
