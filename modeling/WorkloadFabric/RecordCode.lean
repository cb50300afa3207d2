/-
The code that reads a record, on the cursor of class `Reader`.

`decodeWorkload` makes one reader of the record and another of its payload, and calls nothing
but their member functions.  The code of each of its parts is that part with the member
functions on a cursor (`ByteCode`) in the place of the decoders; instance search finds it, and
with it the proof that it does what the decoder does (`HasCode.tracks`).

* **`stays_within`** — whatever the bytes, the code of a reader ends, looks nothing up outside
  its buffer and subtracts and moves no position that would wrap around.
-/
import WorkloadFabric.BoundedReads
import WorkloadFabric.Persistence

namespace WorkloadFabric

open Decoder

/-! ### The code of the parts of a record -/

namespace Reader

instance : CodedReader flag := by
  delta flag
  infer_instance

instance {α : Type} : CodedReader (reject : Reader α) := by
  delta reject
  infer_instance

instance {α : Type} [CodedEnum α] (maxV : UInt8) : CodedReader (readEnum α maxV) := by
  delta readEnum
  infer_instance

instance {α : Type} (item : Reader α) [CodedReader item] : CodedReader (list item) := by
  delta list
  infer_instance

instance {tag : IdTag} : CodedReader (ident : Reader (UniqueValue tag)) := by
  delta ident
  infer_instance

instance : CodedReader policy := by
  delta policy
  infer_instance

instance : CodedReader requirement := by
  delta requirement
  infer_instance

instance : CodedReader binding := by
  delta binding
  infer_instance

/-- The code of a binding is its reader, with the member functions on a cursor in it. -/
example : HasCode.code (2 ^ 64) binding = (do
    let kind ← HasCode.code (2 ^ 64) (readEnum ResourceKind 16)
    let amount ← ByteCode.f64.lift CodecError.toDecodeError
    if !amount.isFinite || amount.lt {} then throw (.returned .rejectUnknown)
    else
      let qualifier ← ByteCode.str.lift CodecError.toDecodeError
      return ⟨kind, amount, qualifier⟩) := rfl

instance : CodedReader grant := by
  delta grant
  infer_instance

instance (order : EvalOrder) {α β : Type} (x : Reader α) (y : Reader β) [CodedReader x]
    [CodedReader y] : CodedReader (order.args x y) := by
  cases order
  · delta EvalOrder.args
    infer_instance
  · delta EvalOrder.args
    infer_instance

instance (order : EvalOrder) : CodedReader (contract order) := by
  delta contract
  infer_instance

instance : CodedReader dependencyDef := by
  delta dependencyDef
  infer_instance

instance : CodedReader dependencyState := by
  delta dependencyState
  infer_instance

/-- The loop over the dependency states; past the end it throws before it writes. -/
@[reducible]
def codedStates : (i n : ℕ) → (states : List DependencyState) →
    CodedReader (dependencyStates i n states)
  | _, 0, states => inferInstanceAs (CodedReader (pure states))
  | i, n + 1, states =>
    have (s : DependencyState) := codedStates (i + 1) n (states.set i s)
    inferInstanceAs (CodedReader do
      let s ← dependencyState
      if i < states.length then dependencyStates (i + 1) n (states.set i s)
      else fail .terminated)

instance (i n : ℕ) (states : List DependencyState) :
    CodedReader (dependencyStates i n states) := codedStates i n states

instance (order : EvalOrder) : CodedReader (dependencies order) := by
  delta dependencies
  infer_instance

instance : CodedReader priority := by
  delta priority
  infer_instance

instance : CodedReader progress := by
  delta progress
  infer_instance

instance : CodedReader handle := by
  delta handle
  infer_instance

instance : CodedReader episode := by
  delta episode
  infer_instance

instance : CodedReader transitionRecord := by
  delta transitionRecord
  infer_instance

instance (order : EvalOrder) : CodedReader (workload order) := by
  delta workload
  infer_instance

instance (len : UInt64) : CodedReader (frameBody len) := by
  delta frameBody
  infer_instance

instance : CodedReader frame := by
  delta frame
  infer_instance

end Reader

instance (order : EvalOrder) : CodedReader (Workload.decode order) := by
  delta Workload.decode
  infer_instance

/-! ### Staying in the buffer -/

/-- The code of the reader, on these bytes, ends, and what it does with its position stays
inside. -/
def StaysWithin {α : Type} (d : Reader α) [CodedReader d] (data : List UInt8) : Prop :=
  ∃ result c, HasCode.code (2 ^ 64) d { data := data, pos := 0 } = some (result, c) ∧
    ∀ t ∈ c.trace, t.Within data.length

/-- **The code of a reader stays in its buffer**, whose size is a `size_t`. -/
theorem stays_within {α : Type} (d : Reader α) [CodedReader d] {data : List UInt8}
    (hsize : data.length < 2 ^ 64) : StaysWithin d data := by
  have htracks : Tracks (2 ^ 64) id (HasCode.code (2 ^ 64) d) d := HasCode.tracks
  have hends := htracks { data := data, pos := 0 } ⟨Nat.zero_le _, hsize⟩
  rw [StaysWithin]
  generalize HasCode.code (2 ^ 64) d { data := data, pos := 0 } = r at hends
  generalize d _ = s at hends
  cases hends with
  | error hon =>
    obtain ⟨ts, htrace, hin⟩ := hon.within
    exact ⟨_, _, rfl, htrace ▸ hin⟩
  | ok hon =>
    obtain ⟨ts, htrace, hin⟩ := hon.within
    exact ⟨_, _, rfl, htrace ▸ hin⟩

end WorkloadFabric
