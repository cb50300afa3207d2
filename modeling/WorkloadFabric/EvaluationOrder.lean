/-
What the order of evaluation changes.

The arguments of two constructor calls read from the same reader.  Read the other way round
the two words change places, and nothing else changes (`decode_order`): a record is accepted in
both orders or in neither, and what it is decoded to is the same exactly when the words are
equal.

* **`order_irrelevant_iff`** — both orders agree on a record exactly when it is no well-formed
  one with two different words in these places.
-/
import WorkloadFabric.HostileInput

namespace WorkloadFabric

open Decoder

/-! ### The other order -/

/-- A workload read in this order, where it is the one that is read from left to right. -/
def EvalOrder.workload (order : EvalOrder) (w : Workload) : Workload :=
  { w with contract := order.contract w.contract, deps := order.dependencies w.deps }

namespace Reader

theorem args_order (order : EvalOrder) {t t' : IdTag} :
    order.args (ident : Reader (UniqueValue t)) (ident : Reader (UniqueValue t')) =
      (fun p => order.pair p.1 p.2) <$> EvalOrder.leftToRight.args ident ident := by
  cases order
  · simp only [EvalOrder.pair, Prod.mk.eta, id_map']
  · simp only [EvalOrder.args, ident, bind_assoc, pure_bind, map_bind, map_pure]
    rfl

theorem contract_order (order : EvalOrder) :
    contract order = order.contract <$> contract .leftToRight := by
  rw [contract, contract, args_order]
  simp only [bind_map_left, map_bind, map_pure]
  rfl

theorem dependencies_order (order : EvalOrder) :
    dependencies order = order.dependencies <$> dependencies .leftToRight := by
  rw [dependencies, dependencies, args_order]
  simp only [bind_map_left, map_bind, map_pure]
  rfl

theorem workload_order (order : EvalOrder) :
    workload order = order.workload <$> workload .leftToRight := by
  rw [workload, workload, contract_order, dependencies_order]
  simp only [bind_map_left, map_bind, map_pure]
  rfl

end Reader

/-- Neither the trailing bytes nor the identity depend on the order. -/
theorem decode_order (order : EvalOrder) :
    Workload.decode order = order.workload <$> Workload.decode .leftToRight := by
  rw [Workload.decode, Workload.decode, Reader.workload_order]
  simp only [bind_map_left, map_bind]
  refine congrArg _ (funext fun w => congrArg _ (funext fun rest => ?_))
  rw [EvalOrder.workload]
  split
  · rfl
  · split
    · rfl
    · rfl

theorem decode_order_apply (order : EvalOrder) (s : List UInt8) :
    Workload.decode order s =
      (Workload.decode .leftToRight s).map fun r => (order.workload r.1, r.2) := by
  rw [decode_order order]
  rfl

/-! ### The shape of a record -/

namespace Layout

def contractFields : Reader Unit :=
  seq [word64, word64, any (Reader.list Reader.requirement), any Reader.grant]

def dependencyFields : Reader Unit := seq [word64, word64, any do
  let defs ← Reader.list Reader.dependencyDef
  let ns ← Reader.u32
  Reader.dependencyStates 0 ns.toNat (.replicate defs.length {})]

/-- The fields of a workload, in whatever order the two words of a call are taken. -/
def fields : Reader Unit := seq [word64, word64, word64, any (Reader.readEnum WorkloadState 25),
  text, text, any Reader.policy, contractFields, dependencyFields, any Reader.priority,
  any Reader.progress, word64, word64, word64, word32, word64, word64, word64, word64,
  any Reader.flag, any Reader.flag, any Reader.flag, text, word64, any (Reader.list Reader.episode),
  any (Reader.list Reader.transitionRecord)]

end Layout

namespace Reader

theorem any_ident {tag : IdTag} : any (ident : Reader (UniqueValue tag)) = Layout.word64 := any_map

theorem any_args {α : Type} {t t' : IdTag} {f : UniqueValue t × UniqueValue t' → Reader α}
    {ls : List (Reader Unit)} (h : ∀ p, any (f p) = seq ls) :
    any (EvalOrder.leftToRight.args ident ident >>= f) =
      seq (Layout.word64 :: Layout.word64 :: ls) := by
  simp only [EvalOrder.args, bind_assoc, pure_bind]
  exact any_cons any_ident fun u => any_cons any_ident fun v => h (u, v)

theorem any_contract : any (contract .leftToRight) = Layout.contractFields :=
  any_args fun _ => any_cons rfl fun _ => any_cons rfl fun _ => any_pure _

theorem any_dependencies : any (dependencies .leftToRight) = Layout.dependencyFields := by
  refine any_args fun _ => ?_
  simp only [any, seq, bind_assoc, pure_bind]

theorem any_workload : any (workload .leftToRight) = Layout.fields := by
  refine any_cons any_ident fun _ => any_cons any_ident fun _ => any_cons any_ident fun _ => ?_
  refine any_cons rfl fun _ => any_cons rfl fun _ => any_cons rfl fun _ => any_cons rfl fun _ => ?_
  refine any_cons any_contract fun _ => any_cons any_dependencies fun _ => any_cons rfl fun _ => ?_
  refine any_cons rfl fun _ => any_cons any_ident fun _ => any_cons any_ident fun _ => ?_
  refine any_cons any_ident fun _ => any_cons rfl fun _ => any_cons any_ident fun _ => ?_
  refine any_cons any_ident fun _ => any_cons any_ident fun _ => any_cons any_ident fun _ => ?_
  refine any_cons rfl fun _ => any_cons rfl fun _ => any_cons rfl fun _ => any_cons rfl fun _ => ?_
  exact any_cons any_ident fun _ => any_cons rfl fun _ => any_cons rfl fun _ => any_pure _

end Reader

/-! ### What agrees -/

/-- The identity of a workload, of its contract and of its dependencies. -/
structure RecordWords where
  id : WorkloadId
  generation : WorkloadGeneration
  revision : WorkloadRevision
  contractId : ResourceContractId
  contractGeneration : ResourceContractGeneration
  setId : DependencySetId
  setGeneration : DependencyGeneration

def Workload.words (w : Workload) : RecordWords :=
  ⟨w.id, w.generation, w.revision, w.contract.id, w.contract.generation, w.deps.id, w.deps.gen⟩

/-- The two words of the contract are the same, and so are those of the dependencies. -/
def RecordWords.Symmetric (r : RecordWords) : Prop :=
  r.contractId.toU64 = r.contractGeneration.toU64 ∧ r.setId.toU64 = r.setGeneration.toU64

/-- Words that change places stay the same where they are equal. -/
theorem workload_eq_self_iff {w : Workload} :
    EvalOrder.rightToLeft.workload w = w ↔ w.words.Symmetric := by
  constructor
  · intro h
    have hcontract := congrArg (fun v => v.contract.id.toU64) h
    have hdeps := congrArg (fun v => v.deps.id.toU64) h
    exact ⟨hcontract.symm, hdeps.symm⟩
  · rintro ⟨hcontract, hdeps⟩
    have hc : EvalOrder.rightToLeft.pair w.contract.id w.contract.generation =
        (w.contract.id, w.contract.generation) :=
      Prod.ext (UniqueValue.ext_toU64 hcontract.symm) (UniqueValue.ext_toU64 hcontract)
    have hd : EvalOrder.rightToLeft.pair w.deps.id w.deps.gen = (w.deps.id, w.deps.gen) :=
      Prod.ext (UniqueValue.ext_toU64 hdeps.symm) (UniqueValue.ext_toU64 hdeps)
    rw [EvalOrder.workload, EvalOrder.contract, EvalOrder.dependencies, hc, hd]

/-- The identities at the front of a payload. -/
def Reader.recordWords : Reader RecordWords := do
  let wid ← ident
  let generation ← ident
  let revision ← ident
  let _ ← readEnum WorkloadState 25
  let _ ← str
  let _ ← str
  let _ ← policy
  let contract ← contract .leftToRight
  let deps ← dependencies .leftToRight
  return ⟨wid, generation, revision, contract.id, contract.generation, deps.id, deps.gen⟩

/-- The payload has all fields of a workload and nothing behind them, and `r` are its
identities, the first three of which are not zero. -/
structure WellFormed (payload : List UInt8) (r : RecordWords) : Prop where
  fields : Layout.fields payload = .ok ((), [])
  words : ∃ rest, Reader.recordWords payload = .ok (r, rest)
  id : r.id.valid = true
  generation : r.generation.toU64 ≠ 0
  revision : r.revision.toU64 ≠ 0

theorem begins_words : Begins Reader.recordWords (fun r => Ensures fun w => w.words = r)
    (Reader.workload .leftToRight) := by
  refine .skip fun _ => .skip fun _ => .skip fun _ => .skip fun _ => .skip fun _ => ?_
  refine .skip fun _ => .skip fun _ => .skip fun contract => .skip fun deps s => ⟨_, ?_, rfl⟩
  refine .after fun _ => .after fun _ => .after fun _ => .after fun _ => .after fun _ => ?_
  refine .after fun _ => .after fun _ => .after fun _ => .after fun _ => .after fun _ => ?_
  refine .after fun _ => .after fun _ => .after fun _ => .after fun _ => .after fun _ => ?_
  exact .after fun _ => .after fun _ => .pure rfl

/-- What is read to the end has the words that stand at its front. -/
theorem workload_words {payload : List UInt8} {w : Workload}
    (h : Reader.workload .leftToRight payload = .ok (w, [])) :
    ∃ rest, Reader.recordWords payload = .ok (w.words, rest) := by
  rcases hwords : Reader.recordWords payload with e | ⟨r, rest⟩
  · cases (begins_words.error hwords).symm.trans h
  · obtain ⟨k, hk, hread⟩ := begins_words.ok hwords
    exact ⟨rest, by rw [hk rest w [] (hread.symm.trans h)]⟩

/-- Which payloads are decoded. -/
theorem decoded_iff {payload : List UInt8} {r : RecordWords} :
    (∃ w rest, Workload.decode .leftToRight payload = .ok (w, rest) ∧ w.words = r) ↔
      WellFormed payload r := by
  constructor
  · rintro ⟨w, rest, hdecode, rfl⟩
    have hw := decode_cases.1 w rest hdecode
    rw [Reader.decode_of_workload hw] at hdecode
    split at hdecode
    · cases hdecode
    · next hid =>
      simp only [Bool.or_eq_true, Bool.not_eq_true', beq_iff_eq, not_or, Bool.not_eq_false] at hid
      refine ⟨?_, workload_words hw, hid.1.1, hid.1.2, hid.2⟩
      rw [← Reader.any_workload]
      exact bind_eq_ok.mpr ⟨w, [], hw, rfl⟩
  · intro h
    obtain ⟨w, rest, hw, hrest⟩ :=
      bind_eq_ok.mp ((congrFun Reader.any_workload payload).trans h.fields)
    cases hrest
    obtain ⟨_, hwords⟩ := workload_words hw
    obtain ⟨_, hr⟩ := h.words
    have hwr : w.words = r := (Prod.mk.inj (Except.ok.inj (hwords.symm.trans hr))).1
    refine ⟨w, [], ?_, hwr⟩
    rw [Reader.decode_of_workload hw, if_neg ?_]
    have hid := h.id
    have hgeneration := h.generation
    have hrevision := h.revision
    rw [← hwr] at hid hgeneration hrevision
    simp only [Bool.or_eq_true, Bool.not_eq_true', beq_iff_eq, not_or, Bool.not_eq_false]
    exact ⟨⟨hid, hgeneration⟩, hrevision⟩

theorem decodeWorkload_of_frame_error (order : EvalOrder) {data : List UInt8} {e : DecodeError}
    (h : Reader.frame data = .error e) :
    decodeWorkload order data = report (.error e : Except DecodeError (Workload × List UInt8)) := by
  rw [decodeWorkload, h]
  rfl

theorem decodeWorkload_order (order : EvalOrder) {data payload rest : List UInt8}
    (h : Reader.frame data = .ok (payload, rest)) :
    decodeWorkload order data =
      report ((Workload.decode .leftToRight payload).map fun r => (order.workload r.1, r.2)) := by
  rw [decodeWorkload, h]
  exact congrArg report (decode_order_apply order payload)

/-- **A record is reported with the same status in both orders.** -/
theorem decodeWorkload_status (order : EvalOrder) (data : List UInt8) :
    (decodeWorkload order data).map (·.1) = (decodeWorkload .leftToRight data).map (·.1) := by
  rcases hframe : Reader.frame data with e | ⟨payload, rest⟩
  · rw [decodeWorkload_of_frame_error order hframe,
      decodeWorkload_of_frame_error .leftToRight hframe]
  · rw [decodeWorkload_order order hframe, decodeWorkload_order .leftToRight hframe]
    rcases Workload.decode .leftToRight payload with e | r
    · rfl
    · rfl

/-- **The two orders agree exactly on the records that are not well formed, and on those whose
contract and dependencies have two equal words each.** -/
theorem order_irrelevant_iff (data : List UInt8) :
    decodeWorkload .rightToLeft data = decodeWorkload .leftToRight data ↔
      ∀ payload rest r, Reader.frame data = .ok (payload, rest) → WellFormed payload r →
        r.Symmetric := by
  rcases hframe : Reader.frame data with e | ⟨payload, rest⟩
  · refine iff_of_true ?_ (by simp)
    rw [decodeWorkload_of_frame_error .rightToLeft hframe,
      decodeWorkload_of_frame_error .leftToRight hframe]
  · rw [decodeWorkload_order .rightToLeft hframe, decodeWorkload_order .leftToRight hframe]
    simp only [Except.ok.injEq, Prod.mk.injEq]
    rcases hdecode : Workload.decode .leftToRight payload with e | ⟨w, rest'⟩
    · -- a payload that is rejected
      refine iff_of_true rfl ?_
      rintro _ _ r ⟨rfl, rfl⟩ hr
      obtain ⟨_, _, hok, -⟩ := decoded_iff.mpr hr
      cases hdecode.symm.trans hok
    · have hself : EvalOrder.leftToRight.workload w = w := rfl
      have hreport : report (.ok (EvalOrder.rightToLeft.workload w, rest')) =
          report (.ok (EvalOrder.leftToRight.workload w, rest')) ↔ w.words.Symmetric := by
        rw [← workload_eq_self_iff, hself, report, report, Option.some.injEq, Prod.mk.injEq]
        exact and_iff_right rfl
      refine hreport.trans ⟨?_, fun h => ?_⟩
      · rintro hsym _ _ r ⟨rfl, rfl⟩ hr
        obtain ⟨w', _, hok, rfl⟩ := decoded_iff.mpr hr
        obtain ⟨rfl, -⟩ := Prod.mk.inj (Except.ok.inj (hdecode.symm.trans hok))
        exact hsym
      · exact h payload rest w.words ⟨rfl, rfl⟩ (decoded_iff.mp ⟨w, rest', hdecode, rfl⟩)

/-- One requirement was added to the contract of this workload, so its generation is one more
than its identity; the generation of the dependencies and their identity are both zero. -/
theorem orders_differ : ¬∀ data : List UInt8,
    decodeWorkload .rightToLeft data = decodeWorkload .leftToRight data := by
  intro h
  let w : Workload := { Workload.create (.fromU64 1) (text "w") (text "job") with
    contract := (ResourceContract.add {} {}).2 }
  have hfit : w.SizesFit := ⟨by decide, by decide, by decide, by decide, by decide, by decide⟩
  have hload : w.Loadable := by
    refine ⟨⟨fun r hr => ?_, fun _ hb => absurd hb List.not_mem_nil⟩, ?_, ?_, ?_⟩
    · rw [List.mem_singleton.mp (show r ∈ [({} : ResourceRequirement)] from hr)]
      exact ⟨by decide, by decide, by decide⟩
    all_goals decide
  have hread (order : EvalOrder) :
      decodeWorkload order (encodeWorkload w) = some (.allow, order.carried w) :=
    (decode_encode order hfit rfl (by decide +kernel)).1 hload
  have heq := h (encodeWorkload w)
  rw [hread, hread, Option.some.injEq, Prod.mk.injEq] at heq
  exact absurd (congrArg (fun v => v.contract.id) heq.2) (by decide)

end WorkloadFabric
