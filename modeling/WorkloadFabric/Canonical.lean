/-
Which accepted records are canonical.

`decode` takes more than `encode` writes: any byte that is not zero is true, a priority is
cut from 64 bits to 32, there may be fewer dependency states than definitions, and bytes
after the checksum are not looked at.  The layouts here rule out just that (`Canonical`),
and **`canonical_iff`** — an accepted record is the encoding of the workload it is decoded
to exactly when it is canonical.
-/
import WorkloadFabric.Corruption
import WorkloadFabric.Layout
import WorkloadFabric.Reload

namespace WorkloadFabric

open Decoder

/-- The layout tells whether the decoder took what the encoder writes. -/
abbrev ExactLayout {α : Type} (before : List (List UInt8)) (enc : α → List UInt8)
    (layout : Reader Unit) (m : Reader α) : Prop :=
  Exact DecodeError.Refuses before enc layout m

/-! ### Layouts -/

namespace Layout

def byte : Reader Unit := any Reader.u8

def word32 : Reader Unit := any Reader.u32

def word64 : Reader Unit := any Reader.u64

def text : Reader Unit := any Reader.str

/-- 0 or 1. -/
def flag : Reader Unit := do
  let v ← Reader.u8
  if v ≤ 1 then return () else Reader.reject

/-- A 32-bit number, extended to 64 bits by its sign. -/
def int32 : Reader Unit := do
  let v ← Reader.u64
  if v.toInt64.toInt32.toInt64 = v.toInt64 then return () else Reader.reject

def list (item : Reader Unit) : Reader Unit := do
  let n ← Reader.u32
  seq (.replicate n.toNat item)

/-- Two words that are read back in the order they were written in. -/
def args : EvalOrder → Reader Unit
  | .leftToRight => seq [word64, word64]
  | .rightToLeft => do
    let u ← Reader.u64
    let v ← Reader.u64
    if u = v then return () else Reader.reject

def policy : Reader Unit := seq [byte, word32, word32, flag, flag, byte, word32, flag, flag, byte,
  flag, flag, flag, flag, flag, word32, flag, byte, word64]

def requirement : Reader Unit := seq [byte, byte, word64, word64, text]

def binding : Reader Unit := seq [byte, word64, text]

def grant : Reader Unit := seq [word64, word64, byte, flag, list binding]

def contract (order : EvalOrder) : Reader Unit := seq [args order, list requirement, grant]

def dependencyDef : Reader Unit := seq [word64, byte, byte, text]

def dependencyState : Reader Unit := seq [byte, word64, text]

/-- As many states as definitions. -/
def dependencies (order : EvalOrder) : Reader Unit := do
  args order
  let n ← Reader.u32
  seq (.replicate n.toNat dependencyDef)
  let ns ← Reader.u32
  if ns = n then seq (.replicate ns.toNat dependencyState) else Reader.reject

def priority : Reader Unit := seq [word64, word64, byte, int32, int32, flag, flag, flag]

def progress : Reader Unit := seq [word64, byte, word64, word64, byte, word64, flag]

def handle : Reader Unit := seq [word64, word64, word64, text]

def episode : Reader Unit := seq [word64, word64, byte, word64, word64, word64, word64, handle,
  word64, word64, word64, word64, word64, word64, progress, text, flag, flag, flag, flag, flag]

def transitionRecord : Reader Unit := seq [byte, byte, word64, word64, text, byte]

def workload (order : EvalOrder) : Reader Unit := seq [word64, word64, word64, byte, text, text,
  policy, contract order, dependencies order, priority, progress, word64, word64, word64, word32,
  word64, word64, word64, word64, flag, flag, flag, text, word64, list episode,
  list transitionRecord]

end Layout

/-- Nothing follows the checksum, and the payload is laid out as the encoder does it. -/
def Canonical (order : EvalOrder) (data : List UInt8) : Prop :=
  ∃ payload, Reader.frame data = .ok (payload, []) ∧ Layout.workload order payload = .ok ((), [])

/-! ### The codes of the enumerations are dense -/

instance : CodedEnum.Dense WorkloadState := .of_all (by decide)

instance : CodedEnum.Dense RestartKind := .of_all (by decide)

instance : CodedEnum.Dense CompletionKind := .of_all (by decide)

instance : CodedEnum.Dense MigrationEligibility := .of_all (by decide)

instance : CodedEnum.Dense CancelRaceSemantics := .of_all (by decide)

instance : CodedEnum.Dense ResourceKind := .of_all (by decide)

instance : CodedEnum.Dense NeedLevel := .of_all (by decide)

instance : CodedEnum.Dense GrantStatus := .of_all (by decide)

instance : CodedEnum.Dense DependencyRequirement := .of_all (by decide)

instance : CodedEnum.Dense DependencyReady := .of_all (by decide)

instance : CodedEnum.Dense DependencyStatus := .of_all (by decide)

instance : CodedEnum.Dense PriorityTier := .of_all (by decide)

instance : CodedEnum.Dense TotalKind := .of_all (by decide)

instance : CodedEnum.Dense ProgressProvenance := .of_all (by decide)

instance : CodedEnum.Dense EpisodeState := .of_all (by decide)

instance : CodedEnum.Dense Outcome := .of_all (by decide)

/-! ### The primitives -/

namespace Reader

theorem faithful_ident {tag : IdTag} :
    FaithfulReader Writer.ident (ident : Reader (UniqueValue tag)) :=
  faithful_u64.map fun v => by rw [Writer.ident, UniqueValue.toU64_fromU64]

theorem faithful_enum {α : Type} [CodedEnum α] [CodedEnum.Dense α] {maxV : UInt8}
    (h : CodedEnum.maxCode α = maxV) : FaithfulReader Writer.enum (readEnum α maxV) := by
  subst h
  intro s
  rcases s with _ | ⟨v, s⟩
  · exact .inr ⟨pastEnd, refuses_pastEnd, rfl⟩
  · rw [readEnum, bind_apply, u8_cons]
    simp only
    split
    · exact .inr ⟨_, refuses_rejectUnknown, rfl⟩
    · next hv =>
      refine .inl ⟨CodedEnum.ofCode v, s, ?_, rfl⟩
      rw [Writer.enum, CodedEnum.Dense.code_ofCode v (UInt8.not_lt.mp hv)]
      rfl

theorem exact_flag : ExactLayout [] Writer.flag Layout.flag flag := by
  have hlen (v : UInt8) : (Writer.u8 v).length = (Writer.flag (v != 0)).length := rfl
  have hiff (v : UInt8) : Writer.u8 v = Writer.flag (v != 0) ↔ v ≤ 1 := by
    rw [Writer.u8, Writer.flag, Writer.u8, List.cons.injEq, and_iff_left rfl]
    by_cases h : v = 0
    · simp [h]
    · have h0 : v.toNat ≠ 0 := fun h0 => h (UInt8.toNat_inj.mp h0)
      rw [if_pos (by simpa using h), ← UInt8.toNat_inj, UInt8.le_iff_toNat_le, UInt8.toNat_one]
      omega
  exact .of_slack (· != 0) (· ≤ 1) faithful_u8 hlen hiff _

theorem exact_int32 :
    ExactLayout [] (fun v : Int64 => Writer.i64 v.toInt32.toInt64) Layout.int32 i64 := by
  have hlen (v : UInt64) :
      (Writer.u64 v).length = (Writer.i64 v.toInt64.toInt32.toInt64).length := by
    rw [Writer.i64, Writer.length_u64, Writer.length_u64]
  have hiff (v : UInt64) : Writer.u64 v = Writer.i64 v.toInt64.toInt32.toInt64 ↔
      v.toInt64.toInt32.toInt64 = v.toInt64 := by
    constructor
    · intro h
      exact (congrArg UInt64.toInt64 (writer_u64_inj h)).symm
    · intro h
      rw [h, Writer.i64, UInt64.toUInt64_toInt64]
  exact .of_slack UInt64.toInt64 (fun v => v.toInt64.toInt32.toInt64 = v.toInt64) faithful_u64
    hlen hiff _

theorem exact_byte {α : Type} [CodedEnum α] [CodedEnum.Dense α] {maxV : UInt8}
    (h : CodedEnum.maxCode α = maxV) :
    ExactLayout [] Writer.enum Layout.byte (readEnum α maxV) := by
  refine .of_faithful (faithful_enum h) fun s a rest hm => ?_
  obtain ⟨v, mid, hv, hif⟩ := bind_eq_ok.mp hm
  split at hif
  · exact absurd hif (by simp [reject, fail])
  · cases hif
    exact bind_eq_ok.mpr ⟨v, rest, hv, rfl⟩

theorem exact_word32 : ExactLayout [] Writer.u32 Layout.word32 u32 := .of_any faithful_u32

theorem exact_word64 : ExactLayout [] Writer.u64 Layout.word64 u64 := .of_any faithful_u64

theorem exact_text : ExactLayout [] Writer.str Layout.text str := .of_any faithful_str

theorem exact_ident {tag : IdTag} :
    ExactLayout [] Writer.ident Layout.word64 (ident : Reader (UniqueValue tag)) := by
  refine .of_faithful faithful_ident fun s a rest hm => ?_
  obtain ⟨v, mid, hv, hpure⟩ := bind_eq_ok.mp hm
  cases hpure
  exact bind_eq_ok.mpr ⟨v, rest, hv, rfl⟩

theorem exact_f64 : ExactLayout [] Writer.f64 Layout.word64 f64 := by
  refine .of_faithful faithful_f64 fun s a rest hm => ?_
  obtain ⟨v, mid, hv, hpure⟩ := bind_eq_ok.mp hm
  cases hpure
  exact bind_eq_ok.mpr ⟨v, rest, hv, rfl⟩

theorem exact_list {α : Type} {enc : α → List UInt8} {l : Reader Unit} {item : Reader α}
    (h : ExactLayout [] enc l item) :
    ExactLayout [] (Writer.list enc) (Layout.list l) (list item) := by
  refine .value faithful_u32 fun n => ?_
  refine (h.many n.toNat).congr_enc (Ensures.many item n.toNat) fun as hlen => ?_
  rw [Writer.list, Writer.size, hlen, UInt32.ofNat_toNat, List.nil_append, List.flatten_singleton]

/-! ### The parts of a record -/

theorem exact_policy : ExactLayout [] Writer.policy Layout.policy policy := by
  refine (exact_byte rfl).cons fun _ => exact_word32.cons fun _ => exact_word32.cons fun _ => ?_
  refine exact_flag.cons fun _ => exact_flag.cons fun _ => (exact_byte rfl).cons fun _ => ?_
  refine exact_word32.cons fun _ => exact_flag.cons fun _ => exact_flag.cons fun _ => ?_
  refine (exact_byte rfl).cons fun _ => exact_flag.cons fun _ => exact_flag.cons fun _ => ?_
  refine exact_flag.cons fun _ => exact_flag.cons fun _ => exact_flag.cons fun _ => ?_
  refine exact_word32.cons fun _ => exact_flag.cons fun _ => (exact_byte rfl).cons fun _ => ?_
  exact exact_ident.cons fun _ => .nil rfl (by simp)

theorem exact_requirement :
    ExactLayout [] Writer.requirement Layout.requirement requirement := by
  refine (exact_byte rfl).cons fun _ => (exact_byte rfl).cons fun _ => exact_f64.cons fun _ => ?_
  refine exact_f64.cons fun _ => .check refuses_rejectUnknown ?_
  exact exact_text.cons fun _ => .nil rfl (by simp)

theorem exact_binding : ExactLayout [] Writer.binding Layout.binding binding := by
  refine (exact_byte rfl).cons fun _ => exact_f64.cons fun _ => ?_
  exact .check refuses_rejectUnknown <| exact_text.cons fun _ => .nil rfl (by simp)

theorem exact_grant : ExactLayout [] Writer.grant Layout.grant grant := by
  refine exact_ident.cons fun _ => exact_ident.cons fun _ => (exact_byte rfl).cons fun _ => ?_
  exact exact_flag.cons fun _ => (exact_list exact_binding).cons fun _ => .nil rfl (by simp)

theorem exact_dependencyDef :
    ExactLayout [] Writer.dependencyDef Layout.dependencyDef dependencyDef := by
  refine exact_ident.cons fun _ => (exact_byte rfl).cons fun _ => (exact_byte rfl).cons fun _ => ?_
  exact exact_text.cons fun _ => .nil rfl (by simp)

theorem exact_dependencyState :
    ExactLayout [] Writer.dependencyState Layout.dependencyState dependencyState := by
  refine (exact_byte rfl).cons fun _ => exact_ident.cons fun _ => exact_text.cons fun _ => ?_
  exact .nil rfl (by simp)

theorem exact_args (order : EvalOrder) {t t' : IdTag} :
    ExactLayout [] (fun p : UniqueValue t × UniqueValue t' => Writer.ident p.1 ++ Writer.ident p.2)
      (Layout.args order) (order.args ident ident) := by
  cases order with
  | leftToRight =>
    exact exact_ident.cons fun u => exact_ident.cons fun v =>
      .nil (show _ = [Writer.ident u, Writer.ident v].flatten by simp) (by simp)
  | rightToLeft =>
    constructor
    · intro s p rest hm
      obtain ⟨b, mid, hb, hm⟩ := bind_eq_ok.mp hm
      obtain ⟨a, rest', ha, hpure⟩ := bind_eq_ok.mp hm
      cases hpure
      obtain ⟨u, _, hu, hpure⟩ := bind_eq_ok.mp hb
      cases hpure
      obtain ⟨v, _, hv, hpure⟩ := bind_eq_ok.mp ha
      cases hpure
      refine ⟨Writer.u64 u ++ Writer.u64 v, Writer.u64 v ++ Writer.u64 u, ?_, ?_, ?_, ?_⟩
      · rw [faithful_u64.eq_append hu, faithful_u64.eq_append hv, List.append_assoc]
      · rw [Writer.ident, Writer.ident, UniqueValue.toU64_fromU64, UniqueValue.toU64_fromU64,
          List.flatten_nil, List.nil_append]
      · rw [List.length_append, List.length_append, Nat.add_comm]
      · rw [Layout.args, bind_apply, hu]
        simp only
        rw [bind_apply, hv]
        simp only
        -- the words are written back in the other order
        split
        · next huv => exact .inl ⟨by rw [huv], rfl⟩
        · next huv =>
          refine .inr ⟨fun heq => huv (writer_u64_inj ?_), _, rfl⟩
          exact List.append_inj_left heq (by rw [Writer.length_u64, Writer.length_u64])
    · intro s e hm
      rcases bind_eq_error.mp hm with hb | ⟨b, mid, -, hm⟩
      · exact faithful_ident.error hb
      · rcases bind_eq_error.mp hm with ha | ⟨a, rest, -, hpure⟩
        · exact faithful_ident.error ha
        · cases hpure

theorem exact_contract (order : EvalOrder) :
    ExactLayout [] Writer.contract (Layout.contract order) (contract order) := by
  refine (exact_args order).cons fun _ => (exact_list exact_requirement).cons fun _ => ?_
  exact exact_grant.cons fun _ => .nil rfl (by simp)

/-- The loop over the states reads as many as it is told, over the first default ones. -/
theorem dependencyStates_eq_ok (pre : List DependencyState) {n k : ℕ} {l : List DependencyState}
    {s rest : List UInt8}
    (h : dependencyStates pre.length n (pre ++ .replicate k {}) s = .ok (l, rest)) :
    ∃ l', Decoder.many dependencyState n s = .ok (l', rest) ∧ n ≤ k ∧
      l = pre ++ l' ++ .replicate (k - n) {} := by
  induction n generalizing pre k s with
  | zero =>
    cases h
    exact ⟨[], rfl, Nat.zero_le k, by rw [List.append_nil, Nat.sub_zero]⟩
  | succ n ih =>
    obtain ⟨st, mid, hst, hrest⟩ := bind_eq_ok.mp h
    rcases k with _ | k
    · simp [fail] at hrest
    · -- the state replaces the first default one
      have hset : (pre ++ List.replicate (k + 1) ({} : DependencyState)).set pre.length st =
          (pre ++ [st]) ++ .replicate k {} := by
        simp [List.replicate_succ]
      have hlen : pre.length + 1 = (pre ++ [st]).length := by simp
      rw [if_pos (by simp), hset, hlen] at hrest
      obtain ⟨l', hmany, hle, rfl⟩ := ih _ hrest
      refine ⟨st :: l', ?_, by omega, ?_⟩
      · exact bind_eq_ok.mpr ⟨st, mid, hst, bind_eq_ok.mpr ⟨l', rest, hmany, rfl⟩⟩
      · rw [Nat.add_sub_add_right, List.append_assoc pre [st], List.singleton_append]

theorem dependencyStates_error {i n : ℕ} {l : List DependencyState} {s : List UInt8}
    {e : DecodeError} (h : dependencyStates i n l s = .error e) : e.Refuses := by
  induction n generalizing i l s with
  | zero => cases h
  | succ n ih =>
    rcases bind_eq_error.mp h with hst | ⟨st, mid, -, hrest⟩
    · exact exact_dependencyState.error s e hst
    · split at hrest
      · exact ih hrest
      · obtain rfl : DecodeError.terminated = e := by simpa [fail] using hrest
        simp [DecodeError.Refuses]

/-- With fewer states than definitions the encoding is longer than what was read. -/
theorem exact_states {before : List (List UInt8)} {n : UInt32}
    {f : List DependencyState → DependencySet}
    (hf : ∀ l, Writer.dependencies (f l) =
      before.flatten ++ (Writer.size l ++ l.flatMap Writer.dependencyState)) :
    ExactLayout before Writer.dependencies
      (do
        let ns ← u32
        if ns = n then seq (.replicate ns.toNat Layout.dependencyState) else reject)
      (do
        let ns ← u32
        let states ← dependencyStates 0 ns.toNat (.replicate n.toNat {})
        return f states) where
  ok s c rest hm := by
    obtain ⟨ns, mid, hns, hm⟩ := bind_eq_ok.mp hm
    obtain ⟨states, rest', hstates, hpure⟩ := bind_eq_ok.mp hm
    cases hpure
    obtain ⟨l, hmany, hle, hl⟩ := dependencyStates_eq_ok [] hstates
    rw [List.nil_append] at hl
    obtain ⟨bs, can, hmid, hcan, hlen, hlayout⟩ :=
      (exact_dependencyState.many ns.toNat).ok mid l rest hmany
    have hlength : l.length = ns.toNat := Ensures.many dependencyState ns.toNat mid l rest hmany
    have hcan' : l.flatMap Writer.dependencyState = can := hcan
    refine ⟨Writer.u32 ns ++ bs, Writer.size states ++ states.flatMap Writer.dependencyState,
      ?_, hf states, ?_, ?_⟩
    · rw [faithful_u32.eq_append hns, hmid, List.append_assoc]
    · rw [hl, List.flatMap_append, hcan', Writer.size]
      simp only [List.length_append, Writer.length_u32]
      omega
    · rw [bind_apply, hns]
      simp only
      split
      · next heq =>
        -- as many states as definitions: nothing is filled up
        rw [heq, Nat.sub_self, List.replicate_zero, List.append_nil] at hl
        have hsize : Writer.size states = Writer.u32 ns := by
          rw [Writer.size, hl, hlength, UInt32.ofNat_toNat]
        rw [hsize, hl, hcan']
        rcases hlayout with ⟨hbs, hok⟩ | ⟨hbs, herr⟩
        · exact .inl ⟨by rw [hbs], hok⟩
        · exact .inr ⟨fun h => hbs (List.append_cancel_left h), herr⟩
      · next hne =>
        refine .inr ⟨fun h => hne ?_, _, rfl⟩
        have hword : Writer.u32 ns = Writer.u32 (.ofNat states.length) :=
          List.append_inj_left h (by rw [Writer.length_u32, Writer.length_u32])
        rw [writer_u32_inj hword, hl, List.length_append, List.length_replicate, hlength,
          Nat.add_sub_cancel' hle, UInt32.ofNat_toNat]
  error s e hm := by
    rcases bind_eq_error.mp hm with hns | ⟨ns, mid, -, hm⟩
    · exact faithful_u32.error hns
    · rcases bind_eq_error.mp hm with hstates | ⟨states, rest, -, hpure⟩
      · exact dependencyStates_error hstates
      · cases hpure

theorem exact_dependencies (order : EvalOrder) :
    ExactLayout [] Writer.dependencies (Layout.dependencies order) (dependencies order) := by
  refine (exact_args order).bind (Q := fun _ => True) (fun _ _ _ _ => trivial) fun p _ => ?_
  obtain ⟨sid, gen⟩ := p
  simp only [list, bind_assoc]
  refine .value faithful_u32 fun n => ?_
  refine (exact_dependencyDef.many n.toNat).bind (Ensures.many _ _) fun defs hdefs => ?_
  rw [hdefs]
  refine exact_states fun l => ?_
  simp [Writer.dependencies, Writer.list, Writer.size, hdefs]

theorem exact_priority : ExactLayout [] Writer.priority Layout.priority priority := by
  refine exact_ident.cons fun _ => exact_ident.cons fun _ => (exact_byte rfl).cons fun _ => ?_
  refine exact_int32.cons fun _ => exact_int32.cons fun _ => exact_flag.cons fun _ => ?_
  exact exact_flag.cons fun _ => exact_flag.cons fun _ => .nil rfl (by simp [Priority.setBase])

theorem exact_progress : ExactLayout [] Writer.progress Layout.progress progress := by
  refine exact_word64.cons fun _ => (exact_byte rfl).cons fun _ => exact_word64.cons fun _ => ?_
  refine exact_word64.cons fun _ => (exact_byte rfl).cons fun _ => exact_word64.cons fun _ => ?_
  exact exact_flag.cons fun _ => .nil rfl (by simp)

theorem exact_handle : ExactLayout [] Writer.handle Layout.handle handle := by
  refine exact_ident.cons fun _ => exact_ident.cons fun _ => exact_word64.cons fun _ => ?_
  exact exact_text.cons fun _ => .nil rfl (by simp)

theorem exact_episode : ExactLayout [] Writer.episode Layout.episode episode := by
  refine exact_ident.cons fun _ => exact_ident.cons fun _ => (exact_byte rfl).cons fun _ => ?_
  refine exact_ident.cons fun _ => exact_ident.cons fun _ => exact_ident.cons fun _ => ?_
  refine exact_ident.cons fun _ => exact_handle.cons fun _ => exact_ident.cons fun _ => ?_
  refine exact_ident.cons fun _ => exact_ident.cons fun _ => exact_ident.cons fun _ => ?_
  refine exact_ident.cons fun _ => exact_ident.cons fun _ => exact_progress.cons fun _ => ?_
  refine exact_text.cons fun _ => exact_flag.cons fun _ => exact_flag.cons fun _ => ?_
  exact exact_flag.cons fun _ => exact_flag.cons fun _ => exact_flag.cons fun _ =>
    .nil rfl (by simp)

theorem exact_transitionRecord :
    ExactLayout [] Writer.transitionRecord Layout.transitionRecord transitionRecord := by
  refine (exact_byte rfl).cons fun _ => (exact_byte rfl).cons fun _ => exact_ident.cons fun _ => ?_
  refine exact_word64.cons fun _ => exact_text.cons fun _ => (exact_byte rfl).cons fun _ => ?_
  exact .nil rfl (by simp)

theorem exact_workload (order : EvalOrder) :
    ExactLayout [] Writer.workload (Layout.workload order) (workload order) := by
  refine exact_ident.cons fun _ => exact_ident.cons fun _ => exact_ident.cons fun _ => ?_
  refine (exact_byte rfl).cons fun _ => exact_text.cons fun _ => exact_text.cons fun _ => ?_
  refine exact_policy.cons fun _ => (exact_contract order).cons fun _ => ?_
  refine (exact_dependencies order).cons fun _ => exact_priority.cons fun _ => ?_
  refine exact_progress.cons fun _ => exact_ident.cons fun _ => exact_ident.cons fun _ => ?_
  refine exact_ident.cons fun _ => exact_word32.cons fun _ => exact_ident.cons fun _ => ?_
  refine exact_ident.cons fun _ => exact_ident.cons fun _ => exact_ident.cons fun _ => ?_
  refine exact_flag.cons fun _ => exact_flag.cons fun _ => exact_flag.cons fun _ => ?_
  refine exact_text.cons fun _ => exact_ident.cons fun _ => ?_
  refine (exact_list exact_episode).cons fun _ => ?_
  exact (exact_list exact_transitionRecord).cons fun _ => .nil rfl (by simp)

/-! ### The frame -/

theorem frameBody_cases (len : UInt64) (s : List UInt8) :
    (∃ payload rest, payload.length = len.toNat ∧
      s = payload ++ (Writer.u64 (fnv1a64 payload) ++ rest) ∧
      frameBody len s = .ok (payload, rest)) ∨
    ∃ e, e.Refuses ∧ frameBody len s = .error e := by
  rw [frameBody, bind_apply, need]
  by_cases h : s.length < len.toNat
  · rw [if_pos h]
    exact .inr ⟨_, refuses_rejectUnknown, rfl⟩
  · have hlen : (s.take len.toNat).length = len.toNat := by
      rw [List.length_take]
      omega
    have hraw : raw len.toNat s = .ok (s.take len.toNat, s.drop len.toNat) := by
      rw [raw, bind_apply, need, if_neg h]
      rfl
    rw [if_neg h]
    simp only
    rw [bind_apply, hraw]
    simp only
    rw [bind_apply]
    rcases faithful_u64 (s.drop len.toNat) with ⟨stored, rest, hs, hstored⟩ | ⟨e, he, hstored⟩
    · rw [hstored]
      simp only
      split
      · exact .inr ⟨_, refuses_rejectUnknown, rfl⟩
      · next hsum =>
        refine .inl ⟨s.take len.toNat, rest, hlen, ?_, rfl⟩
        rw [← not_not.mp hsum, ← hs, List.take_append_drop]
    · rw [hstored]
      exact .inr ⟨e, he, rfl⟩

/-- A frame that is read is one that was written, whatever follows it. -/
theorem faithful_frame : FaithfulReader Writer.frame frame := by
  intro s
  rw [frame, bind_apply]
  rcases faithful_u32 s with ⟨magic, s, rfl, hmagic⟩ | ⟨e, he, hmagic⟩
  · rw [hmagic]
    simp only
    split
    · exact .inr ⟨_, refuses_rejectUnknown, rfl⟩
    rw [bind_apply]
    rcases faithful_u32 s with ⟨version, s, rfl, hversion⟩ | ⟨e, he, hversion⟩
    · rw [hversion]
      simp only
      split
      · exact .inr ⟨_, refuses_rejectUnknown, rfl⟩
      rw [bind_apply]
      rcases faithful_u64 s with ⟨len, s, rfl, hlen⟩ | ⟨e, he, hlen⟩
      · rw [hlen]
        simp only
        rcases frameBody_cases len s with ⟨payload, rest, hp, hs, hbody⟩ | ⟨e, he, hbody⟩
        · next hm hv =>
          refine .inl ⟨payload, rest, ?_, hbody⟩
          rw [frame_parts, hp, UInt64.ofNat_toNat, ← hs, not_not.mp hm, not_not.mp hv]
        · exact .inr ⟨e, he, hbody⟩
      · rw [hlen]
        exact .inr ⟨e, he, rfl⟩
    · rw [hversion]
      exact .inr ⟨e, he, rfl⟩
  · rw [hmagic]
    exact .inr ⟨e, he, rfl⟩

end Reader

/-! ### Accepted records -/

/-- Nothing but what was read is reported as ALLOW. -/
theorem report_eq_allow {α : Type} {r : Except DecodeError (Workload × α)} {w : Workload}
    (h : report r = some (.allow, w)) (hr : ∀ e, r = .error e → e.Refuses) :
    ∃ a, r = .ok (w, a) := by
  rcases r with e | ⟨w', a⟩
  · cases e with
    | codecError what => simp [report] at h
    | returned status =>
      obtain ⟨rfl, -⟩ := Prod.mk.inj (Option.some.inj h)
      exact absurd rfl (hr _ rfl)
    | terminated => simp [report] at h
  · obtain ⟨-, rfl⟩ := Prod.mk.inj (Option.some.inj h)
    exact ⟨a, rfl⟩

/-- A payload is decoded from its first byte to its last. -/
theorem decode_cases {order : EvalOrder} {payload : List UInt8} :
    (∀ w rest, Workload.decode order payload = .ok (w, rest) →
      Reader.workload order payload = .ok (w, [])) ∧
    ∀ e, Workload.decode order payload = .error e → e.Refuses := by
  rw [Workload.decode]
  constructor
  · intro w rest h
    obtain ⟨w', mid, hw, h⟩ := bind_eq_ok.mp h
    obtain ⟨_, _, hget, h⟩ := bind_eq_ok.mp h
    cases hget
    split at h
    · cases h
    · next hempty =>
      split at h
      · cases h
      · cases h
        have hrest : rest = [] := by simpa using hempty
        rw [hw, hrest]
  · intro e h
    rcases bind_eq_error.mp h with hw | ⟨w, mid, -, h⟩
    · exact (Reader.exact_workload order).error payload e hw
    · rcases bind_eq_error.mp h with hget | ⟨_, _, -, h⟩
      · cases hget
      · split at h
        · cases h
          exact Reader.refuses_rejectUnknown
        · split at h
          · cases h
            exact Reader.refuses_rejectUnknown
          · cases h

/-- What is accepted was framed, and its payload read to the end. -/
theorem accepted_cases {order : EvalOrder} {data : List UInt8} {w : Workload}
    (h : decodeWorkload order data = some (.allow, w)) :
    ∃ payload rest, Reader.frame data = .ok (payload, rest) ∧
      data = Writer.frame payload ++ rest ∧ Reader.workload order payload = .ok (w, []) := by
  rw [decodeWorkload] at h
  cases hframe : Reader.frame data with
  | error e =>
    rw [hframe] at h
    obtain ⟨_, hr⟩ := report_eq_allow h fun e' he => by
      cases he
      exact Reader.faithful_frame.error hframe
    cases hr
  | ok r =>
    obtain ⟨payload, rest⟩ := r
    rw [hframe] at h
    obtain ⟨rest', hr⟩ := report_eq_allow h fun e he => decode_cases.2 e he
    exact ⟨payload, rest, rfl, Reader.faithful_frame.eq_append hframe, decode_cases.1 w rest' hr⟩

/-- A frame is no other frame with something behind it, as far as lengths fit their
field. -/
theorem frame_eq_append {payload payload' rest : List UInt8}
    (hsize : (Writer.frame payload' ++ rest).length < 2 ^ 64)
    (h : Writer.frame payload = Writer.frame payload' ++ rest) :
    payload = payload' ∧ rest = [] := by
  have hlength := congrArg List.length h
  rw [List.length_append, Reader.length_frame, Reader.length_frame] at hlength
  rw [List.length_append, Reader.length_frame] at hsize
  have hp : payload.length < 2 ^ 64 := by omega
  have hp' : payload'.length < 2 ^ 64 := by omega
  have hparts := Reader.frame_parts payload []
  rw [List.append_nil, h, Reader.frame_parts payload' rest] at hparts
  have hrest := List.append_cancel_left (List.append_cancel_left hparts)
  have h64 : (Writer.u64 (.ofNat payload'.length)).length =
      (Writer.u64 (.ofNat payload.length)).length := by
    rw [Writer.length_u64, Writer.length_u64]
  have hlen := congrArg UInt64.toNat (Reader.writer_u64_inj (List.append_inj_left hrest h64))
  rw [Reader.toNat_length hp, Reader.toNat_length hp'] at hlen
  have hbody := List.append_inj_left (List.append_inj_right hrest h64) hlen
  exact ⟨hbody.symm, List.length_eq_zero_iff.mp (by omega)⟩

/-- **An accepted record is the encoding of what it is decoded to exactly when it is
canonical.**  A record is a vector of bytes, so its length is a `size_t`. -/
theorem canonical_iff {order : EvalOrder} {data : List UInt8} {w : Workload}
    (hsize : data.length < 2 ^ 64) (h : decodeWorkload order data = some (.allow, w)) :
    encodeWorkload w = data ↔ Canonical order data := by
  obtain ⟨payload, rest, hframe, hdata, hw⟩ := accepted_cases h
  have hiff := (Reader.exact_workload order).eq_iff hw
  constructor
  · intro he
    rw [hdata] at he hsize
    obtain ⟨hpayload, rfl⟩ := frame_eq_append hsize he
    exact ⟨payload, hframe, hiff.mp hpayload⟩
  · rintro ⟨payload', hframe', hlayout⟩
    obtain ⟨rfl, rfl⟩ : payload = payload' ∧ rest = [] := by
      rw [hframe] at hframe'
      exact Prod.mk.inj (Except.ok.inj hframe')
    rw [hdata, List.append_nil, encodeWorkload, Workload.encode, hiff.mpr hlayout]

/-- Bytes behind the checksum are never looked at. -/
theorem decodeWorkload_frame_append (order : EvalOrder) {payload rest : List UInt8}
    (hsize : (Writer.frame payload ++ rest).length < 2 ^ 64) :
    decodeWorkload order (Writer.frame payload ++ rest) =
      decodeWorkload order (Writer.frame payload) := by
  have hsize' : (Writer.frame payload ++ []).length < 2 ^ 64 := by
    rw [List.length_append] at hsize
    rw [List.append_nil]
    omega
  have hframe := (Reader.reads_frame payload [] hsize').1 trivial
  rw [List.append_nil] at hframe
  rw [decodeWorkload, decodeWorkload, (Reader.reads_frame payload rest hsize).1 trivial, hframe]
  rfl

/-- A workload whose record is read back. -/
theorem decode_created : decodeWorkload .leftToRight
    (encodeWorkload (Workload.create (.fromU64 1) (text "w") (text "job"))) =
      some (.allow, Workload.create (.fromU64 1) (text "w") (text "job")) := by
  refine (decode_encode .leftToRight ?_ rfl (by decide +kernel)).1 ?_
  · exact ⟨by decide, by decide, by decide, by decide, by decide, by decide⟩
  · exact ⟨⟨fun _ hr => absurd hr List.not_mem_nil, fun _ hb => absurd hb List.not_mem_nil⟩,
      by decide, by decide, by decide⟩

/-- Its record is canonical. -/
theorem canonical_created : Canonical .leftToRight
    (encodeWorkload (Workload.create (.fromU64 1) (text "w") (text "job"))) :=
  (canonical_iff (by decide +kernel) decode_created).mp rfl

/-- One byte more, and the record is accepted as before. -/
theorem trailing_byte_accepted :
    ¬∀ (data : List UInt8) (w : Workload),
      decodeWorkload .leftToRight data = some (.allow, w) → encodeWorkload w = data := by
  intro h
  set w := Workload.create (.fromU64 1) (text "w") (text "job")
  have hlonger : decodeWorkload .leftToRight (encodeWorkload w ++ [0]) = some (.allow, w) :=
    (decodeWorkload_frame_append .leftToRight (by decide +kernel)).trans decode_created
  have hlength := congrArg List.length (h (encodeWorkload w ++ [0]) w hlonger)
  rw [List.length_append] at hlength
  exact absurd hlength (by simp)

end WorkloadFabric
