/-
A corrupted or truncated record is never accepted.

  - The payload format is prefix-free: no proper prefix of an encoded payload
    decodes (`decode_prefix_rejected`), which answers a length field that was made
    smaller;
  - a frame reader is stable, as all that check what they look up, which answers truncation
    (`decodeWorkload_take_rejected`);
  - one changed byte is caught by the field it lies in, or by the checksum
    (`decodeWorkload_set_rejected`).
-/
import WorkloadFabric.RoundTrip

namespace WorkloadFabric

open Decoder

namespace Reader

/-! ### Every reader checks what it looks up -/

section Checked

variable {P : DecodeError → Prop}

instance {tag : IdTag} : CheckedReader P (ident : Reader (UniqueValue tag)) := by
  rw [ident]
  infer_instance

instance : CheckedReader P policy := by
  rw [policy]
  infer_instance

instance : CheckedReader P requirement := by
  rw [requirement]
  infer_instance

instance : CheckedReader P binding := by
  rw [binding]
  infer_instance

instance : CheckedReader P grant := by
  rw [grant]
  infer_instance

instance (order : EvalOrder) {α β : Type} (x : Reader α) (y : Reader β) [CheckedReader P x]
    [CheckedReader P y] : CheckedReader P (order.args x y) := by
  cases order
  · rw [EvalOrder.args]
    infer_instance
  · rw [EvalOrder.args]
    infer_instance

instance (order : EvalOrder) : CheckedReader P (contract order) := by
  rw [contract]
  infer_instance

instance : CheckedReader P dependencyDef := by
  rw [dependencyDef]
  infer_instance

instance : CheckedReader P dependencyState := by
  rw [dependencyState]
  infer_instance

instance : CheckedReader P priority := by
  rw [priority]
  infer_instance

instance : CheckedReader P progress := by
  rw [progress]
  infer_instance

instance : CheckedReader P handle := by
  rw [handle]
  infer_instance

instance : CheckedReader P episode := by
  rw [episode]
  infer_instance

instance : CheckedReader P transitionRecord := by
  rw [transitionRecord]
  infer_instance

instance (len : UInt64) : CheckedReader P (frameBody len) := by
  rw [frameBody]
  have hstop : DecodeError.Rejects (.returned .rejectUnknown) := rfl
  have : CheckedReader P (need len.toNat (.returned .rejectUnknown)) := .need hstop len.toNat
  infer_instance

instance : CheckedReader P frame := by
  rw [frame]
  infer_instance

end Checked

/-- Only a state without a definition ends the process. -/
instance (i n : ℕ) (states : List DependencyState) :
    CheckedReader (· = .terminated) (dependencyStates i n states) := by
  induction n generalizing i states with
  | zero => exact inferInstanceAs (CheckedReader _ (pure states))
  | succ n ih =>
    rw [dependencyStates]
    have : CheckedReader (· = .terminated) (fail .terminated : Reader (List DependencyState)) :=
      .fail (.inr rfl)
    infer_instance

instance (order : EvalOrder) : CheckedReader (· = .terminated) (dependencies order) := by
  rw [dependencies]
  infer_instance

instance checked_workload (order : EvalOrder) :
    CheckedReader (· = .terminated) (workload order) := by
  rw [workload]
  infer_instance

theorem stable_workload (order : EvalOrder) : StableReader (workload order) :=
  (checked_workload order).stable

theorem stable_frame : StableReader frame :=
  have h : CheckedReader (fun _ => False) frame := inferInstance
  h.stable

end Reader

/-! ### Rejection -/

/-- Reading ends early, in a way that is reported as REJECT_UNKNOWN. -/
def Rejected {α : Type} (r : Except DecodeError α) : Prop :=
  ∃ e, DecodeError.Rejects e ∧ r = .error e

theorem rejected_returned {α : Type} :
    Rejected (.error (.returned .rejectUnknown) : Except DecodeError α) :=
  ⟨.returned .rejectUnknown, rfl, rfl⟩

theorem rejected_pastEnd {α : Type} : Rejected (.error Reader.pastEnd : Except DecodeError α) :=
  ⟨Reader.pastEnd, trivial, rfl⟩

/-- An early end of the first reader is one of the whole. -/
theorem Rejected.bind {α β : Type} {m : Reader α} {s : List UInt8} (h : Rejected (m s))
    (f : α → Reader β) : Rejected ((m >>= f) s) := by
  obtain ⟨e, he, hm⟩ := h
  exact ⟨e, he, by rw [bind_apply, hm]⟩

/-- An early end becomes the outcome; the exception of the reader is caught. -/
theorem report_rejected {α : Type} {e : DecodeError} (he : e.Rejects) :
    report (.error e : Except DecodeError (Workload × α)) = some (.rejectUnknown, {}) := by
  cases e with
  | codecError what => rfl
  | returned status =>
    obtain rfl : status = .rejectUnknown := he
    rfl
  | terminated => exact he.elim

theorem decodeWorkload_of_frame_rejected {order : EvalOrder} {data : List UInt8}
    (h : Rejected (Reader.frame data)) : decodeWorkload order data = some (.rejectUnknown, {}) := by
  obtain ⟨e, he, hf⟩ := h
  rw [decodeWorkload, hf]
  exact report_rejected he

theorem decodeWorkload_of_decode_rejected {order : EvalOrder} {data payload rest : List UInt8}
    (hf : Reader.frame data = .ok (payload, rest)) (h : Rejected (Workload.decode order payload)) :
    decodeWorkload order data = some (.rejectUnknown, {}) := by
  obtain ⟨e, he, hd⟩ := h
  rw [decodeWorkload, hf]
  show report (Workload.decode order payload) = _
  rw [hd]
  exact report_rejected he

/-! ### The payload is prefix-free -/

section Payload

variable {w : Workload} (hw : w.SizesFit) (hd : w.deps.states.length = w.deps.defs.length)
  (hsize : w.encode.length < 2 ^ 64)
include hw hd hsize

/-- **No proper prefix of a payload decodes.** -/
theorem decode_prefix_rejected (order : EvalOrder) {n : ℕ} (hn : n < w.encode.length) :
    Rejected (Workload.decode order (w.encode.take n)) := by
  have hdrop : w.encode.drop n ≠ [] := fun h => hn.not_ge (List.drop_eq_nil_iff.mp h)
  have hrej : Rejected (Reader.workload order (w.encode.take n)) :=
    haveI := Reader.stable_workload order
    (Reader.reads_workload order hw hd).stops_on_part rfl hsize
      (List.take_append_drop n w.encode).symm hdrop
  exact .bind hrej _

end Payload

/-! ### Damaged frames -/

/-- A truncated frame. -/
theorem frame_take_rejected {payload : List UInt8} (hsize : (Writer.frame payload).length < 2 ^ 64)
    {n : ℕ} (hn : n < (Writer.frame payload).length) :
    Rejected (Reader.frame ((Writer.frame payload).take n)) := by
  have hdrop : (Writer.frame payload).drop n ≠ [] := fun h => hn.not_ge (List.drop_eq_nil_iff.mp h)
  have := Reader.stable_frame
  exact (Reader.reads_frame payload).stops_on_part rfl hsize (List.take_append_drop n _).symm hdrop

/-- Fewer than eight bytes are no word. -/
theorem u64_rejected {s : List UInt8} (h : s.length < 8) : Rejected (Reader.u64 s) := by
  have hn : (need 8 Reader.pastEnd : Reader Unit) s = .error Reader.pastEnd := if_pos h
  exact .bind (by rw [hn]; exact rejected_pastEnd) _

/-- A body whose length field was raised. -/
theorem frameBody_long_rejected {payload : List UInt8} {len : UInt64}
    (h : payload.length < len.toNat) (stored : UInt64) :
    Rejected (Reader.frameBody len (payload ++ Writer.u64 stored)) := by
  set s := payload ++ Writer.u64 stored with hs
  have hlen : s.length = payload.length + 8 := by rw [hs, List.length_append, Writer.length_u64]
  by_cases hn : s.length < len.toNat
  · have hneed : (need len.toNat (.returned .rejectUnknown) : Reader Unit) s =
        .error (.returned .rejectUnknown) := if_pos hn
    exact .bind (by rw [hneed]; exact rejected_returned) _
  · -- the longer payload is there, but then the checksum is not
    have hraw := Reader.raw_append (s.take len.toNat) (s.drop len.toNat)
    rw [List.take_append_drop, List.length_take_of_le (by omega)] at hraw
    rw [Reader.frameBody, bind_apply, need_of_le (by omega)]
    simp only
    rw [bind_apply, hraw]
    exact .bind (u64_rejected (by rw [List.length_drop]; omega)) _

/-- A body whose length field was lowered: the payload is cut short, and eight
of its bytes are taken for the checksum. -/
theorem frameBody_short {payload : List UInt8} {len : UInt64} (h : len.toNat < payload.length)
    (stored : UInt64) :
    Rejected (Reader.frameBody len (payload ++ Writer.u64 stored)) ∨
      ∃ rest, Reader.frameBody len (payload ++ Writer.u64 stored) =
        .ok (payload.take len.toNat, rest) := by
  set s := payload ++ Writer.u64 stored with hs
  have hlen : s.length = payload.length + 8 := by rw [hs, List.length_append, Writer.length_u64]
  have htake : s.take len.toNat = payload.take len.toNat := by
    rw [hs, List.take_append_of_le_length (by omega)]
  have hraw := Reader.raw_append (s.take len.toNat) (s.drop len.toNat)
  rw [List.take_append_drop, List.length_take_of_le (by omega)] at hraw
  have hword : ((s.drop len.toNat).take 8).length = 8 := by
    rw [List.length_take_of_le (by rw [List.length_drop]; omega)]
  -- whatever eight bytes stand there are read as the checksum
  obtain ⟨v, hv⟩ := Reader.exists_u64 hword
  have hdrop : s.drop len.toNat = Writer.u64 v ++ (s.drop len.toNat).drop 8 := by
    rw [hv, List.take_append_drop]
  rw [Reader.frameBody, bind_apply, need_of_le (by omega)]
  simp only
  rw [bind_apply, hraw]
  simp only
  rw [bind_apply, hdrop, Reader.u64_append, htake]
  simp only
  split
  · exact .inl rejected_returned
  · exact .inr ⟨_, rfl⟩

/-- A changed byte lies in the first part or in the second. -/
theorem set_append_cases {x y : List UInt8} {i : ℕ} {v : UInt8} (hi : i < (x ++ y).length)
    (hv : v ≠ (x ++ y)[i]) :
    (∃ h : i < x.length, v ≠ x[i] ∧ (x ++ y).set i v = x.set i v ++ y) ∨
      ∃ j, ∃ h : j < y.length, v ≠ y[j] ∧ (x ++ y).set i v = x ++ y.set j v := by
  by_cases h : i < x.length
  · rw [List.getElem_append_left h] at hv
    exact .inl ⟨h, hv, List.set_append_left i v h⟩
  · rw [not_lt] at h
    rw [List.getElem_append_right h] at hv
    exact .inr ⟨i - x.length, _, hv, List.set_append_right i v h⟩

theorem set_ne_self {l : List UInt8} {i : ℕ} {v : UInt8} (hi : i < l.length) (hv : v ≠ l[i]) :
    l.set i v ≠ l := by
  intro h
  have hget := congrArg (fun m => m[i]?) h
  simp only [List.getElem?_set_self hi, List.getElem?_eq_getElem hi, Option.some.injEq] at hget
  exact hv hget

/-- A word with a changed byte is another word. -/
theorem set_u32 {w : UInt32} {i : ℕ} {v : UInt8} (hi : i < (Writer.u32 w).length)
    (hv : v ≠ (Writer.u32 w)[i]) : ∃ w', w' ≠ w ∧ (Writer.u32 w).set i v = Writer.u32 w' := by
  have hlen : ((Writer.u32 w).set i v).length = 4 := by rw [List.length_set]; rfl
  obtain ⟨w', hw'⟩ := Reader.exists_u32 hlen
  exact ⟨w', fun h => set_ne_self hi hv (by rw [← hw', h]), hw'.symm⟩

theorem set_u64 {w : UInt64} {i : ℕ} {v : UInt8} (hi : i < (Writer.u64 w).length)
    (hv : v ≠ (Writer.u64 w)[i]) : ∃ w', w' ≠ w ∧ (Writer.u64 w).set i v = Writer.u64 w' := by
  have hlen : ((Writer.u64 w).set i v).length = 8 := by rw [List.length_set]; rfl
  obtain ⟨w', hw'⟩ := Reader.exists_u64 hlen
  exact ⟨w', fun h => set_ne_self hi hv (by rw [← hw', h]), hw'.symm⟩

/-- One changed byte makes a frame rejected, or cuts its payload short. -/
theorem frame_set {payload : List UInt8} (hsize : payload.length < 2 ^ 64) {i : ℕ}
    (hi : i < (Writer.frame payload).length) {v : UInt8} (hv : v ≠ (Writer.frame payload)[i]) :
    Rejected (Reader.frame ((Writer.frame payload).set i v)) ∨
      ∃ n rest, n < payload.length ∧
        Reader.frame ((Writer.frame payload).set i v) = .ok (payload.take n, rest) := by
  have hparts := Reader.frame_parts payload []
  rw [List.append_nil, List.append_nil] at hparts
  revert hi hv
  rw [hparts]
  intro hi hv
  rcases set_append_cases hi hv with ⟨hi, hv, hset⟩ | ⟨i, hi, hv, hset⟩
  · -- the magic
    obtain ⟨magic, hne, hmagic⟩ := set_u32 hi hv
    rw [hset, hmagic, Reader.frame_append, if_pos hne]
    exact .inl rejected_returned
  rw [hset]
  clear hset
  rcases set_append_cases hi hv with ⟨hi, hv, hset⟩ | ⟨i, hi, hv, hset⟩
  · -- the version
    obtain ⟨version, hne, hversion⟩ := set_u32 hi hv
    rw [hset, hversion, Reader.frame_append, if_neg (not_not.mpr rfl), if_pos hne]
    exact .inl rejected_returned
  rw [hset]
  clear hset
  rcases set_append_cases hi hv with ⟨hi, hv, hset⟩ | ⟨i, hi, hv, hset⟩
  · -- the length
    obtain ⟨len, hne, hlen⟩ := set_u64 hi hv
    rw [hset, hlen, Reader.frame_append, if_neg (not_not.mpr rfl), if_neg (not_not.mpr rfl)]
    have hne' : len.toNat ≠ payload.length := fun h =>
      hne (UInt64.toNat_inj.mp (by rw [h, Reader.toNat_length hsize]))
    rcases Nat.lt_or_gt_of_ne hne' with h | h
    · rcases frameBody_short h (fnv1a64 payload) with hrej | ⟨rest, hok⟩
      · exact .inl hrej
      · exact .inr ⟨len.toNat, rest, h, hok⟩
    · exact .inl (frameBody_long_rejected h _)
  rw [hset, Reader.frame_append, if_neg (not_not.mpr rfl), if_neg (not_not.mpr rfl)]
  clear hset
  rcases set_append_cases hi hv with ⟨hi, hv, hset⟩ | ⟨i, hi, hv, hset⟩
  · -- the payload
    have hne := (fnv1a64_set_ne hi hv).symm
    have hlen : (payload.set i v).length < 2 ^ 64 := by rwa [List.length_set]
    have hbody := Reader.frameBody_append hlen (fnv1a64 payload) []
    rw [List.length_set, List.append_nil, if_pos hne] at hbody
    rw [hset, hbody]
    exact .inl rejected_returned
  · -- the checksum
    obtain ⟨stored, hne, hstored⟩ := set_u64 hi hv
    have hbody := Reader.frameBody_append hsize stored []
    rw [List.append_nil, if_pos hne] at hbody
    rw [hset, hstored, hbody]
    exact .inl rejected_returned

/-! ### Records -/

/-- **A corrupted or truncated record is rejected.**  A record is a vector of
bytes, so its length is a `size_t`. -/
theorem decodeWorkload_damaged (order : EvalOrder) {w : Workload} (hw : w.SizesFit)
    (hd : w.deps.states.length = w.deps.defs.length) (hsize : (encodeWorkload w).length < 2 ^ 64) :
    (∀ (i : ℕ) (hi : i < (encodeWorkload w).length) (v : UInt8), v ≠ (encodeWorkload w)[i] →
      decodeWorkload order ((encodeWorkload w).set i v) = some (.rejectUnknown, {})) ∧
    ∀ n < (encodeWorkload w).length,
      decodeWorkload order ((encodeWorkload w).take n) = some (.rejectUnknown, {}) := by
  have hpayload : w.encode.length < 2 ^ 64 := by
    rw [encodeWorkload, Reader.length_frame] at hsize
    omega
  refine ⟨fun i hi v hv => ?_, fun n hn => ?_⟩
  · -- a lowered length field may pass the frame, but then only a prefix of the payload is left
    rcases frame_set hpayload hi hv with hrej | ⟨n, rest, hn, hok⟩
    · exact decodeWorkload_of_frame_rejected hrej
    · exact decodeWorkload_of_decode_rejected hok (decode_prefix_rejected hw hd hpayload order hn)
  · exact decodeWorkload_of_frame_rejected (frame_take_rejected hsize hn)

/-- The record of a fresh workload, cut off behind its version. -/
theorem decodeWorkload_damaged_fresh :
    decodeWorkload .leftToRight
      ((encodeWorkload (Workload.create (.fromU64 1) (text "w") (text "job"))).take 8) =
      some (.rejectUnknown, {}) :=
  (decodeWorkload_damaged .leftToRight
    ⟨by decide, by decide, by decide, by decide, by decide, by decide⟩ rfl
    (by decide +kernel)).2 8 (by decide +kernel)

end WorkloadFabric
