/-
Frames that go over a connection which breaks.

What one side writes reaches the other up to some byte, in chunks of any size; the other side
receives frames until a call fails.  A frame that was cut off is not received
(`receiveFrame_cut`), so the frames that are received are the first ones, as many as were whole
(`Wire.carry_eq`).  The break is seen by the side that reads: what is sent into a broken connection
is taken by the network all the same and is lost there.

* **`links_over_wires`** — what is read from a worker behind its HELLO, over two connections
  that may break anywhere, is what is on the way from it in the coordinator's model after some
  loss; and each loss of the model is brought about by connections that break.
-/
import WorkloadFabric.Coordinator

namespace WorkloadFabric

/-! ### A frame that is cut off -/

/-- A part of a frame is not received, whatever the network does. -/
theorem receiveFrame_cut (net : Receiver) (timeoutMs : ℤ) {frame : Frame}
    (hframe : frame.length ≤ kMaxFrameSize) {n : ℕ} (hn : n < (encodeFrame frame).length) :
    (receiveFrame net timeoutMs ((encodeFrame frame).take n)).1 = none := by
  rw [length_encodeFrame] at hn
  have hlen : (header (.ofNat frame.length)).length = 4 := rfl
  have hempty : ([] : List UInt8).length ≤ 4 := Nat.zero_le 4
  obtain ⟨j, hj, hqueue, hbytes⟩ := readExact_takes net timeoutMs 0 ((encodeFrame frame).take n)
    hempty
  rw [receiveFrame]
  rcases hheader : readExact net timeoutMs 4 0 [] ((encodeFrame frame).take n) with
    ⟨_ | hdr, k, queue⟩
  · rfl
  rw [hheader] at hqueue hbytes
  obtain ⟨hhdr, hfour⟩ := hbytes hdr rfl
  rw [List.nil_append] at hhdr
  have hsizes := congrArg List.length hhdr
  rw [hfour, List.length_take, List.length_take, length_encodeFrame] at hsizes
  have hj4 : j = 4 := by
    rw [List.length_nil] at hj
    omega
  -- the header is whole, and announces more than there is
  have hheader4 : hdr = header (.ofNat frame.length) := by
    rw [hhdr, hj4, List.take_take, Nat.min_eq_left (by omega), encodeFrame, List.take_left' hlen]
  have hrest : queue.length < frame.length := by
    have hq := congrArg List.length hqueue
    rw [List.length_drop, List.length_take, length_encodeFrame] at hq
    dsimp only at hq
    omega
  dsimp only
  rw [hheader4, announced_header, toNat_frameLength hframe, if_neg (Nat.not_lt.mpr hframe)]
  have hne : frame ≠ [] := by
    rintro rfl
    exact Nat.not_lt_zero _ hrest
  rw [if_pos ((length_ne_zero_iff hframe).mpr hne)]
  rcases hbody : readExact net timeoutMs frame.length k [] queue with ⟨_ | out, k', queue'⟩
  · rfl
  · obtain ⟨hout, hle⟩ := (readExact_balance hbody).2 out rfl
    omega

/-! ### Calls until one fails -/

/-- The frames that are received one after the other, until a call fails. -/
def receiveUntil : List ReceiveCall → List UInt8 → List Frame
  | [], _ => []
  | c :: calls, queue =>
    match receiveFrame c.net c.timeoutMs queue with
    | (none, _) => []
    | (some frame, queue) => frame :: receiveUntil calls queue

/-- A call that nothing stops but the end of the stream. -/
structure Patient (c : ReceiveCall) : Prop where
  passes : ∀ k, Passes c.net c.timeoutMs k
  fails : ∀ k, c.net.fails k = false

/-- **The frames that are whole are received**, and then the calls fail. -/
theorem receiveUntil_eq {calls : List ReceiveCall} (h : ∀ c ∈ calls, Patient c)
    {frames : List Frame} (hframes : ∀ f ∈ frames, f.length ≤ kMaxFrameSize) (n : ℕ) :
    receiveUntil calls ((stream frames).take n) =
      (leading (fun f => (encodeFrame f).length) n frames).take calls.length := by
  induction calls generalizing frames n with
  | nil => rw [receiveUntil, List.length_nil, List.take_zero]
  | cons c calls ih =>
    obtain ⟨hc, hcalls⟩ := List.forall_mem_cons.mp h
    cases frames with
    | nil =>
      rw [stream, List.flatMap_nil, List.take_nil, receiveUntil, receiveFrame_nil, leading,
        List.take_nil]
    | cons frame frames =>
      obtain ⟨hframe, hrest⟩ := List.forall_mem_cons.mp hframes
      rw [stream_cons, receiveUntil, leading]
      by_cases hwhole : (encodeFrame frame).length ≤ n
      · rw [if_pos hwhole, List.take_append, List.take_of_length_le hwhole,
          receiveFrame_of_outlasts hc.fails hframe fun k _ => hc.passes k]
        dsimp only
        rw [ih hcalls hrest, List.length_cons, List.take_succ_cons]
      · have hlt := Nat.lt_of_not_ge hwhole
        have hnone := receiveFrame_cut c.net c.timeoutMs hframe hlt
        rw [if_neg hwhole, List.take_append_of_le_length hlt.le, List.take_nil]
        rcases hr : receiveFrame c.net c.timeoutMs ((encodeFrame frame).take n) with ⟨_ | f, queue⟩
        · rfl
        · rw [hr] at hnone
          cases hnone

/-! ### One direction of a connection -/

/-- How the frames are sent and received, and the byte behind which the connection breaks. -/
structure Wire where
  sending : ℕ → Network
  receiving : ℕ → ReceiveCall
  bytes : ℕ
  /-- no `send` fails, not even behind the break -/
  sends : ∀ k i, (sending k).fails i = false
  receives : ∀ k, Patient (receiving k)

namespace Wire

/-- What arrives of these frames. -/
def carry (wire : Wire) (frames : List Frame) : List Frame :=
  receiveUntil ((List.range (frames.length + 1)).map wire.receiving)
    ((sendFrames (frames.mapIdx fun k f => (wire.sending k, f)) []).2.take wire.bytes)

/-- **What arrives are the frames that are whole.** -/
theorem carry_eq (wire : Wire) {frames : List Frame}
    (h : ∀ f ∈ frames, f.length ≤ kMaxFrameSize) :
    wire.carry frames = leading (fun f => (encodeFrame f).length) wire.bytes frames := by
  have hsends : ∀ s ∈ frames.mapIdx fun k f => (wire.sending k, f),
      (∀ k, s.1.fails k = false) ∧ s.2.length ≤ kMaxFrameSize := by
    intro s hs
    obtain ⟨k, hk, rfl⟩ := List.mem_mapIdx.mp hs
    exact ⟨wire.sends k, h _ (List.getElem_mem hk)⟩
  have hcalls : ∀ c ∈ (List.range (frames.length + 1)).map wire.receiving, Patient c := by
    intro c hc
    obtain ⟨k, -, rfl⟩ := List.mem_map.mp hc
    exact wire.receives k
  have hframes : (frames.mapIdx fun k f => (wire.sending k, f)).map Prod.snd = frames :=
    List.ext_getElem? fun k => by simp
  rw [carry, sendFrames_eq hsends, hframes, List.nil_append, receiveUntil_eq hcalls h,
    List.length_map, List.length_range, List.take_of_length_le]
  obtain ⟨d, hd⟩ := leading_eq_take (fun f => (encodeFrame f).length) wire.bytes frames
  rw [hd, List.length_take]
  omega

theorem carry_eq_take (wire : Wire) {frames : List Frame}
    (h : ∀ f ∈ frames, f.length ≤ kMaxFrameSize) : ∃ d, wire.carry frames = frames.take d := by
  rw [wire.carry_eq h]
  exact leading_eq_take _ _ _

/-- A connection byte by byte. -/
def bytewise (bytes : ℕ) : Wire where
  sending _ := { Chunking.atMost 1 Nat.one_pos with fails := fun _ => false }
  receiving _ := ⟨-1, { Chunking.atMost 1 Nat.one_pos with
    fails := fun _ => false, poll := fun _ => .ready }⟩
  bytes := bytes
  sends _ _ := rfl
  receives _ := ⟨fun _ => .inr rfl, fun _ => rfl⟩

/-- There is a connection that breaks behind any frame. -/
theorem exists_carry_eq_take {frames : List Frame} (h : ∀ f ∈ frames, f.length ≤ kMaxFrameSize)
    (d : ℕ) : ∃ wire : Wire, wire.carry frames = frames.take d := by
  refine ⟨bytewise ((frames.take d).map fun f => (encodeFrame f).length).sum, ?_⟩
  rw [carry_eq _ h]
  refine leading_sum (fun f _ => ?_) d
  rw [length_encodeFrame]
  exact Nat.lt_of_lt_of_le (by decide) (Nat.le_add_right 4 _)

end Wire

/-! ### What a worker sends -/

/-- All frames that were sent are within the limit of the transport. -/
def Session.Fits (s : Session) : Prop := ∀ f ∈ s.sent, f.length ≤ kMaxFrameSize

namespace Worker

variable (wk : Worker)

theorem length_short {m : Message} (h : m.payload.length + m.extra.length ≤ 20) :
    (encodeMessage m).length ≤ kMaxFrameSize := by
  have hmax : kMaxFrameSize = 2 ^ 20 := rfl
  rw [length_encodeMessage]
  omega

theorem length_answer (m : Message) (d : ParsedDescriptor) :
    ∀ f ∈ wk.answer m d, f.length ≤ kMaxFrameSize := by
  intro f hf
  rcases List.mem_append.mp hf with hf | hf
  · obtain ⟨n, -, rfl⟩ := List.mem_map.mp hf
    exact length_short (Nat.zero_le 20)
  · rw [List.mem_singleton.mp hf]
    exact length_short (length_decimal _)

theorem fits_advance {s : Session} (h : s.Fits) {frames : List Frame}
    (hframes : ∀ f ∈ frames, f.length ≤ kMaxFrameSize) (segments : List (UInt64 × UInt64)) :
    (s.advance frames segments).Fits := by
  intro f hf
  rcases List.mem_append.mp hf with hf | hf
  · exact h f hf
  · exact hframes f hf

theorem fits_serve (frames : List Frame) {s : Session} (hs : ∀ n, s.accepts n) (h : s.Fits) :
    (wk.serve frames s).session.Fits := by
  induction frames generalizing s with
  | nil => exact h
  | cons f frames ih =>
    rw [serve]
    split
    · exact ih hs h
    · exact h
    · next m _ =>
      split
      · exact h
      · rw [Session.sendFrame_of_accepts hs]
        refine ih hs (fits_advance h (fun f hf => ?_) [])
        rw [List.mem_singleton.mp hf]
        exact length_short (Nat.zero_le 20)
      · exact h
      · rcases hd : m.descriptor.parse with d | d
        · rw [dispatch, hd]
          exact h
        · rw [dispatch_eq hd hs]
          exact ih hs (fits_advance h (wk.length_answer m d) _)
      · exact ih hs h

/-- **A worker sends nothing that the transport refuses.** -/
theorem fits_runWorker (frames : List Frame) :
    (wk.runWorker frames fun _ => true).session.Fits := by
  have hello : (wk.announced fun _ => true).Fits := by
    intro f hf
    rw [List.mem_singleton.mp hf]
    exact length_short (Nat.zero_le 20)
  rw [runWorker, sendFrame_hello wk rfl]
  dsimp only
  rw [if_pos rfl]
  rcases frames with _ | ⟨ack, frames⟩
  · exact hello
  · dsimp only
    rcases decodeMessage ack with e | m
    · exact hello
    · exact wk.fits_serve frames (fun _ => rfl) hello

/-- The frames of `output`. -/
theorem map_fst_output (frames : List Frame) :
    (wk.output frames).map Prod.fst = (wk.runWorker frames fun _ => true).session.sent := by
  rw [output]
  exact List.map_fst_zip (by rw [length_cut, List.length_map])

end Worker

/-! ### Links over wires -/

namespace Assignment

variable (a : Assignment)

/-- What the coordinator sends to the worker. -/
def told (reg : Message) (total : UInt64) (w : Workload) : List Frame :=
  encodeMessage reg :: (sendMsg (a.message total w)).toList

/-- What it reads, if the worker is told over `down` and answers over `up`. -/
def readOver (down up : Wire) (reg : Message) (total : UInt64) (w : Workload) : List Frame :=
  up.carry (a.worker.runWorker (down.carry (a.told reg total w)) fun _ => true).session.sent

theorem length_told (reg : Message) (hreg : (encodeMessage reg).length ≤ kMaxFrameSize)
    (total : UInt64) (w : Workload) : ∀ f ∈ a.told reg total w, f.length ≤ kMaxFrameSize := by
  intro f hf
  rcases List.mem_cons.mp hf with rfl | hf
  · exact hreg
  · rw [sendMsg] at hf
    split at hf
    · cases hf
    · next hle =>
      rw [List.mem_singleton.mp hf]
      exact Nat.le_of_not_lt hle

/-- A worker that does not hear everything says HELLO and nothing else. -/
theorem sent_take_told {reg : Message} (hreg : decodeMessage (encodeMessage reg) = .ok reg)
    (total : UInt64) (w : Workload) (d : ℕ) :
    (a.told reg total w).take d = a.told reg total w ∨
      (a.worker.runWorker ((a.told reg total w).take d) fun _ => true).session.sent.tail = [] := by
  have hack : (a.worker.runWorker [encodeMessage reg] fun _ => true).session.sent.tail = [] := by
    rw [Worker.runWorker_cons hreg rfl]
    rfl
  rcases d with _ | _ | d
  · right
    rw [List.take_zero, Worker.runWorker, a.worker.sendFrame_hello rfl]
    rfl
  · right
    rw [told, List.take_succ_cons, List.take_zero]
    exact hack
  · left
    rw [told, List.take_succ_cons, List.take_of_length_le]
    rcases sendMsg (a.message total w) with _ | f
    · exact Nat.zero_le _
    · exact Nat.succ_le_succ (Nat.zero_le d)

/-- **Links are connections that break.**  What is read from a worker behind its HELLO is the
inbox of its link after a loss, wherever the connections to it and from it break; and every loss
comes of connections that break somewhere. -/
theorem links_over_wires (total : UInt64) (w : Workload) :
    let reg : Message :=
      { type := .register, workerId := a.worker.workerId.toU64, bootId := a.worker.bootId.toU64 }
    (∀ down up : Wire, ∃ arriving, (a.readOver down up reg total w).tail =
      (((a.link reg total w).lose arriving).inbox).map Prod.fst) ∧
    ∀ arriving, ∃ down up : Wire, (a.readOver down up reg total w).tail =
      (((a.link reg total w).lose arriving).inbox).map Prod.fst := by
  intro reg
  have tail_take {α : Type} (l : List α) (n : ℕ) : (l.take n).tail = l.tail.take (n - 1) := by
    rw [← List.drop_one, List.drop_take, List.drop_one]
  have hreg : decodeMessage (encodeMessage reg) = .ok reg := decodeMessage_short (Nat.zero_le _)
  have htold := a.length_told reg (Worker.length_short (Nat.zero_le 20)) total w
  have hinbox (arriving : ℕ) : (((a.link reg total w).lose arriving).inbox).map Prod.fst =
      (a.worker.runWorker (a.told reg total w) fun _ => true).session.sent.tail.take
        arriving := by
    rw [Link.lose, link]
    dsimp only
    rw [List.map_take, List.map_tail, Worker.map_fst_output]
    rfl
  constructor
  · intro down up
    obtain ⟨d, hd⟩ := down.carry_eq_take htold
    rw [readOver, hd]
    obtain ⟨e, he⟩ := up.carry_eq_take
      (a.worker.fits_runWorker ((a.told reg total w).take d))
    rw [he]
    rcases a.sent_take_told hreg total w d with hall | hnothing
    · refine ⟨e - 1, ?_⟩
      rw [hall, hinbox, tail_take]
    · refine ⟨0, ?_⟩
      rw [hinbox, List.take_zero, tail_take, hnothing, List.take_nil]
  · intro arriving
    obtain ⟨down, hdown⟩ := Wire.exists_carry_eq_take htold (a.told reg total w).length
    rw [List.take_length] at hdown
    obtain ⟨up, hup⟩ := Wire.exists_carry_eq_take
      (a.worker.fits_runWorker (a.told reg total w)) (arriving + 1)
    refine ⟨down, up, ?_⟩
    rw [readOver, hdown, hup, hinbox, tail_take]
    rfl

end Assignment

end WorkloadFabric
