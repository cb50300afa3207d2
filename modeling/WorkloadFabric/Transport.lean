/-
The framed transport: length-prefixed frames over a byte stream.

The stream is a queue of bytes. A send or a receive moves as many of them as the network
pleases, but at least one; where `select` is asked first, it may time out at any call.

* **`framing_lossless`** — frames that are sent are received, however the bytes are chunked,
  and a header that announces too much is refused with nothing behind it read.
* **`timeouts_lose_nothing_iff`** — timeouts lose no frame exactly when none of them strikes
  after a part of a frame was read.
-/
import Mathlib.Data.List.ReduceOption
import WorkloadFabric.Chunking
import WorkloadFabric.Binary

namespace WorkloadFabric

/-! ### The model -/

abbrev Frame := List UInt8

def kMaxFrameSize : ℕ := 2 ^ 20

/-- How the network moves bytes: the `k`-th transfer of a call fails, or moves some of the
bytes that it could. -/
structure Network extends Chunking where
  fails : ℕ → Bool

/-- What `select` says before the `k`-th transfer. -/
inductive Poll where
  | ready
  | timedOut
  | failed
deriving DecidableEq

/-- What a receiving call meets. -/
structure Receiver extends Network where
  poll : ℕ → Poll

/-- `writeAll` of the bytes `p`, from the `k`-th transfer on; `false` where it throws. -/
def writeAll (net : Network) (k : ℕ) (p queue : List UInt8) : Bool × ℕ × List UInt8 :=
  if 0 < p.length then
    if net.fails k then (false, k + 1, queue)
    else
      let r := net.size k p.length
      writeAll net (k + 1) (p.drop r) (queue ++ p.take r)
  else (true, k, queue)
termination_by p.length
decreasing_by
  have := net.size_pos k ‹0 < p.length›
  rw [List.length_drop]
  omega

/-- The four bytes of a length, the highest first. -/
def header (len : UInt32) : List UInt8 :=
  [(len >>> 24).toUInt8, (len >>> 16).toUInt8, (len >>> 8).toUInt8, len.toUInt8]

def sendFrame (net : Network) (frame : Frame) (queue : List UInt8) : Bool × List UInt8 :=
  if kMaxFrameSize < frame.length then (false, queue)
  else
    let len := UInt32.ofNat frame.length
    let (ok, k, queue) := writeAll net 0 (header len) queue
    if ok then
      if len ≠ 0 then
        let (ok, _, queue) := writeAll net k frame queue
        (ok, queue)
      else (true, queue)
    else (false, queue)

/-- `readExact` of `n` bytes, of which these are read; from the `k`-th transfer on. -/
def readExact (net : Receiver) (timeoutMs : ℤ) (n k : ℕ) (got queue : List UInt8) :
    Option (List UInt8) × ℕ × List UInt8 :=
  if got.length < n then
    if 0 ≤ timeoutMs ∧ net.poll k ≠ .ready then (none, k + 1, queue)
    -- nothing to read: the peer has closed
    else if queue = [] ∨ net.fails k then (none, k + 1, queue)
    else
      let r := net.size k (min (n - got.length) queue.length)
      readExact net timeoutMs n (k + 1) (got ++ queue.take r) (queue.drop r)
  else (some got, k, queue)
termination_by n - got.length
decreasing_by
  have hqueue : 0 < queue.length := by
    rw [List.length_pos_iff]
    tauto
  have hpos := net.size_pos k (n := min (n - got.length) queue.length) (by omega)
  rw [List.length_append, List.length_take]
  omega

/-- The length that a header announces. -/
def announced (hdr : List UInt8) : UInt32 :=
  (hdr.getD 0 0).toUInt32 <<< 24 ||| (hdr.getD 1 0).toUInt32 <<< 16 |||
    (hdr.getD 2 0).toUInt32 <<< 8 ||| (hdr.getD 3 0).toUInt32

/-- The frame, where `receiveFrame` returns `true`. -/
def receiveFrame (net : Receiver) (timeoutMs : ℤ) (queue : List UInt8) :
    Option Frame × List UInt8 :=
  match readExact net timeoutMs 4 0 [] queue with
  | (none, _, queue) => (none, queue)
  | (some hdr, k, queue) =>
    let len := announced hdr
    if kMaxFrameSize < len.toNat then (none, queue)
    else if len ≠ 0 then
      match readExact net timeoutMs len.toNat k [] queue with
      | (none, _, queue) => (none, queue)
      | (some out, _, queue) => (some out, queue)
    else (some [], queue)

/-! ### Headers -/

theorem announced_header (len : UInt32) : announced (header len) = len := Reader.u32_reassemble len

/-- A frame as it stands in the stream. -/
def encodeFrame (frame : Frame) : List UInt8 := header (.ofNat frame.length) ++ frame

theorem length_encodeFrame (frame : Frame) : (encodeFrame frame).length = 4 + frame.length :=
  List.length_append

/-- The length of a frame that is not too large fits its header. -/
theorem toNat_frameLength {frame : Frame} (h : frame.length ≤ kMaxFrameSize) :
    (UInt32.ofNat frame.length).toNat = frame.length :=
  UInt32.toNat_ofNat_of_lt' (h.trans_lt (by decide))

theorem length_ne_zero_iff {frame : Frame} (h : frame.length ≤ kMaxFrameSize) :
    UInt32.ofNat frame.length ≠ 0 ↔ frame ≠ [] := by
  rw [← List.length_pos_iff, ne_eq, ← UInt32.toNat_inj, toNat_frameLength h]
  exact Nat.pos_iff_ne_zero.symm

/-! ### Sending -/

/-- Everything is written, in chunks of any size. -/
theorem writeAll_eq {net : Network} (h : ∀ k, net.fails k = false) (k : ℕ) (p queue : List UInt8) :
    ∃ k', writeAll net k p queue = (true, k', queue ++ p) := by
  obtain ⟨n, hn⟩ : ∃ n, p.length = n := ⟨_, rfl⟩
  induction k, n using net.induction generalizing p queue with
  | zero k =>
    obtain rfl := List.eq_nil_of_length_eq_zero hn
    exact ⟨k, by rw [writeAll, if_neg (by decide), List.append_nil]⟩
  | chunk k n hpos ih =>
    obtain ⟨k', hrest⟩ := ih (p.drop (net.size k n)) (queue ++ p.take (net.size k n))
      (by rw [List.length_drop, hn])
    refine ⟨k', ?_⟩
    rw [writeAll, if_pos (hn ▸ hpos), if_neg (by rw [h k]; decide), hn]
    rw [hrest, List.append_assoc, List.take_append_drop]

theorem sendFrame_eq {net : Network} (h : ∀ k, net.fails k = false) {frame : Frame}
    (hframe : frame.length ≤ kMaxFrameSize) (queue : List UInt8) :
    sendFrame net frame queue = (true, queue ++ encodeFrame frame) := by
  obtain ⟨k, hheader⟩ := writeAll_eq h 0 (header (.ofNat frame.length)) queue
  rw [sendFrame, if_neg (Nat.not_lt.mpr hframe)]
  simp only [hheader, if_true]
  by_cases hne : frame = []
  · rw [if_neg fun h => (length_ne_zero_iff hframe).mp h hne, encodeFrame, hne, List.append_nil]
  · obtain ⟨k', hbody⟩ := writeAll_eq h k frame (queue ++ header (.ofNat frame.length))
    rw [if_pos ((length_ne_zero_iff hframe).mpr hne), hbody, List.append_assoc, encodeFrame]

/-! ### Receiving -/

/-- `select` is not asked before the `k`-th transfer, or says that there is something to read. -/
def Passes (net : Receiver) (timeoutMs : ℤ) (k : ℕ) : Prop := timeoutMs < 0 ∨ net.poll k = .ready

/-- The transfers in which `n` bytes are read, from the `k`-th on. -/
def turns (net : Receiver) (k n : ℕ) : ℕ := (net.chunks k n).length

theorem turns_of_pos (net : Receiver) (k : ℕ) {n : ℕ} (hn : 0 < n) :
    turns net k n = turns net (k + 1) (n - net.size k n) + 1 := by
  rw [turns, net.chunks_of_pos k hn, List.length_cons, turns]

/-- One transfer. -/
theorem readExact_step {net : Receiver} (h : ∀ k, net.fails k = false) {timeoutMs : ℤ}
    {n k : ℕ} (hpos : 0 < n) {got queue : List UInt8} (hqueue : n ≤ queue.length)
    (hk : Passes net timeoutMs k) :
    readExact net timeoutMs (got.length + n) k got queue =
      readExact net timeoutMs ((got ++ queue.take (net.size k n)).length + (n - net.size k n))
        (k + 1) (got ++ queue.take (net.size k n)) (queue.drop (net.size k n)) := by
  have hsize := net.size_le k n
  have hpoll : ¬(0 ≤ timeoutMs ∧ net.poll k ≠ .ready) := by
    rcases hk with hk | hk
    · exact fun h => absurd h.1 (not_le.mpr hk)
    · exact fun h => h.2 hk
  have hbytes : ¬(queue = [] ∨ net.fails k = true) := by
    rintro (hnil | hfails)
    · rw [hnil, List.length_nil] at hqueue
      omega
    · rw [h k] at hfails
      cases hfails
  have hlen : (got ++ queue.take (net.size k n)).length + (n - net.size k n) = got.length + n := by
    rw [List.length_append, List.length_take]
    omega
  rw [readExact, if_pos (by omega), if_neg hpoll, if_neg hbytes, hlen, Nat.add_sub_cancel_left,
    Nat.min_eq_left hqueue]

/-- Where `select` never stops it, everything is read. -/
theorem readExact_of_passes {net : Receiver} (h : ∀ k, net.fails k = false) {timeoutMs : ℤ}
    (k n : ℕ) (got queue : List UInt8) (hqueue : n ≤ queue.length)
    (hk : ∀ j < turns net k n, Passes net timeoutMs (k + j)) :
    readExact net timeoutMs (got.length + n) k got queue =
      (some (got ++ queue.take n), k + turns net k n, queue.drop n) := by
  induction k, n using net.induction generalizing got queue with
  | zero k =>
    rw [readExact, if_neg (by omega), turns, net.chunks_zero]
    simp
  | chunk k n hpos ih =>
    have hsize := net.size_le k n
    have hturns := turns_of_pos net k hpos
    have hfirst : Passes net timeoutMs k := hk 0 (by omega)
    have hlater : ∀ j < turns net (k + 1) (n - net.size k n),
        Passes net timeoutMs (k + 1 + j) := fun j hj => by
      rw [Nat.add_assoc, Nat.add_comm 1 j]
      exact hk (j + 1) (by omega)
    rw [readExact_step h hpos hqueue hfirst, ih _ _ (by rw [List.length_drop]; omega) hlater,
      List.append_assoc, ← List.take_add, Nat.add_sub_cancel' hsize, List.drop_drop,
      Nat.add_sub_cancel' hsize, hturns, Nat.add_assoc k 1, Nat.add_comm 1]

/-- Where `select` stops it, what was read is lost; that is nothing if it is stopped at once. -/
theorem readExact_of_not_passes {net : Receiver} (h : ∀ k, net.fails k = false) {timeoutMs : ℤ}
    (k n : ℕ) (got queue : List UInt8) (hqueue : n ≤ queue.length)
    (hk : ¬∀ j < turns net k n, Passes net timeoutMs (k + j)) :
    ∃ k' j, (Passes net timeoutMs k ↔ 0 < j) ∧ j ≤ n ∧
      readExact net timeoutMs (got.length + n) k got queue = (none, k', queue.drop j) := by
  induction k, n using net.induction generalizing got queue with
  | zero k =>
    rw [turns, net.chunks_zero] at hk
    exact (hk fun j hj => absurd hj (Nat.not_lt_zero j)).elim
  | chunk k n hpos ih =>
    have hsize := net.size_le k n
    have hsize_pos := net.size_pos k hpos
    by_cases hfirst : Passes net timeoutMs k
    · have hlater : ¬∀ j < turns net (k + 1) (n - net.size k n),
          Passes net timeoutMs (k + 1 + j) := by
        refine fun hall => hk fun j hj => ?_
        rw [turns_of_pos net k hpos] at hj
        cases j with
        | zero => exact hfirst
        | succ j =>
          rw [Nat.add_comm j 1, ← Nat.add_assoc]
          exact hall j (by omega)
      have hqueue' : n - net.size k n ≤ (queue.drop (net.size k n)).length := by
        rw [List.length_drop]
        omega
      obtain ⟨k', j, -, hj, hrest⟩ := ih (got ++ queue.take (net.size k n)) _ hqueue' hlater
      refine ⟨k', net.size k n + j, iff_of_true hfirst (by omega), by omega, ?_⟩
      rw [readExact_step h hpos hqueue hfirst, hrest, List.drop_drop]
    · refine ⟨k + 1, 0, iff_of_false hfirst (Nat.lt_irrefl 0), Nat.zero_le n, ?_⟩
      rw [Passes, not_or, not_lt] at hfirst
      rw [readExact, if_pos (by omega), if_pos hfirst]
      rfl

/-- Whatever happens, bytes are taken off the front of the queue, as many as are asked for
where they are handed over. -/
theorem readExact_takes (net : Receiver) (timeoutMs : ℤ) {n : ℕ} (k : ℕ) {got : List UInt8}
    (queue : List UInt8) (hgot : got.length ≤ n) :
    ∃ j ≤ n - got.length, (readExact net timeoutMs n k got queue).2.2 = queue.drop j ∧
      ∀ bytes ∈ (readExact net timeoutMs n k got queue).1, bytes = got ++ queue.take j ∧
        bytes.length = n := by
  fun_induction readExact net timeoutMs n k got queue with
  | case1 k got queue hmore hpoll => exact ⟨0, Nat.zero_le _, rfl, by simp⟩
  | case2 k got queue hmore hpoll hnone => exact ⟨0, Nat.zero_le _, rfl, by simp⟩
  | case3 k got queue hmore hpoll hsome r ih =>
    have hr : r ≤ min (n - got.length) queue.length := net.size_le _ _
    have hlen : (got ++ queue.take r).length = got.length + r := by
      rw [List.length_append, List.length_take]
      omega
    obtain ⟨j, hj, hqueue, hbytes⟩ := ih (by omega)
    refine ⟨r + j, by omega, by rw [hqueue, List.drop_drop], fun bytes hmem => ?_⟩
    obtain ⟨heq, hn⟩ := hbytes bytes hmem
    rw [List.append_assoc, ← List.take_add] at heq
    exact ⟨heq, hn⟩
  | case4 k got queue hdone =>
    refine ⟨0, Nat.zero_le _, rfl, ?_⟩
    rintro bytes ⟨⟩
    exact ⟨(List.append_nil _).symm, by omega⟩

/-! ### Frames -/

/-- The transfers in which a frame is read. -/
def frameTurns (net : Receiver) (frame : Frame) : ℕ :=
  turns net 0 4 + turns net (turns net 0 4) frame.length

/-- `select` does not stop the call before the frame is read. -/
def Outlasts (net : Receiver) (timeoutMs : ℤ) (frame : Frame) : Prop :=
  ∀ k < frameTurns net frame, Passes net timeoutMs k

/-- A header in front of anything, where `select` does not stop the call. -/
theorem readExact_header {net : Receiver} (h : ∀ k, net.fails k = false) {timeoutMs : ℤ}
    (hk : ∀ k < turns net 0 4, Passes net timeoutMs k) (len : UInt32) (rest : List UInt8) :
    readExact net timeoutMs 4 0 [] (header len ++ rest) =
      (some (header len), turns net 0 4, rest) := by
  have hlen : (header len).length = 4 := rfl
  have hqueue : 4 ≤ (header len ++ rest).length := by
    rw [List.length_append, hlen]
    exact Nat.le_add_right 4 _
  have hread := readExact_of_passes h 0 4 [] _ hqueue (by simpa using hk)
  rwa [List.nil_append, List.take_left' hlen, List.drop_left' hlen, Nat.zero_add] at hread

/-- The bytes of a frame behind its header, where `select` does not stop the call. -/
theorem readExact_frame {net : Receiver} (h : ∀ k, net.fails k = false) {timeoutMs : ℤ} {k : ℕ}
    {frame : Frame} (hk : ∀ j < turns net k frame.length, Passes net timeoutMs (k + j))
    (rest : List UInt8) :
    readExact net timeoutMs frame.length k [] (frame ++ rest) =
      (some frame, k + turns net k frame.length, rest) := by
  have hqueue : frame.length ≤ (frame ++ rest).length := by
    rw [List.length_append]
    exact Nat.le_add_right _ _
  have hread := readExact_of_passes h k frame.length [] _ hqueue hk
  rwa [List.nil_append, List.take_left, List.drop_left, List.length_nil, Nat.zero_add] at hread

theorem receiveFrame_of_outlasts {net : Receiver} (h : ∀ k, net.fails k = false) {timeoutMs : ℤ}
    {frame : Frame} (hframe : frame.length ≤ kMaxFrameSize) (hk : Outlasts net timeoutMs frame)
    (rest : List UInt8) :
    receiveFrame net timeoutMs (encodeFrame frame ++ rest) = (some frame, rest) := by
  rw [receiveFrame, encodeFrame, List.append_assoc,
    readExact_header h fun k hlt => hk k (hlt.trans_le (Nat.le_add_right _ _))]
  simp only [announced_header]
  rw [toNat_frameLength hframe, if_neg (Nat.not_lt.mpr hframe)]
  by_cases hne : frame = []
  · rw [if_neg fun h => (length_ne_zero_iff hframe).mp h hne, hne, List.nil_append]
  · rw [if_pos ((length_ne_zero_iff hframe).mpr hne),
      readExact_frame h fun j hj => hk _ (Nat.add_lt_add_left hj _)]

/-- A call that does not outlast its frame fails, with bytes taken unless the first `select`
stops it. -/
theorem receiveFrame_of_not_outlasts {net : Receiver} (h : ∀ k, net.fails k = false)
    {timeoutMs : ℤ} {frame : Frame} (hframe : frame.length ≤ kMaxFrameSize)
    (hk : ¬Outlasts net timeoutMs frame) (rest : List UInt8) :
    ∃ j, (Passes net timeoutMs 0 ↔ 0 < j) ∧ j ≤ (encodeFrame frame).length ∧
      receiveFrame net timeoutMs (encodeFrame frame ++ rest) =
        (none, (encodeFrame frame ++ rest).drop j) := by
  have hlen : (header (.ofNat frame.length)).length = 4 := rfl
  rw [length_encodeFrame]
  by_cases hheader : ∀ k < turns net 0 4, Passes net timeoutMs k
  · -- the call is stopped behind the header
    have hfirst : Passes net timeoutMs 0 :=
      hheader 0 (by rw [turns_of_pos net 0 (by decide)]; exact Nat.succ_pos _)
    have hbody : ¬∀ j < turns net (turns net 0 4) frame.length,
        Passes net timeoutMs (turns net 0 4 + j) := by
      refine fun hall => hk fun k hlt => ?_
      rcases Nat.lt_or_ge k (turns net 0 4) with hlow | hhigh
      · exact hheader k hlow
      · rw [← Nat.add_sub_cancel' hhigh]
        exact hall _ (by rw [frameTurns] at hlt; omega)
    have hne : frame ≠ [] := by
      rintro rfl
      rw [List.length_nil, turns, net.chunks_zero] at hbody
      exact hbody fun j hj => absurd hj (Nat.not_lt_zero j)
    obtain ⟨k', j, -, hj, hread⟩ := readExact_of_not_passes h (turns net 0 4) frame.length []
      (frame ++ rest) (by rw [List.length_append]; exact Nat.le_add_right _ _) hbody
    rw [List.length_nil, Nat.zero_add] at hread
    refine ⟨4 + j, iff_of_true hfirst (by omega), by omega, ?_⟩
    rw [receiveFrame, encodeFrame, List.append_assoc, readExact_header h hheader]
    simp only [announced_header]
    rw [toNat_frameLength hframe, if_neg (Nat.not_lt.mpr hframe),
      if_pos ((length_ne_zero_iff hframe).mpr hne), hread, ← List.drop_drop, List.drop_left' hlen]
  · -- the call is stopped in the header
    have hqueue : 4 ≤ (encodeFrame frame ++ rest).length := by
      rw [List.length_append, length_encodeFrame, Nat.add_assoc]
      exact Nat.le_add_right 4 _
    obtain ⟨k', j, hfirst, hj, hread⟩ := readExact_of_not_passes h 0 4 [] _ hqueue
      (by simpa using hheader)
    rw [List.length_nil, Nat.zero_add] at hread
    exact ⟨j, hfirst, by omega, by rw [receiveFrame, hread]⟩

/-- Bytes that are handed over came off the queue. -/
theorem readExact_balance {net : Receiver} {timeoutMs : ℤ} {n k k' : ℕ} {queue queue' : List UInt8}
    {r : Option (List UInt8)} (h : readExact net timeoutMs n k [] queue = (r, k', queue')) :
    queue'.length ≤ queue.length ∧
      ∀ bytes ∈ r, bytes.length = n ∧ bytes.length + queue'.length ≤ queue.length := by
  have hgot : ([] : List UInt8).length ≤ n := Nat.zero_le n
  obtain ⟨j, -, hqueue, hbytes⟩ := readExact_takes net timeoutMs k queue hgot
  rw [h] at hqueue hbytes
  obtain rfl := hqueue
  rw [List.length_drop]
  refine ⟨Nat.sub_le _ _, fun bytes hmem => ?_⟩
  obtain ⟨heq, hn⟩ := hbytes bytes hmem
  have hlen := congrArg List.length heq
  rw [List.nil_append, List.length_take] at hlen
  exact ⟨hn, by omega⟩

/-- A call takes no fewer bytes than the frame that it hands over. -/
theorem receiveFrame_balance (net : Receiver) (timeoutMs : ℤ) (queue : List UInt8) :
    ((receiveFrame net timeoutMs queue).1.elim 0 fun frame => (encodeFrame frame).length) +
      (receiveFrame net timeoutMs queue).2.length ≤ queue.length := by
  rw [receiveFrame]
  rcases hheader : readExact net timeoutMs 4 0 [] queue with ⟨_ | hdr, k, q⟩
  · exact (Nat.zero_add _).trans_le (readExact_balance hheader).1
  · obtain ⟨hq, hbytes⟩ := readExact_balance hheader
    obtain ⟨hfour, hle⟩ := hbytes hdr rfl
    dsimp only
    split
    · exact (Nat.zero_add _).trans_le hq
    · split
      · rcases hbody : readExact net timeoutMs (announced hdr).toNat k [] q with ⟨_ | out, k', q'⟩
        · exact (Nat.zero_add _).trans_le ((readExact_balance hbody).1.trans hq)
        · obtain ⟨-, hout⟩ := (readExact_balance hbody).2 out rfl
          rw [Option.elim_some, length_encodeFrame]
          dsimp only
          omega
      · rw [Option.elim_some, length_encodeFrame, List.length_nil]
        dsimp only
        omega

/-! ### Runs -/

/-- One call of `receiveFrame`. -/
structure ReceiveCall where
  timeoutMs : ℤ
  net : Receiver

/-- Frames sent one after the other, each over a network of its own. -/
def sendFrames : List (Network × Frame) → List UInt8 → List Bool × List UInt8
  | [], queue => ([], queue)
  | (net, frame) :: sends, queue =>
    let (ok, queue) := sendFrame net frame queue
    let (oks, queue) := sendFrames sends queue
    (ok :: oks, queue)

/-- Calls made one after the other. -/
def receiveFrames : List ReceiveCall → List UInt8 → List (Option Frame) × List UInt8
  | [], queue => ([], queue)
  | c :: calls, queue =>
    let (r, queue) := receiveFrame c.net c.timeoutMs queue
    let (rs, queue) := receiveFrames calls queue
    (r :: rs, queue)

/-- The stream of these frames. -/
def stream (frames : List Frame) : List UInt8 := frames.flatMap encodeFrame

theorem stream_cons (frame : Frame) (frames : List Frame) :
    stream (frame :: frames) = encodeFrame frame ++ stream frames := List.flatMap_cons

theorem sendFrames_eq {sends : List (Network × Frame)}
    (h : ∀ s ∈ sends, (∀ k, s.1.fails k = false) ∧ s.2.length ≤ kMaxFrameSize)
    (queue : List UInt8) :
    sendFrames sends queue =
      (sends.map fun _ => true, queue ++ stream (sends.map Prod.snd)) := by
  induction sends generalizing queue with
  | nil => rw [sendFrames, List.map_nil, List.map_nil, stream, List.flatMap_nil, List.append_nil]
  | cons s sends ih =>
    obtain ⟨⟨hnet, hframe⟩, hsends⟩ := List.forall_mem_cons.mp h
    rw [sendFrames, sendFrame_eq hnet hframe]
    simp only [ih hsends]
    rw [List.map_cons, List.map_cons, stream_cons, List.append_assoc]

/-- Blocking calls over networks that do not fail. -/
def Blocking (c : ReceiveCall) : Prop := c.timeoutMs < 0 ∧ ∀ k, c.net.fails k = false

theorem outlasts_of_blocking {c : ReceiveCall} (h : Blocking c) (frame : Frame) :
    Outlasts c.net c.timeoutMs frame := fun _ _ => .inl h.1

theorem receiveFrames_blocking {calls : List ReceiveCall} (h : ∀ c ∈ calls, Blocking c)
    {frames : List Frame} (hframes : ∀ f ∈ frames, f.length ≤ kMaxFrameSize)
    (hlen : calls.length = frames.length) (rest : List UInt8) :
    receiveFrames calls (stream frames ++ rest) = (frames.map some, rest) := by
  induction calls generalizing frames with
  | nil =>
    obtain rfl := List.eq_nil_of_length_eq_zero hlen.symm
    rfl
  | cons c calls ih =>
    cases frames with
    | nil => cases hlen
    | cons frame frames =>
      obtain ⟨hc, hcalls⟩ := List.forall_mem_cons.mp h
      obtain ⟨hframe, hframes⟩ := List.forall_mem_cons.mp hframes
      rw [receiveFrames, stream_cons, List.append_assoc,
        receiveFrame_of_outlasts hc.2 hframe (outlasts_of_blocking hc frame)]
      simp only [ih hcalls hframes (Nat.succ.inj hlen)]
      rfl

/-- A header that announces too much is refused: a blocking call reads the header and
nothing else. -/
theorem receiveFrame_oversized {c : ReceiveCall} (h : Blocking c) {len : UInt32}
    (hlen : kMaxFrameSize < len.toNat) (rest : List UInt8) :
    receiveFrame c.net c.timeoutMs (header len ++ rest) = (none, rest) := by
  rw [receiveFrame, readExact_header h.2 fun _ _ => .inl h.1]
  simp only [announced_header]
  rw [if_pos hlen]

/-- **Framing loses nothing**: whatever chunks the bytes are sent and received in, the frames
that are sent are the frames that are received, and they use up the stream; a header that
announces too much is refused before anything behind it is read. -/
theorem framing_lossless :
    (∀ (sends : List (Network × Frame)) (calls : List ReceiveCall),
      (∀ s ∈ sends, (∀ k, s.1.fails k = false) ∧ s.2.length ≤ kMaxFrameSize) →
      (∀ c ∈ calls, Blocking c) → calls.length = sends.length →
      (sendFrames sends []).1 = sends.map (fun _ => true) ∧
      receiveFrames calls (sendFrames sends []).2 = (sends.map (fun s => some s.2), [])) ∧
    ∀ (c : ReceiveCall) (len : UInt32) (rest : List UInt8), Blocking c →
      kMaxFrameSize < len.toNat → receiveFrame c.net c.timeoutMs (header len ++ rest) = (none, rest)
      := by
  refine ⟨fun sends calls hsends hcalls hlen => ?_, fun c len rest hc hlen => ?_⟩
  · rw [sendFrames_eq hsends]
    refine ⟨rfl, ?_⟩
    have hframes : ∀ f ∈ sends.map Prod.snd, f.length ≤ kMaxFrameSize := by
      intro f hf
      obtain ⟨s, hs, rfl⟩ := List.mem_map.mp hf
      exact (hsends s hs).2
    have hall := receiveFrames_blocking hcalls hframes (by rw [hlen, List.length_map]) []
    rwa [List.append_nil, List.map_map] at hall
  · exact receiveFrame_oversized hc hlen rest

/-- Two frames, one of them empty, sent and received byte by byte. -/
theorem framing_lossless_bytewise :
    let bytewise : Chunking := .atMost 1 Nat.one_pos
    let net : Network := { bytewise with fails := fun _ => false }
    let call : ReceiveCall := ⟨-1, { net with poll := fun _ => .ready }⟩
    receiveFrames [call, call] (sendFrames [(net, [7, 8]), (net, [])] []).2 =
      ([some [7, 8], some []], []) := by
  intro bytewise net call
  have hblocking : Blocking call := ⟨by decide, fun _ => rfl⟩
  refine (framing_lossless.1 [(net, [7, 8]), (net, [])] [call, call] ?_ ?_ rfl).2
  · intro s hs
    simp only [List.mem_cons, List.not_mem_nil, or_false] at hs
    rcases hs with rfl | rfl <;> exact ⟨fun _ => rfl, by decide⟩
  · intro c hc
    simp only [List.mem_cons, List.not_mem_nil, or_false, or_self] at hc
    exact hc ▸ hblocking

/-! ### Timeouts -/

/-- Calls with a timeout, over networks that do not fail. -/
def Timed (c : ReceiveCall) : Prop := 0 ≤ c.timeoutMs ∧ ∀ k, c.net.fails k = false

/-- Every call is stopped by its first `select`, or not before it has read the frame that is
next in the stream. -/
def Unbroken : List ReceiveCall → List Frame → Prop
  | [], _ => True
  | _ :: _, [] => True
  | c :: calls, frame :: frames =>
    c.net.poll 0 ≠ .ready ∧ Unbroken calls (frame :: frames) ∨
      Outlasts c.net c.timeoutMs frame ∧ Unbroken calls frames

/-- After these calls the frames that they did not hand over are still there: they handed over
the first ones, and blocking calls go on to hand over the others. -/
def Intact (calls : List ReceiveCall) (frames : List Frame) : Prop :=
  ∃ d, (receiveFrames calls (stream frames)).1.reduceOption = frames.take d ∧
    ∀ later : List ReceiveCall, (∀ c ∈ later, Blocking c) → later.length = frames.length - d →
      (receiveFrames later (receiveFrames calls (stream frames)).2).1 = (frames.drop d).map some

theorem passes_iff_of_timed {c : ReceiveCall} (h : Timed c) (k : ℕ) :
    Passes c.net c.timeoutMs k ↔ c.net.poll k = .ready :=
  or_iff_right (not_lt.mpr h.1)

theorem stream_append (frames frames' : List Frame) :
    stream (frames ++ frames') = stream frames ++ stream frames' := List.flatMap_append

theorem receiveFrame_nil (net : Receiver) (timeoutMs : ℤ) :
    receiveFrame net timeoutMs [] = (none, []) := by
  have hnone : readExact net timeoutMs 4 0 [] [] = (none, 1, []) := by
    rw [readExact, if_pos (by decide), if_pos (Or.inl rfl)]
    exact ite_self _
  rw [receiveFrame, hnone]

theorem receiveFrames_nil (calls : List ReceiveCall) :
    receiveFrames calls [] = (calls.map fun _ => none, []) := by
  induction calls with
  | nil => rfl
  | cons c calls ih =>
    rw [receiveFrames, receiveFrame_nil]
    simp only [ih]
    rfl

/-- A call that its first `select` stops leaves the stream alone. -/
theorem receiveFrame_of_stopped {c : ReceiveCall} (hc : Timed c) {frame : Frame}
    (hframe : frame.length ≤ kMaxFrameSize) (hpoll : c.net.poll 0 ≠ .ready) (rest : List UInt8) :
    receiveFrame c.net c.timeoutMs (encodeFrame frame ++ rest) =
      (none, encodeFrame frame ++ rest) := by
  have hstop : ¬Passes c.net c.timeoutMs 0 := fun h => hpoll ((passes_iff_of_timed hc 0).mp h)
  have hturn : 0 < frameTurns c.net frame := by
    rw [frameTurns, turns_of_pos c.net 0 (by decide)]
    omega
  obtain ⟨j, hj, -, hreceive⟩ :=
    receiveFrame_of_not_outlasts hc.2 hframe (fun hall => hstop (hall 0 hturn)) rest
  have hzero : j = 0 := Nat.eq_zero_of_not_pos fun hpos => hstop (hj.mpr hpos)
  rw [hreceive, hzero, List.drop_zero]

theorem receiveFrames_of_unbroken {calls : List ReceiveCall} (h : ∀ c ∈ calls, Timed c)
    {frames : List Frame} (hframes : ∀ f ∈ frames, f.length ≤ kMaxFrameSize)
    (hcalls : Unbroken calls frames) :
    ∃ d, (receiveFrames calls (stream frames)).1.reduceOption = frames.take d ∧
      (receiveFrames calls (stream frames)).2 = stream (frames.drop d) := by
  induction calls generalizing frames with
  | nil => exact ⟨0, rfl, rfl⟩
  | cons c calls ih =>
    obtain ⟨hc, hrest⟩ := List.forall_mem_cons.mp h
    cases frames with
    | nil =>
      rw [stream, List.flatMap_nil, receiveFrames_nil]
      refine ⟨0, ?_, rfl⟩
      rw [List.reduceOption, List.filterMap_map]
      exact List.filterMap_eq_nil_iff.mpr fun _ _ => rfl
    | cons frame frames =>
      have hframe := hframes frame (.head _)
      rw [stream_cons]
      rcases hcalls with ⟨hpoll, hlater⟩ | ⟨hread, hlater⟩
      · obtain ⟨d, hd, hqueue⟩ := ih hrest hframes hlater
        rw [stream_cons] at hd hqueue
        rw [receiveFrames, receiveFrame_of_stopped hc hframe hpoll]
        exact ⟨d, hd, hqueue⟩
      · obtain ⟨d, hd, hqueue⟩ := ih hrest (List.forall_mem_cons.mp hframes).2 hlater
        rw [receiveFrames, receiveFrame_of_outlasts hc.2 hframe hread]
        refine ⟨d + 1, ?_, hqueue⟩
        rw [List.take_succ_cons, ← hd]
        exact List.reduceOption_cons_of_some _ _

/-- The bytes of the frames that are handed over and of what is left in the queue. -/
theorem receiveFrames_balance (calls : List ReceiveCall) (queue : List UInt8) :
    (stream (receiveFrames calls queue).1.reduceOption).length +
      (receiveFrames calls queue).2.length ≤ queue.length := by
  induction calls generalizing queue with
  | nil => exact (Nat.zero_add _).le
  | cons c calls ih =>
    have hfirst := receiveFrame_balance c.net c.timeoutMs queue
    rw [receiveFrames]
    rcases hreceive : receiveFrame c.net c.timeoutMs queue with ⟨_ | frame, q⟩
    · rw [hreceive] at hfirst
      exact (ih q).trans ((Nat.zero_add _).symm.trans_le hfirst)
    · rw [hreceive] at hfirst
      dsimp only [Option.elim_some] at hfirst ⊢
      rw [List.reduceOption_cons_of_some, stream_cons, List.length_append, Nat.add_assoc]
      exact (Nat.add_le_add_left (ih q) _).trans hfirst

/-- A timeout that strikes inside a frame loses bytes for good. -/
theorem receiveFrames_of_broken {calls : List ReceiveCall} (h : ∀ c ∈ calls, Timed c)
    {frames : List Frame} (hframes : ∀ f ∈ frames, f.length ≤ kMaxFrameSize)
    (hcalls : ¬Unbroken calls frames) :
    (stream (receiveFrames calls (stream frames)).1.reduceOption).length +
      (receiveFrames calls (stream frames)).2.length < (stream frames).length := by
  induction calls generalizing frames with
  | nil => exact (hcalls trivial).elim
  | cons c calls ih =>
    obtain ⟨hc, hrest⟩ := List.forall_mem_cons.mp h
    cases frames with
    | nil => exact (hcalls trivial).elim
    | cons frame frames =>
      have hframe := hframes frame (.head _)
      rw [Unbroken, not_or, not_and, not_and] at hcalls
      rw [stream_cons, receiveFrames]
      by_cases hread : Outlasts c.net c.timeoutMs frame
      · have hlost := ih hrest (List.forall_mem_cons.mp hframes).2 (hcalls.2 hread)
        rw [receiveFrame_of_outlasts hc.2 hframe hread]
        dsimp only
        rw [List.reduceOption_cons_of_some, stream_cons, List.length_append, List.length_append]
        omega
      · by_cases hpoll : c.net.poll 0 = .ready
        · -- bytes of the frame are gone, and no later call finds them again
          obtain ⟨j, hj, hle, hreceive⟩ :=
            receiveFrame_of_not_outlasts hc.2 hframe hread (stream frames)
          have hpos := hj.mp ((passes_iff_of_timed hc 0).mpr hpoll)
          have hbalance := receiveFrames_balance calls ((encodeFrame frame ++ stream frames).drop j)
          rw [List.length_drop] at hbalance
          have hlen : (encodeFrame frame ++ stream frames).length =
              (encodeFrame frame).length + (stream frames).length := List.length_append
          rw [hreceive]
          dsimp only
          rw [List.reduceOption_cons_of_none]
          omega
        · have hlost := ih hrest hframes (hcalls.1 hpoll)
          rw [stream_cons] at hlost
          rw [receiveFrame_of_stopped hc hframe hpoll]
          exact hlost

theorem intact_of_unbroken {calls : List ReceiveCall} (h : ∀ c ∈ calls, Timed c)
    {frames : List Frame} (hframes : ∀ f ∈ frames, f.length ≤ kMaxFrameSize)
    (hcalls : Unbroken calls frames) : Intact calls frames := by
  obtain ⟨d, hd, hqueue⟩ := receiveFrames_of_unbroken h hframes hcalls
  refine ⟨d, hd, fun later hlater hlen => ?_⟩
  have hall := receiveFrames_blocking hlater
    (fun f hf => hframes f (List.mem_of_mem_drop hf)) (by rw [hlen, List.length_drop]) []
  rw [List.append_nil] at hall
  rw [hqueue, hall]

theorem unbroken_of_intact {calls : List ReceiveCall} (h : ∀ c ∈ calls, Timed c)
    {frames : List Frame} (hframes : ∀ f ∈ frames, f.length ≤ kMaxFrameSize)
    (hcalls : Intact calls frames) : Unbroken calls frames := by
  by_contra hbroken
  have hlost := receiveFrames_of_broken h hframes hbroken
  obtain ⟨d, hd, hlater⟩ := hcalls
  -- any blocking calls would do
  let net : Receiver :=
    { Chunking.atMost 1 Nat.one_pos with fails := fun _ => false, poll := fun _ => .ready }
  let later : List ReceiveCall := List.replicate (frames.length - d) ⟨-1, net⟩
  have hblocking : ∀ c ∈ later, Blocking c := by
    intro c hc
    rw [List.eq_of_mem_replicate hc]
    exact ⟨by decide, fun _ => rfl⟩
  have hrest := hlater later hblocking List.length_replicate
  have hbalance := receiveFrames_balance later (receiveFrames calls (stream frames)).2
  have hsome : (List.map some (frames.drop d)).reduceOption = frames.drop d := by
    rw [List.reduceOption, List.filterMap_map]
    exact List.filterMap_some
  rw [hrest, hsome] at hbalance
  have hall := congrArg (List.length ∘ stream) (List.take_append_drop d frames)
  simp only [Function.comp, stream_append, List.length_append] at hall
  rw [hd] at hlost
  omega

/-- **Timeouts lose no frame** exactly when each of them strikes before anything is read: a
call that is stopped later drops the part of the frame that it has. -/
theorem timeouts_lose_nothing_iff (calls : List ReceiveCall) (frames : List Frame)
    (h : ∀ c ∈ calls, Timed c) (hframes : ∀ f ∈ frames, f.length ≤ kMaxFrameSize) :
    Intact calls frames ↔ Unbroken calls frames :=
  ⟨unbroken_of_intact h hframes, intact_of_unbroken h hframes⟩

/-- Byte by byte, and a timeout when `k` bytes are read. -/
def stoppedAfter (k : ℕ) : ReceiveCall where
  timeoutMs := 50
  net :=
    { Chunking.atMost 1 Nat.one_pos with
      fails := fun _ => false, poll := fun n => if n < k then .ready else .timedOut }

theorem timed_stoppedAfter (k : ℕ) : Timed (stoppedAfter k) :=
  ⟨show (0 : ℤ) ≤ 50 by decide, fun _ => rfl⟩

theorem outlasts_stoppedAfter {k : ℕ} {frame : Frame} (h : 4 + frame.length ≤ k) :
    Outlasts (stoppedAfter k).net (stoppedAfter k).timeoutMs frame := by
  intro n hn
  have hheader : turns (stoppedAfter k).net 0 4 ≤ 4 := Chunking.length_chunks_le ..
  have hbody : turns (stoppedAfter k).net (turns (stoppedAfter k).net 0 4) frame.length ≤
      frame.length := Chunking.length_chunks_le ..
  rw [frameTurns] at hn
  exact .inr (if_pos (by omega))

/-- The first and the third call are stopped before they have read anything, the second one reads
a frame of five bytes, and the last one finds the stream at its end. -/
theorem timeouts_lose_nothing_iff_stopped :
    Intact [stoppedAfter 0, stoppedAfter 9, stoppedAfter 0, stoppedAfter 7, stoppedAfter 2]
      [text "hello", text "job"] := by
  refine (timeouts_lose_nothing_iff _ _ ?_ ?_).mpr ?_
  · intro c hc
    simp only [List.mem_cons, List.not_mem_nil, or_false] at hc
    rcases hc with rfl | rfl | rfl | rfl | rfl <;> exact timed_stoppedAfter _
  · intro f hf
    simp only [List.mem_cons, List.not_mem_nil, or_false] at hf
    rcases hf with rfl | rfl <;> decide
  · refine .inl ⟨by decide, .inr ⟨outlasts_stoppedAfter (by decide), ?_⟩⟩
    exact .inl ⟨by decide, .inr ⟨outlasts_stoppedAfter (by decide), trivial⟩⟩

/-- A timeout behind the first byte of the header. -/
theorem timeouts_lose_nothing_iff_in_header :
    ¬∀ (calls : List ReceiveCall) (frames : List Frame), (∀ c ∈ calls, Timed c) →
      (∀ f ∈ frames, f.length ≤ kMaxFrameSize) → Intact calls frames := by
  intro h
  have htimed : ∀ c ∈ [stoppedAfter 1], Timed c := by
    intro c hc
    rw [List.mem_singleton.mp hc]
    exact timed_stoppedAfter 1
  have hframes : ∀ f ∈ ([[]] : List Frame), f.length ≤ kMaxFrameSize := by
    intro f hf
    rw [List.mem_singleton.mp hf]
    exact Nat.zero_le _
  rcases unbroken_of_intact htimed hframes (h _ _ htimed hframes) with ⟨hpoll, -⟩ | ⟨hread, -⟩
  · exact hpoll rfl
  · have hturns : 1 < frameTurns (stoppedAfter 1).net [] := by
      have hone : (stoppedAfter 1).net.size 0 4 = 1 := rfl
      rw [frameTurns, turns_of_pos _ 0 (by decide), hone, turns_of_pos _ 1 (by decide)]
      omega
    have := (passes_iff_of_timed (htimed _ (.head _)) 1).mp (hread 1 hturns)
    cases this

end WorkloadFabric
