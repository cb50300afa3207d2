/-
The wire protocol between the coordinator and its workers.

A message is a tag, seven 64-bit fields, two flags and two strings behind the magic
number of the protocol; the length of the frame around it is the transport's.

* **`message_codec_exact`** — what is encoded is decoded again, whatever follows it; what is
  decoded was encoded, up to the byte that stands for a raised flag; and a part of an
  encoding raises `ProtocolError`, as everything else does.
-/
import WorkloadFabric.Binary

namespace WorkloadFabric

open Decoder

inductive MsgType where
  | hello
  | register
  | dispatch
  | progress
  | complete
  | cancel
  | shutdown
  | ping
deriving DecidableEq, Repr

instance : CodedEnum MsgType :=
  .ofNumbering MsgType.ctorIdx MsgType.ofNat 7 (by decide) MsgType.ofNat_ctorIdx
    (by intro a; cases a <;> decide)

instance : CodedEnum.Dense MsgType := .of_all (by decide)

def kProtocolMagic : List UInt8 := text "WFP1"

structure Message where
  type : MsgType := .ping
  workloadId : UInt64 := 0
  episodeId : UInt64 := 0
  episodeGen : UInt64 := 0
  workloadGen : UInt64 := 0
  workerId : UInt64 := 0
  bootId : UInt64 := 0
  value : UInt64 := 0
  flag1 : Bool := false
  flag2 : Bool := false
  payload : Text := []
  extra : Text := []
deriving DecidableEq

/-! ### Encoding -/

namespace Writer

/-- A message behind its tag, with these bytes for its flags. -/
def messageFields (m : Message) (flag1 flag2 : List UInt8) : List UInt8 := List.flatten [
  u64 m.workloadId, u64 m.episodeId, u64 m.episodeGen, u64 m.workloadGen, u64 m.workerId,
  u64 m.bootId, u64 m.value, flag1, flag2, str m.payload, str m.extra]

/-- A message behind the magic number. -/
def message (m : Message) : List UInt8 :=
  enum m.type ++ messageFields m (flag m.flag1) (flag m.flag2)

end Writer

def encodeMessage (m : Message) : List UInt8 := kProtocolMagic ++ Writer.message m

/-! ### Decoding -/

/-- What `decodeMessage` throws. -/
inductive MessageError where
  /-- `ProtocolError` -/
  | protocolError (what : Text)
  /-- an error of the codec, until it is caught -/
  | codec (e : DecodeError)
deriving DecidableEq

namespace Reader

/-- The fields behind the tag. -/
def messageFields (type : MsgType) : Reader Message := do
  let workloadId ← u64
  let episodeId ← u64
  let episodeGen ← u64
  let workloadGen ← u64
  let workerId ← u64
  let bootId ← u64
  let value ← u64
  let flag1 ← flag
  let flag2 ← flag
  let payload ← str
  let extra ← str
  return ⟨type, workloadId, episodeId, episodeGen, workloadGen, workerId, bootId, value, flag1,
    flag2, payload, extra⟩

/-- The body of a message; what follows it is not looked at. -/
def message : Decoder MessageError UInt8 Message := do
  let t ← lift .codec u8
  if 7 < t then fail (.protocolError (text "bad message type"))
  else lift .codec (messageFields (CodedEnum.ofCode t))

end Reader

def decodeMessage (frame : List UInt8) : Except MessageError Message :=
  if frame.length < 4 then .error (.protocolError (text "frame too small"))
  else if frame.take 4 ≠ kProtocolMagic then .error (.protocolError (text "bad magic"))
  else
    match Reader.message (frame.drop 4) with
    | .ok (m, _) => .ok m
    | .error (.codec (.codecError what)) => .error (.protocolError what)
    | .error e => .error e

/-! ### What is encoded is decoded again -/

namespace Reader

theorem reads_messageFields (m : Message) : ReadsAs True (messageFields m.type)
    (Writer.messageFields m (Writer.flag m.flag1) (Writer.flag m.flag2)) m := by
  refine (reads_u64 _).cons <| (reads_u64 _).cons <| (reads_u64 _).cons ?_
  refine (reads_u64 _).cons <| (reads_u64 _).cons <| (reads_u64 _).cons ?_
  refine (reads_u64 _).cons <| (reads_flag _).cons <| (reads_flag _).cons ?_
  exact (reads_str _).cons <| (reads_str _).cons <| .of_nil m

theorem reads_message (m : Message) :
    Reads (2 ^ 64) (.codec (.returned .rejectUnknown)) True message (Writer.message m) m := by
  have htag : ¬7 < CodedEnum.code m.type := UInt8.not_lt.mpr (CodedEnum.code_le m.type)
  have hfields := (reads_messageFields m).lift (f := MessageError.codec)
  refine Reads.congr_ok (p := True ∧ True) ?_ (by rw [true_and])
  refine ((reads_u8 (CodedEnum.code m.type)).lift (f := MessageError.codec)).bind ?_
  rw [if_neg htag, CodedEnum.ofCode_code]
  exact hfields

end Reader

theorem decodeMessage_magic (s : List UInt8) :
    decodeMessage (kProtocolMagic ++ s) = match Reader.message s with
      | .ok (m, _) => .ok m
      | .error (.codec (.codecError what)) => .error (.protocolError what)
      | .error e => .error e := by
  have hlen : kProtocolMagic.length = 4 := rfl
  rw [decodeMessage, if_neg (by rw [List.length_append]; omega),
    if_neg (not_not.mpr (List.take_left' hlen)), List.drop_left' hlen]

theorem decodeMessage_encodeMessage {m : Message} {t : List UInt8}
    (h : (encodeMessage m ++ t).length < 2 ^ 64) : decodeMessage (encodeMessage m ++ t) = .ok m := by
  have hbody : (Writer.message m ++ t).length < 2 ^ 64 := by
    rw [encodeMessage, List.append_assoc, List.length_append] at h
    omega
  rw [encodeMessage, List.append_assoc, decodeMessage_magic,
    (Reader.reads_message m t hbody).1 trivial]

theorem length_encodeMessage (m : Message) :
    (encodeMessage m).length = 79 + (m.payload.length + m.extra.length) := by
  have hflag (b : Bool) : (Writer.flag b).length = 1 := rfl
  have henum (t : MsgType) : (Writer.enum t).length = 1 := rfl
  have hmagic : kProtocolMagic.length = 4 := rfl
  simp only [encodeMessage, Writer.message, Writer.messageFields, Writer.str, List.length_append,
    List.flatten_cons, List.flatten_nil, List.length_nil, Writer.length_u64, hflag, henum, hmagic]
  omega

/-- A message with short texts is decoded again. -/
theorem decodeMessage_short {m : Message} (h : m.payload.length + m.extra.length ≤ 2 ^ 21) :
    decodeMessage (encodeMessage m) = .ok m := by
  have hlen : (encodeMessage m ++ []).length < 2 ^ 64 := by
    rw [List.append_nil, length_encodeMessage]
    omega
  have hdecode := decodeMessage_encodeMessage hlen
  rwa [List.append_nil] at hdecode

/-! ### What is decoded was encoded -/

/-- The error of the codec that `decodeMessage` catches. -/
def DecodeError.Caught : DecodeError → Prop
  | .codecError _ => True
  | _ => False

/-- It comes from the codec. -/
def MessageError.FromCodec : MessageError → Prop
  | .protocolError _ => False
  | .codec _ => True

/-- `decodeMessage` throws it, or catches it and throws another. -/
def MessageError.Caught : MessageError → Prop
  | .protocolError _ => True
  | .codec e => e.Caught

namespace Reader

theorem throws_u8 : Throws DecodeError.Caught u8 :=
  (Throws.need trivial 1).bind fun _ => .symbol trivial

theorem throws_shiftIn (n : ℕ) (r : UInt64) : Throws DecodeError.Caught (shiftIn n r) := by
  induction n generalizing r with
  | zero => exact .pure r
  | succ n ih => exact throws_u8.bind fun v => ih _

theorem throws_u64 : Throws DecodeError.Caught u64 :=
  (Throws.need trivial 8).bind fun _ => throws_shiftIn 8 0

theorem throws_flag : Throws DecodeError.Caught flag := throws_u8.bind fun _ => .pure _

theorem throws_str : Throws DecodeError.Caught str := by
  refine throws_u64.bind fun n => (Throws.need trivial _).bind fun _ => ?_
  exact (Throws.need trivial _).bind fun _ => .take _

theorem throws_messageFields (t : MsgType) : Throws DecodeError.Caught (messageFields t) := by
  refine throws_u64.bind fun _ => throws_u64.bind fun _ => throws_u64.bind fun _ => ?_
  refine throws_u64.bind fun _ => throws_u64.bind fun _ => throws_u64.bind fun _ => ?_
  refine throws_u64.bind fun _ => throws_flag.bind fun _ => throws_flag.bind fun _ => ?_
  exact throws_str.bind fun _ => throws_str.bind fun _ => .pure _

theorem throws_message : Throws MessageError.Caught message := by
  have hcodec (e : DecodeError) (h : e.Caught) : (MessageError.codec e).Caught := h
  refine (throws_u8.lift hcodec).bind fun t => ?_
  split
  · rintro s e ⟨⟩
    trivial
  · exact (throws_messageFields _).lift hcodec

end Reader

/-- `decodeMessage` throws nothing but `ProtocolError`. -/
theorem decodeMessage_error {b : List UInt8} {e : MessageError} (h : decodeMessage b = .error e) :
    ∃ what, e = .protocolError what := by
  rw [decodeMessage] at h
  split at h
  · cases h
    exact ⟨_, rfl⟩
  · split at h
    · cases h
      exact ⟨_, rfl⟩
    · split at h
      · cases h
      · cases h
        exact ⟨_, rfl⟩
      · next hne hbody =>
        cases h
        have hcaught := Reader.throws_message _ _ hbody
        rcases e with what | (what | _ | _)
        · exact ⟨what, rfl⟩
        · exact (hne what rfl).elim
        · exact hcaught.elim
        · exact hcaught.elim

namespace Reader

/-- Any byte that is not zero raises a flag. -/
theorem takes_flag : Takes (fun b bs => ∃ v : UInt8, (v != 0) = b ∧ bs = [v]) flag := by
  refine faithful_u8.takes.bind fun v bs hv => .pure ⟨v, rfl, ?_⟩
  rw [hv]
  rfl

theorem takes_messageFields (t : MsgType) : Takes (fun m bs => m.type = t ∧ ∃ v₁ v₂ : UInt8,
    (v₁ != 0) = m.flag1 ∧ (v₂ != 0) = m.flag2 ∧ bs = Writer.messageFields m [v₁] [v₂])
    (messageFields t) := by
  refine faithful_u64.takes.bind fun _ _ h₁ => faithful_u64.takes.bind fun _ _ h₂ => ?_
  refine faithful_u64.takes.bind fun _ _ h₃ => faithful_u64.takes.bind fun _ _ h₄ => ?_
  refine faithful_u64.takes.bind fun _ _ h₅ => faithful_u64.takes.bind fun _ _ h₆ => ?_
  refine faithful_u64.takes.bind fun _ _ h₇ => ?_
  refine takes_flag.bind fun _ _ ⟨v₁, hv₁, h₈⟩ => takes_flag.bind fun _ _ ⟨v₂, hv₂, h₉⟩ => ?_
  refine faithful_str.takes.bind fun _ _ h₁₀ => faithful_str.takes.bind fun _ _ h₁₁ => .pure ?_
  refine ⟨rfl, v₁, v₂, hv₁, hv₂, ?_⟩
  rw [h₁, h₂, h₃, h₄, h₅, h₆, h₇, h₈, h₉, h₁₀, h₁₁]
  rfl

theorem takes_message : Takes (fun m bs => ∃ v₁ v₂ : UInt8, (v₁ != 0) = m.flag1 ∧
    (v₂ != 0) = m.flag2 ∧ bs = Writer.enum m.type ++ Writer.messageFields m [v₁] [v₂])
    message := by
  refine (faithful_u8.takes.lift (f := MessageError.codec)).bind fun t bs ht => ?_
  split
  · rintro s m rest ⟨⟩
  · next h =>
    intro s m rest hm
    obtain ⟨cs, hs, htype, v₁, v₂, h₁, h₂, rfl⟩ := (takes_messageFields _).lift s m rest hm
    refine ⟨_, hs, v₁, v₂, h₁, h₂, ?_⟩
    rw [htype, Writer.enum, CodedEnum.Dense.code_ofCode t (UInt8.not_lt.mp h), ht]

end Reader

/-- The message `m` stands at the front of `b`, with any byte that is not zero for a flag
that is raised. -/
structure Message.ReadFrom (m : Message) (b : List UInt8) : Prop where
  length_le : (encodeMessage m).length ≤ b.length
  agrees : ∀ i < (encodeMessage m).length, i ≠ 61 → i ≠ 62 → b[i]? = (encodeMessage m)[i]?
  flag1 : ∃ v, b[61]? = some v ∧ (v != 0) = m.flag1
  flag2 : ∃ v, b[62]? = some v ∧ (v != 0) = m.flag2

/-- The flags stand behind the magic number, the tag and seven words. -/
theorem exists_encoding (m : Message) : ∃ front back : List UInt8, front.length = 61 ∧
    ∀ bs₁ bs₂, kProtocolMagic ++ (Writer.enum m.type ++ Writer.messageFields m bs₁ bs₂) =
      front ++ (bs₁ ++ (bs₂ ++ back)) := by
  refine ⟨kProtocolMagic ++ (Writer.enum m.type ++ (Writer.u64 m.workloadId ++
    (Writer.u64 m.episodeId ++ (Writer.u64 m.episodeGen ++ (Writer.u64 m.workloadGen ++
    (Writer.u64 m.workerId ++ (Writer.u64 m.bootId ++ Writer.u64 m.value))))))),
    Writer.str m.payload ++ Writer.str m.extra, rfl, fun bs₁ bs₂ => ?_⟩
  simp only [Writer.messageFields, List.flatten_cons, List.flatten_nil, List.append_nil,
    List.append_assoc]

/-- What is accepted starts with the magic number, and a body is read behind it. -/
theorem decodeMessage_eq_ok {b : List UInt8} {m : Message} (h : decodeMessage b = .ok m) :
    ∃ s rest, b = kProtocolMagic ++ s ∧ Reader.message s = .ok (m, rest) := by
  rw [decodeMessage] at h
  split at h
  · cases h
  · split at h
    · cases h
    · next hmagic =>
      split at h
      · next m' rest hbody =>
        cases h
        refine ⟨b.drop 4, rest, ?_, hbody⟩
        rw [← not_not.mp hmagic, List.take_append_drop]
      · cases h
      · cases h

theorem readFrom_of_decode {b : List UInt8} {m : Message} (h : decodeMessage b = .ok m) :
    m.ReadFrom b := by
  obtain ⟨s, rest, rfl, hs⟩ := decodeMessage_eq_ok h
  obtain ⟨bs, rfl, v₁, v₂, h₁, h₂, rfl⟩ := Reader.takes_message s m rest hs
  obtain ⟨front, back, hfront, heq⟩ := exists_encoding m
  have hb : kProtocolMagic ++ (Writer.enum m.type ++ Writer.messageFields m [v₁] [v₂] ++ rest) =
      front ++ v₁ :: v₂ :: (back ++ rest) := by
    rw [← List.append_assoc, heq]
    simp
  have henc : encodeMessage m = front ++ (if m.flag1 then 1 else 0) ::
      (if m.flag2 then 1 else 0) :: back := by
    rw [encodeMessage, Writer.message, heq]
    rfl
  rw [hb]
  refine ⟨?_, fun i hi h61 h62 => ?_, ⟨v₁, ?_, h₁⟩, ⟨v₂, ?_, h₂⟩⟩
  · rw [henc]
    simp
  · rw [henc] at hi ⊢
    by_cases hlt : i < front.length
    · rw [List.getElem?_append_left hlt, List.getElem?_append_left hlt]
    · -- behind the flags, at the same place in both
      obtain ⟨j, rfl⟩ : ∃ j, i = front.length + (j + 2) := ⟨i - 63, by omega⟩
      rw [List.getElem?_append_right (by omega), List.getElem?_append_right (by omega),
        Nat.add_sub_cancel_left, List.getElem?_cons_succ, List.getElem?_cons_succ,
        List.getElem?_cons_succ, List.getElem?_cons_succ, List.getElem?_append_left]
      simp at hi
      omega
  · rw [List.getElem?_append_right (by omega), hfront]
    rfl
  · rw [List.getElem?_append_right (by omega), hfront]
    rfl

/-! ### Parts of an encoding -/

namespace Reader

/-- The body of a message is read with checked look-ups. -/
theorem checked_message :
    Checked MessageError.FromCodec (fun e => ¬e.FromCodec) message := by
  have hlift {α : Type} {m : Reader α} (h : CheckedReader (fun _ => False) m) :
      Checked MessageError.FromCodec (fun e => ¬e.FromCodec) (lift .codec m) :=
    h.lift (fun _ _ => trivial) fun _ h => h.elim
  have hu8 := hlift (m := u8) inferInstance
  have hfields (t : MsgType) := hlift (m := messageFields t) (by
    rw [messageFields]
    infer_instance)
  have hfail : Checked MessageError.FromCodec (fun e => ¬e.FromCodec)
      (fail (.protocolError (text "bad message type")) : Decoder MessageError UInt8 Message) :=
    .fail (.inr id)
  rw [message]
  infer_instance

end Reader

theorem decodeMessage_part {m : Message} (hm : (encodeMessage m).length < 2 ^ 64)
    {x y : List UInt8} (hxy : encodeMessage m = x ++ y) (hy : y ≠ []) :
    ∃ what, decodeMessage x = .error (.protocolError what) := by
  suffices h : ∃ e, decodeMessage x = .error e by
    obtain ⟨e, he⟩ := h
    obtain ⟨what, rfl⟩ := decodeMessage_error he
    exact ⟨what, he⟩
  by_cases hlen : x.length < 4
  · exact ⟨_, by rw [decodeMessage, if_pos hlen]⟩
  · -- the part is cut off in the body
    rw [encodeMessage] at hxy hm
    rw [List.append_eq_append_iff] at hxy
    obtain ⟨z, rfl, hz⟩ : ∃ z, x = kProtocolMagic ++ z ∧ Writer.message m = z ++ y := by
      rcases hxy with ⟨z, hx, hbody⟩ | ⟨z, hmagic, hy'⟩
      · exact ⟨z, hx, hbody⟩
      · have hz : z = [] := by
          have h4 := congrArg List.length hmagic
          rw [List.length_append, show kProtocolMagic.length = 4 from rfl] at h4
          exact List.eq_nil_of_length_eq_zero (by omega)
        subst hz
        rw [List.nil_append] at hy'
        exact ⟨[], by rw [hmagic, List.append_nil, List.append_nil], by rw [hy', List.nil_append]⟩
    have hstable := Reader.checked_message.stable
    have hbody : (Writer.message m).length < 2 ^ 64 := by
      rw [List.length_append] at hm
      omega
    have hreject : MessageError.FromCodec (.codec (.returned .rejectUnknown)) := trivial
    obtain ⟨e, -, he⟩ := (Reader.reads_message m).stops_on_part hreject hbody hz hy
    rw [decodeMessage_magic, he]
    rcases e with what | (what | _ | _)
    all_goals exact ⟨_, rfl⟩

/-- **The wire codec is exact**: every message is decoded again, whatever follows it; what
is accepted starts with a message, spelled as the encoder spells it but for the flags; and
whatever else there is, parts of messages among it, raises `ProtocolError`. -/
theorem message_codec_exact :
    (∀ (m : Message) (t : List UInt8), (encodeMessage m ++ t).length < 2 ^ 64 →
      decodeMessage (encodeMessage m ++ t) = .ok m) ∧
    (∀ b : List UInt8, (∃ what, decodeMessage b = .error (.protocolError what)) ∨
      ∃ m, decodeMessage b = .ok m ∧ m.ReadFrom b) ∧
    ∀ (m : Message) (x y : List UInt8), (encodeMessage m).length < 2 ^ 64 →
      encodeMessage m = x ++ y → y ≠ [] →
      ∃ what, decodeMessage x = .error (.protocolError what) := by
  refine ⟨fun m t => decodeMessage_encodeMessage, fun b => ?_, fun m x y hm hxy hy => ?_⟩
  · rcases h : decodeMessage b with e | m
    · obtain ⟨what, rfl⟩ := decodeMessage_error h
      exact .inl ⟨what, rfl⟩
    · exact .inr ⟨m, rfl, readFrom_of_decode h⟩
  · exact decodeMessage_part hm hxy hy

/-- A report of a worker, with the descriptor of its dispatch and a note. -/
def durableReport : Message where
  type := .progress
  workloadId := 1
  episodeId := 1000
  episodeGen := 1
  workloadGen := 2
  workerId := 7
  bootId := 3
  value := 32
  flag1 := true
  payload := text "job-A:0:8"
  extra := text "durable"

/-- It comes back in front of three more bytes, also where another byte stands for its raised
flag, and its first 40 bytes raise `ProtocolError`. -/
theorem message_codec_exact_report :
    decodeMessage (encodeMessage durableReport ++ [1, 2, 3]) = .ok durableReport ∧
    (∃ m, decodeMessage ((encodeMessage durableReport).set 61 255) = .ok m ∧
      m.ReadFrom ((encodeMessage durableReport).set 61 255)) ∧
    ∃ what,
      decodeMessage ((encodeMessage durableReport).take 40) = .error (.protocolError what) := by
  obtain ⟨hround, haccepted, hpart⟩ := message_codec_exact
  refine ⟨hround durableReport [1, 2, 3] (by decide),
    (haccepted ((encodeMessage durableReport).set 61 255)).resolve_left ?_,
    hpart durableReport _ ((encodeMessage durableReport).drop 40) (by decide)
      (List.take_append_drop 40 _).symm (by decide)⟩
  rintro ⟨what, h⟩
  have hread : decodeMessage ((encodeMessage durableReport).set 61 255) = .ok durableReport := by
    decide +kernel
  cases hread.symm.trans h

end WorkloadFabric
