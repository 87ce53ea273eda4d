import OneBase.Lib.ByteChannel
import OneBase.Lib.Memory

set_option relaxedAutoImplicit false
set_option autoImplicit false

/-!
# The wire protocol

`server/protocol.h`, the framing of messages: a message on the wire is the length of its payload in
network byte order, the type byte, which counts as payload, and the data.

## Main definitions

* `OneBase.writeExact`, `OneBase.readExact` — the loops around the system calls.
* `OneBase.sendMessage`, `OneBase.recvMessage`.
* `OneBase.Message.frame` — a message on the wire.

## Main results

* `OneBase.sendMessage_eq` — what is sent is the frame.
* `OneBase.recvMessage_frame`, `OneBase.recvMessage_cut` — a whole frame is received, and a part of
  a frame is not.
* `OneBase.recvMessages_sendMessages` — every list of messages arrives.
-/

namespace OneBase

open Memory

/-- `MessageType`, whose values are all bytes: `RecvMessage` casts the byte that it reads. -/
structure MessageType where
  byte : UInt8
  deriving DecidableEq, Repr

namespace MessageType

/-- Client to server: a query. -/
def query : MessageType := ⟨81⟩

/-- Server to client: a result set. -/
def result : MessageType := ⟨82⟩

/-- Server to client: an error message. -/
def error : MessageType := ⟨69⟩

/-- Server to client: a statement succeeded. -/
def commandComplete : MessageType := ⟨67⟩

/-- Client to server: disconnect. -/
def terminate : MessageType := ⟨88⟩

end MessageType

/-- `ReadExact`: the bytes read, or `none` for `false`. The loop asks for what remains until nothing
remains, or until a call reads nothing. -/
def readExact (fd : ByteChannel) (len : ℕ) : Option (List UInt8) × ByteChannel :=
  if _hlen : len = 0 then (some [], fd)
  else if _h : (fd.read len).1.length = 0 then (none, (fd.read len).2)
  else
    let rest := readExact (fd.read len).2 (len - (fd.read len).1.length)
    (rest.1.map ((fd.read len).1 ++ ·), rest.2)
termination_by len
decreasing_by omega

/-- `WriteExact`. -/
def writeExact (fd : ByteChannel) (buf : List UInt8) : Bool × ByteChannel :=
  if _hbuf : buf.length = 0 then (true, fd)
  else if _h : (fd.write buf).1 = 0 then (false, (fd.write buf).2)
  else writeExact (fd.write buf).2 (buf.drop (fd.write buf).1)
termination_by buf.length
decreasing_by
  rw [List.length_drop]
  omega

/-- The four bytes that hold `htonl(v)`: the highest byte of `v` first. -/
def htonl (v : UInt32) : List UInt8 := (leBytes 4 v.toNat).reverse

/-- The number whose network byte order the bytes are. -/
def ntohl (bytes : List UInt8) : UInt32 := UInt32.ofNat (leValue bytes.reverse)

/-- `SendMessage`. -/
def sendMessage (fd : ByteChannel) (type : MessageType) (data : List UInt8) : Bool × ByteChannel :=
  let payloadLen := UInt32.ofNat (data.length + 1)
  match writeExact fd (htonl payloadLen) with
  | (false, fd) => (false, fd)
  | (true, fd) =>
    match writeExact fd [type.byte] with
    | (false, fd) => (false, fd)
    | (true, fd) =>
      if data.isEmpty then (true, fd) else writeExact fd data

/-- `RecvMessage`: the message, or `none` for `false`. -/
def recvMessage (fd : ByteChannel) : Option (MessageType × List UInt8) × ByteChannel :=
  match readExact fd 4 with
  | (none, fd) => (none, fd)
  | (some netLen, fd) =>
    let payloadLen := ntohl netLen
    if payloadLen = 0 then (none, fd)
    else
      match readExact fd 1 with
      | (none, fd) => (none, fd)
      | (some typeByte, fd) =>
        let type : MessageType := ⟨typeByte.headD 0⟩
        let dataLen := (payloadLen - 1).toNat
        if 0 < dataLen then
          match readExact fd dataLen with
          | (none, fd) => (none, fd)
          | (some data, fd) => (some (type, data), fd)
        else (some (type, []), fd)

/-! ## The loops -/

section Loops

/-- `WriteExact` writes the whole buffer. -/
lemma writeExact_eq (fd : ByteChannel) (buf : List UInt8) :
    ∃ s, writeExact fd buf = (true, ⟨fd.bytes ++ buf, s⟩) := by
  induction fd, buf using writeExact.induct with
  | case1 fd buf hlen =>
    obtain rfl : buf = [] := List.length_eq_zero_iff.1 hlen
    refine ⟨fd.schedule, ?_⟩
    rw [writeExact]
    simp
  | case2 fd buf hlen hzero =>
    have hne : buf ≠ [] := by simpa using hlen
    obtain ⟨hpos, -⟩ := fd.write_spec hne
    exact absurd hzero hpos.ne'
  | case3 fd buf hlen hzero ih =>
    obtain ⟨s, hs⟩ := ih
    have hne : buf ≠ [] := by simpa using hlen
    obtain ⟨-, hbytes⟩ := fd.write_spec hne
    refine ⟨s, ?_⟩
    rw [writeExact, dif_neg hlen, dif_neg hzero, hs, hbytes]

/-- `ReadExact` reads the bytes it was asked for, if there are enough of them. -/
lemma readExact_of_le (fd : ByteChannel) (len : ℕ) (h : len ≤ fd.bytes.length) :
    ∃ s, readExact fd len = (some (fd.bytes.take len), ⟨fd.bytes.drop len, s⟩) := by
  induction fd, len using readExact.induct with
  | case1 fd =>
    refine ⟨fd.schedule, ?_⟩
    rw [readExact]
    simp
  | case2 fd len hlen hzero =>
    obtain ⟨-, -, hnil⟩ := fd.read_spec len
    have hbytes := (hnil (Nat.pos_of_ne_zero hlen)).1 (List.length_eq_zero_iff.1 hzero)
    rw [hbytes, List.length_nil] at h
    omega
  | case3 fd len hlen hzero ih =>
    obtain ⟨hbytes, hle, -⟩ := fd.read_spec len
    have hlength := congrArg List.length hbytes
    rw [List.length_append] at hlength
    obtain ⟨s, hs⟩ := ih (by omega)
    refine ⟨s, ?_⟩
    rw [readExact, dif_neg hlen, dif_neg hzero, hs, ← hbytes, List.take_append, List.drop_append,
      List.take_of_length_le hle, List.drop_of_length_le hle]
    rfl

/-- `ReadExact` fails, if there are not enough bytes. -/
lemma readExact_of_lt (fd : ByteChannel) (len : ℕ) (h : fd.bytes.length < len) :
    (readExact fd len).1 = none := by
  induction fd, len using readExact.induct with
  | case1 fd => exact absurd h (Nat.not_lt_zero _)
  | case2 fd len hlen hzero => rw [readExact, dif_neg hlen, dif_pos hzero]
  | case3 fd len hlen hzero ih =>
    obtain ⟨hbytes, hle, -⟩ := fd.read_spec len
    have hlength := congrArg List.length hbytes
    rw [List.length_append] at hlength
    rw [readExact, dif_neg hlen, dif_neg hzero]
    simp only [ih (by omega), Option.map_none]

end Loops

/-! ## One message -/

/-- A message: its type and its data. -/
abbrev Message := MessageType × List UInt8

/-- A message on the wire: the length of the payload, the type and the data. -/
def Message.frame (m : Message) : List UInt8 :=
  htonl (UInt32.ofNat (m.2.length + 1)) ++ m.1.byte :: m.2

/-- The length of the payload fits its four bytes. -/
def Message.Fits (m : Message) : Prop := m.2.length ≤ 2 ^ 32 - 2

namespace Message

variable {m : Message} {rest : List UInt8}

/-- A length is sent in four bytes. -/
@[simp] lemma length_htonl (v : UInt32) : (htonl v).length = 4 := by
  simp [htonl]

/-- The network byte order is read back. -/
lemma ntohl_htonl (v : UInt32) : ntohl (htonl v) = v := by
  have hlt : v.toNat < 256 ^ 4 := v.toNat_lt
  rw [ntohl, htonl, List.reverse_reverse, leValue_leBytes, Nat.mod_eq_of_lt hlt]
  exact UInt32.ofNat_toNat

/-- A frame is five bytes longer than its payload. -/
lemma length_frame (m : Message) : m.frame.length = 5 + m.2.length := by
  simp [frame]
  omega

/-- The length that a fitting message announces. -/
lemma Fits.payloadLen (h : m.Fits) :
    UInt32.ofNat (m.2.length + 1) ≠ 0 ∧
      (UInt32.ofNat (m.2.length + 1) - 1).toNat = m.2.length := by
  unfold Fits at h
  have htoNat : (UInt32.ofNat (m.2.length + 1)).toNat = m.2.length + 1 := by
    rw [UInt32.toNat_ofNat', Nat.mod_eq_of_lt (by omega)]
  refine ⟨fun hzero => ?_, ?_⟩
  · rw [hzero] at htoNat
    simp at htoNat
  · rw [UInt32.toNat_sub_of_le _ _ (by rw [UInt32.le_iff_toNat_le, htoNat]; simp), htoNat]
    simp

end Message

/-- What `SendMessage` sends is the frame. -/
lemma sendMessage_eq (fd : ByteChannel) (m : Message) :
    ∃ s, sendMessage fd m.1 m.2 = (true, ⟨fd.bytes ++ m.frame, s⟩) := by
  obtain ⟨s₁, h₁⟩ := writeExact_eq fd (htonl (UInt32.ofNat (m.2.length + 1)))
  obtain ⟨s₂, h₂⟩ := writeExact_eq
    ⟨fd.bytes ++ htonl (UInt32.ofNat (m.2.length + 1)), s₁⟩ [m.1.byte]
  rw [sendMessage, h₁]
  simp only [h₂]
  split_ifs with hdata
  · have hnil : m.2 = [] := List.isEmpty_iff.1 hdata
    exact ⟨s₂, by simp [Message.frame, hnil]⟩
  · obtain ⟨s₃, h₃⟩ := writeExact_eq
      ⟨fd.bytes ++ htonl (UInt32.ofNat (m.2.length + 1)) ++ [m.1.byte], s₂⟩ m.2
    exact ⟨s₃, by rw [h₃]; simp [Message.frame]⟩

section Receive

variable {fd : ByteChannel} {m : Message} {rest : List UInt8}

/-- `RecvMessage` receives a whole frame. -/
lemma recvMessage_frame (h : m.Fits) (hbytes : fd.bytes = m.frame ++ rest) :
    ∃ s, recvMessage fd = (some m, ⟨rest, s⟩) := by
  obtain ⟨hne, hlen⟩ := h.payloadLen
  have hframe : fd.bytes =
      htonl (UInt32.ofNat (m.2.length + 1)) ++ (m.1.byte :: m.2 ++ rest) := by
    rw [hbytes, Message.frame, List.append_assoc]
  obtain ⟨s₁, h₁⟩ := readExact_of_le fd 4 (by rw [hframe]; simp)
  rw [hframe, List.take_left' (by simp), List.drop_left' (by simp)] at h₁
  obtain ⟨s₂, h₂⟩ := readExact_of_le ⟨m.1.byte :: m.2 ++ rest, s₁⟩ 1 (by simp)
  rw [recvMessage, h₁]
  simp only [Message.ntohl_htonl, hne, if_false, h₂, hlen]
  split_ifs with hpos
  · obtain ⟨s₃, h₃⟩ := readExact_of_le ⟨m.2 ++ rest, s₂⟩ m.2.length (by simp)
    rw [List.take_left, List.drop_left] at h₃
    refine ⟨s₃, ?_⟩
    simp [h₃]
  · have hnil : m.2 = [] := List.length_eq_zero_iff.1 (by omega)
    refine ⟨s₂, ?_⟩
    have hm : m = (m.1, []) := by rw [← hnil]
    rw [hm]
    simp

/-- `RecvMessage` does not receive a frame that was cut. -/
lemma recvMessage_cut (h : m.Fits) (hcut : fd.bytes <+: m.frame)
    (hlt : fd.bytes.length < m.frame.length) : (recvMessage fd).1 = none := by
  obtain ⟨hne, hlen⟩ := h.payloadLen
  have hframe := Message.length_frame m
  obtain ⟨rest, hrest⟩ := hcut
  by_cases hfour : fd.bytes.length < 4
  · -- the length is incomplete
    have hnone := readExact_of_lt fd 4 hfour
    rw [recvMessage]
    split
    · rfl
    · rename_i heq
      rw [heq] at hnone
      cases hnone
  obtain ⟨s₁, h₁⟩ := readExact_of_le fd 4 (not_lt.1 hfour)
  have htake : fd.bytes.take 4 = htonl (UInt32.ofNat (m.2.length + 1)) := by
    have := congrArg (List.take 4) hrest
    rwa [List.take_append_of_le_length (not_lt.1 hfour), Message.frame,
      List.take_left' (by simp)] at this
  rw [htake] at h₁
  rw [recvMessage, h₁]
  simp only [Message.ntohl_htonl, hne, if_false]
  by_cases hfive : fd.bytes.length < 5
  · -- the type is missing
    have hnone := readExact_of_lt ⟨fd.bytes.drop 4, s₁⟩ 1 (by simp only [List.length_drop]; omega)
    split
    · rfl
    · rename_i heq
      rw [heq] at hnone
      cases hnone
  -- the data are incomplete
  obtain ⟨s₂, h₂⟩ := readExact_of_le ⟨fd.bytes.drop 4, s₁⟩ 1 (by simp only [List.length_drop]; omega)
  have hnone := readExact_of_lt ⟨(fd.bytes.drop 4).drop 1, s₂⟩ m.2.length (by
    simp only [List.length_drop]
    omega)
  simp only [h₂, hlen]
  rw [if_pos (by omega)]
  split
  · rfl
  · rename_i heq
    rw [heq] at hnone
    cases hnone

end Receive

/-! ## A list of messages -/

/-- One call to `SendMessage` for each message: what they return, and the channel. -/
def sendMessages (fd : ByteChannel) : List Message → List Bool × ByteChannel
  | [] => ([], fd)
  | m :: ms =>
    let r := sendMessage fd m.1 m.2
    let rest := sendMessages r.2 ms
    (r.1 :: rest.1, rest.2)

/-- A number of calls to `RecvMessage`: what they return, and the channel. -/
def recvMessages (fd : ByteChannel) : ℕ → List (Option Message) × ByteChannel
  | 0 => ([], fd)
  | n + 1 =>
    let r := recvMessage fd
    let rest := recvMessages r.2 n
    (r.1 :: rest.1, rest.2)

/-- The messages are sent one frame after the other. -/
lemma sendMessages_eq (fd : ByteChannel) (ms : List Message) :
    (sendMessages fd ms).1 = ms.map (fun _ => true) ∧
      (sendMessages fd ms).2.bytes = fd.bytes ++ ms.flatMap Message.frame := by
  induction ms generalizing fd with
  | nil => simp [sendMessages]
  | cons m ms ih =>
    obtain ⟨s, hs⟩ := sendMessage_eq fd m
    obtain ⟨ih₁, ih₂⟩ := ih ⟨fd.bytes ++ m.frame, s⟩
    simp [sendMessages, hs, ih₁, ih₂]

/-- Whole frames are received one after the other, whatever follows them. -/
lemma recvMessages_flatMap {ms : List Message} (h : ∀ m ∈ ms, m.Fits) {fd : ByteChannel}
    {rest : List UInt8} (hbytes : fd.bytes = ms.flatMap Message.frame ++ rest) :
    ∃ s, recvMessages fd ms.length = (ms.map some, ⟨rest, s⟩) := by
  induction ms generalizing fd with
  | nil =>
    refine ⟨fd.schedule, ?_⟩
    cases fd
    simp_all [recvMessages]
  | cons m ms ih =>
    rw [List.flatMap_cons, List.append_assoc] at hbytes
    obtain ⟨s, hs⟩ := recvMessage_frame (h m List.mem_cons_self) hbytes
    have htail : ∀ m' ∈ ms, m'.Fits := fun m' hm' => h m' (List.mem_cons_of_mem _ hm')
    obtain ⟨s', hs'⟩ := @ih htail ⟨ms.flatMap Message.frame ++ rest, s⟩ rfl
    exact ⟨s', by simp [recvMessages, hs, hs']⟩

/-- **Framing round trip.** However the calls split the bytes, as many calls to `RecvMessage` as
messages were sent return the messages in order. If the stream is cut, the messages that lie before
the cut are received, and the call for the first one that does not fails. -/
theorem recvMessages_sendMessages (ws rs : Stream' ℕ) (ms : List Message)
    (h : ∀ m ∈ ms, m.Fits) :
    (sendMessages ⟨[], ws⟩ ms).1 = ms.map (fun _ => true) ∧
    (recvMessages ⟨(sendMessages ⟨[], ws⟩ ms).2.bytes, rs⟩ ms.length).1 = ms.map some ∧
    ∀ cut k, (sendMessages ⟨[], ws⟩ (ms.take k)).2.bytes.length ≤ cut →
      (recvMessages ⟨(sendMessages ⟨[], ws⟩ ms).2.bytes.take cut, rs⟩ (ms.take k).length).1 =
          (ms.take k).map some ∧
        (k < ms.length → cut < (sendMessages ⟨[], ws⟩ (ms.take (k + 1))).2.bytes.length →
          (recvMessage (recvMessages ⟨(sendMessages ⟨[], ws⟩ ms).2.bytes.take cut, rs⟩ k).2).1 =
            none) := by
  have hsent : ∀ l, (sendMessages ⟨[], ws⟩ l).2.bytes = l.flatMap Message.frame := by
    intro l
    rw [(sendMessages_eq _ l).2, List.nil_append]
  simp only [hsent]
  refine ⟨(sendMessages_eq _ ms).1, ?_, fun cut k hle => ?_⟩
  · obtain ⟨s, hs⟩ := @recvMessages_flatMap ms h ⟨ms.flatMap Message.frame, rs⟩ _
      (List.append_nil _).symm
    rw [hs]
  · have hfits : ∀ m ∈ ms.take k, m.Fits := fun m hm => h m (List.mem_of_mem_take hm)
    -- the part before the cut: the frames that are whole, and a piece of the next one
    have hsplit : (ms.flatMap Message.frame).take cut = (ms.take k).flatMap Message.frame ++
        ((ms.drop k).flatMap Message.frame).take
          (cut - ((ms.take k).flatMap Message.frame).length) := by
      conv_lhs => rw [← List.take_append_drop k ms, List.flatMap_append, List.take_append]
      rw [List.take_of_length_le hle]
    obtain ⟨s, hs⟩ :=
      @recvMessages_flatMap _ hfits ⟨(ms.flatMap Message.frame).take cut, rs⟩ _ hsplit
    refine ⟨by rw [hs], fun hk hlt => ?_⟩
    have hlen : (ms.take k).length = k := List.length_take_of_le hk.le
    rw [hlen] at hs
    have hdrop : ms.drop k = ms[k] :: ms.drop (k + 1) := List.drop_eq_getElem_cons hk
    have hnext : ((ms.take (k + 1)).flatMap Message.frame).length =
        ((ms.take k).flatMap Message.frame).length + (Message.frame ms[k]).length := by
      rw [List.take_succ_eq_append_getElem hk, List.flatMap_append, List.length_append]
      simp
    have hpiece : ((ms.drop k).flatMap Message.frame).take
        (cut - ((ms.take k).flatMap Message.frame).length) =
          (Message.frame ms[k]).take (cut - ((ms.take k).flatMap Message.frame).length) := by
      rw [hdrop, List.flatMap_cons, List.take_append_of_le_length (by omega)]
    rw [hs]
    refine recvMessage_cut (h _ (List.getElem_mem hk)) ?_ ?_
    · rw [hpiece]
      exact List.take_prefix _ _
    · rw [hpiece, List.length_take]
      omega

/-- A query and an empty message, sent byte by byte. -/
theorem recvMessages_sendMessages_sample :
    (recvMessages ⟨(sendMessages ⟨[], Stream'.const 1⟩
        [(.query, [83, 81, 76]), (.terminate, [])]).2.bytes, Stream'.const 1⟩ 2).1 =
      [some (.query, [83, 81, 76]), some (.terminate, [])] :=
  (recvMessages_sendMessages (Stream'.const 1) (Stream'.const 1)
    [(.query, [83, 81, 76]), (.terminate, [])] (by simp [Message.Fits])).2.1

end OneBase
