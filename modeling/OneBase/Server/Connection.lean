import OneBase.Lib.Transition
import OneBase.Server.Client
import OneBase.Server.Protocol
import OneBase.Type.Value
import Mathlib.Data.Prod.Lex
import Mathlib.Order.WellFounded

set_option relaxedAutoImplicit false
set_option autoImplicit false

/-!
# A client and its thread of the server

The loop of `onebase_client/client_main.cpp` and `HandleClient` of
`onebase_server/server_main.cpp`, which talk over a socket: two streams of bytes. `SendMessage`
writes its frame in pieces of any size. `RecvMessage` blocks until its bytes are there, and nobody
else reads from its end, so that it is one step; it fails if the other end was closed before.

What `HandleQuery` answers is a relation on the states of the database, and the events of a run are
what the user asks, what the server answers and what the client shows.

## Main definitions

* `OneBase.Connection` — the state of both programs and of the socket.
* `OneBase.Connection.Step` — a step of one of the programs, or the signal that stops the server.
* `OneBase.Connection.asked`, `answered`, `shown` — the events of a run.

## Main results

* `OneBase.Connection.InStep.step` — every step keeps the two programs in step.
* `OneBase.Connection.answers_in_order` — the client shows the answers to its queries, in order.
* `OneBase.Connection.steps_end` — every run ends.
* `OneBase.Connection.all_answered` — when a run has ended that no signal stopped, every statement
  of the input was answered, and every answer was shown.
-/

namespace OneBase

/-- Where the client is. -/
inductive ClientState
  /-- At `std::getline`. -/
  | prompt
  /-- In `SendMessage`, with the rest of the frame; after `TERMINATE` it leaves its loop. -/
  | sending (rest : Bytes) (last : Bool)
  /-- In `RecvMessage`. -/
  | waiting
  | closed

/-- Where the thread of the server is. -/
inductive ServerState
  /-- At the head of the loop, before `g_running` is read. -/
  | looping
  /-- In `RecvMessage`. -/
  | receiving
  /-- In `SendMessage`, with the rest of the frame. -/
  | replying (rest : Bytes)
  | closed

/-- A client with its input, the thread of the server with its database, and the socket. -/
structure Connection (σ : Type) where
  lines : List Bytes
  queryBuf : Bytes := []
  client : ClientState := .prompt
  toServer : Bytes := []
  toClient : Bytes := []
  server : ServerState := .looping
  /-- `g_running`. -/
  running : Bool := true
  db : σ

/-- What can be seen of a step. -/
inductive ConnectionEvent
  | asked (query : Bytes)
  | answered (query : Bytes) (answer : Message)
  | shown (answer : Message)
  | quiet

namespace Connection

variable {σ : Type}

/-- `RecvMessage` on these bytes returns the message and leaves the rest. -/
def Receives (bytes : Bytes) (m : Message) (rest : Bytes) : Prop :=
  ∃ schedule schedule', recvMessage ⟨bytes, schedule⟩ = (some m, ⟨rest, schedule'⟩)

/-- `RecvMessage` on these bytes returns `false` when no more come. -/
def Fails (bytes : Bytes) : Prop := ∃ schedule, (recvMessage ⟨bytes, schedule⟩).1 = none

/-- The answer to a message of an unknown type. -/
def unknownType : Message := (.error, textBytes "Unknown message type")

/-- A step of one of the programs. `handles s query answer s'` says that `HandleQuery` may answer
the query so. -/
inductive Step (handles : σ → Bytes → Message → σ → Prop) :
    Connection σ → ConnectionEvent → Connection σ → Prop
  /-- The client reads a line and reads on. -/
  | readOn {c : Connection σ} {line : Bytes} {lines : List Bytes} {queryBuf : Bytes}
      (hclient : c.client = .prompt) (hlines : c.lines = line :: lines)
      (hline : replLine c.queryBuf line = (queryBuf, .readOn)) :
      Step handles c .quiet { c with lines := lines, queryBuf := queryBuf }
  /-- The client reads the last line of a statement. -/
  | ask {c : Connection σ} {line : Bytes} {lines : List Bytes} {queryBuf query : Bytes}
      (hclient : c.client = .prompt) (hlines : c.lines = line :: lines)
      (hline : replLine c.queryBuf line = (queryBuf, .send query)) :
      Step handles c (.asked query)
        { c with
          lines := lines
          queryBuf := queryBuf
          client := .sending (Message.frame (.query, query)) false }
  /-- The client is told to quit. -/
  | quit {c : Connection σ} {line : Bytes} {lines : List Bytes} {queryBuf : Bytes}
      (hclient : c.client = .prompt) (hlines : c.lines = line :: lines)
      (hline : replLine c.queryBuf line = (queryBuf, .quit)) :
      Step handles c .quiet
        { c with lines := lines, client := .sending (Message.frame (.terminate, [])) true }
  /-- The input of the client ends. -/
  | endOfInput {c : Connection σ} (hclient : c.client = .prompt) (hlines : c.lines = []) :
      Step handles c .quiet { c with client := .closed }
  /-- The client writes some bytes. -/
  | write {c : Connection σ} {rest : Bytes} {last : Bool} {n : ℕ}
      (hclient : c.client = .sending rest last) (hn : 0 < n) (hle : n ≤ rest.length) :
      Step handles c .quiet
        { c with toServer := c.toServer ++ rest.take n, client := .sending (rest.drop n) last }
  /-- The client has written its message. -/
  | sent {c : Connection σ} {last : Bool} (hclient : c.client = .sending [] last) :
      Step handles c .quiet { c with client := if last then .closed else .waiting }
  /-- The client receives an answer and shows it. -/
  | receive {c : Connection σ} {m : Message} {rest : Bytes} (hclient : c.client = .waiting)
      (hbytes : Receives c.toClient m rest) :
      Step handles c (.shown m) { c with toClient := rest, client := .prompt }
  /-- The server has closed the connection: a write fails, or no more bytes come. -/
  | lost {c : Connection σ} (hserver : c.server = .closed)
      (hclient : (∃ rest last, c.client = .sending rest last) ∨
        c.client = .waiting ∧ Fails c.toClient) :
      Step handles c .quiet { c with client := .closed }
  /-- The server goes on to receive. -/
  | loop {c : Connection σ} (hserver : c.server = .looping) (hrunning : c.running = true) :
      Step handles c .quiet { c with server := .receiving }
  /-- The server stops. -/
  | stop {c : Connection σ} (hserver : c.server = .looping) (hrunning : c.running = false) :
      Step handles c .quiet { c with server := .closed }
  /-- The server receives a query and answers it. -/
  | answer {c : Connection σ} {query rest : Bytes} {m : Message} {db : σ}
      (hserver : c.server = .receiving) (hbytes : Receives c.toServer (.query, query) rest)
      (hhandles : handles c.db query m db) :
      Step handles c (.answered query m)
        { c with toServer := rest, server := .replying m.frame, db := db }
  /-- The server receives the end of the session. -/
  | terminate {c : Connection σ} {data rest : Bytes} (hserver : c.server = .receiving)
      (hbytes : Receives c.toServer (.terminate, data) rest) :
      Step handles c .quiet { c with toServer := rest, server := .closed }
  /-- The server receives something else. -/
  | refuse {c : Connection σ} {type : MessageType} {data rest : Bytes}
      (hserver : c.server = .receiving) (hbytes : Receives c.toServer (type, data) rest)
      (htype : type ≠ .query ∧ type ≠ .terminate) :
      Step handles c .quiet { c with toServer := rest, server := .replying unknownType.frame }
  /-- The server writes some bytes. -/
  | reply {c : Connection σ} {rest : Bytes} {n : ℕ} (hserver : c.server = .replying rest)
      (hn : 0 < n) (hle : n ≤ rest.length) :
      Step handles c .quiet
        { c with toClient := c.toClient ++ rest.take n, server := .replying (rest.drop n) }
  /-- The server has written its message, or cannot because the client is gone. -/
  | replied {c : Connection σ} {rest : Bytes} (hserver : c.server = .replying rest)
      (hdone : rest = [] ∨ c.client = .closed) : Step handles c .quiet { c with server := .looping }
  /-- The client is gone, and no more bytes come. -/
  | hangUp {c : Connection σ} (hserver : c.server = .receiving) (hclient : c.client = .closed)
      (hbytes : Fails c.toServer) : Step handles c .quiet { c with server := .closed }
  /-- The signal that stops the server. -/
  | signal {c : Connection σ} (hrunning : c.running = true) :
      Step handles c .quiet { c with running := false }

end Connection

/-! ## What can be seen of a run -/

namespace ConnectionEvent

/-- The queries that were asked. -/
def queries : List ConnectionEvent → List Bytes :=
  List.filterMap fun e => match e with | asked q => some q | _ => none

/-- The queries that were answered, with their answers. -/
def answers : List ConnectionEvent → List (Bytes × Message) :=
  List.filterMap fun e => match e with | answered q m => some (q, m) | _ => none

/-- The answers that were shown. -/
def replies : List ConnectionEvent → List Message :=
  List.filterMap fun e => match e with | shown m => some m | _ => none

end ConnectionEvent

/-! ## How far the two programs are from their ends -/

/-- How far the client is from its end, the lines that it still reads apart. -/
def ClientState.rank : ClientState → ℕ
  | .sending _ _ => 3
  | .waiting => 2
  | .prompt => 1
  | .closed => 0

/-- The bytes that the client still has to write. -/
def ClientState.unsent : ClientState → ℕ
  | .sending rest _ => rest.length
  | _ => 0

/-- How far the server is from its end, if it receives nothing more. -/
def ServerState.rank : ServerState → ℕ
  | .replying _ => 3
  | .looping => 2
  | .receiving => 1
  | .closed => 0

/-- The bytes that the server still has to write. -/
def ServerState.unsent : ServerState → ℕ
  | .replying rest => rest.length
  | _ => 0

namespace Connection

variable {σ : Type} {handles : σ → Bytes → Message → σ → Prop} {c c' : Connection σ}
  {e : ConnectionEvent} {events : List ConnectionEvent} {bytes rest rest' : Bytes} {m m' : Message}

/-! ## Frames on the wire -/

/-- A whole frame is received. -/
lemma recvMessage_whole (hm : m.Fits) (schedule : Stream' ℕ) :
    ∃ s, recvMessage ⟨m.frame, schedule⟩ = (some m, ⟨[], s⟩) := by
  have hbytes : (⟨m.frame, schedule⟩ : ByteChannel).bytes = m.frame ++ [] :=
    (List.append_nil _).symm
  exact recvMessage_frame hm hbytes

/-- A part of a frame cannot be received. -/
lemma recvMessage_part (hm : m.Fits) (hframe : bytes ++ rest = m.frame) (hrest : rest ≠ [])
    (schedule : Stream' ℕ) : (recvMessage ⟨bytes, schedule⟩).1 = none := by
  have hlt : (⟨bytes, schedule⟩ : ByteChannel).bytes.length < m.frame.length := by
    rw [← hframe, List.length_append]
    have := List.length_pos_iff.2 hrest
    show bytes.length < _
    omega
  exact recvMessage_cut hm ⟨rest, hframe⟩ hlt

/-- What is received is the frame, once it is whole. -/
lemma Receives.eq_frame (hm : m.Fits) (hframe : bytes ++ rest = m.frame)
    (h : Receives bytes m' rest') : m' = m ∧ bytes = m.frame ∧ rest = [] ∧ rest' = [] := by
  obtain ⟨schedule, schedule', h⟩ := h
  by_cases hrest : rest = []
  · subst hrest
    rw [List.append_nil] at hframe
    subst hframe
    obtain ⟨s, hs⟩ := recvMessage_whole hm schedule
    obtain ⟨hm', hfd⟩ := Prod.mk.inj (h.symm.trans hs)
    cases hfd
    exact ⟨Option.some.inj hm', rfl, rfl, rfl⟩
  · have hnone := recvMessage_part hm hframe hrest schedule
    rw [h] at hnone
    cases hnone

/-- A whole frame can be received. -/
lemma receives_frame (hm : m.Fits) (schedule : Stream' ℕ) : Receives m.frame m [] := by
  obtain ⟨s, hs⟩ := recvMessage_whole hm schedule
  exact ⟨schedule, s, hs⟩

/-- No message is received from no bytes. -/
lemma not_receives_nil : ¬ Receives [] m rest := by
  intro h
  have hfits : Message.Fits (.terminate, []) := by simp [Message.Fits]
  obtain ⟨-, hnil, -⟩ := h.eq_frame hfits (List.nil_append _)
  have := congrArg List.length hnil
  rw [Message.length_frame] at this
  simp at this

/-- Nothing is received from no bytes. -/
lemma fails_nil (schedule : Stream' ℕ) : Fails [] := by
  have hfits : Message.Fits (.terminate, []) := by simp [Message.Fits]
  refine ⟨schedule, recvMessage_part hfits (List.nil_append _) ?_ schedule⟩
  rw [← List.length_pos_iff, Message.length_frame]
  omega

/-- A frame does not fail to be received. -/
lemma not_fails_frame (hm : m.Fits) : ¬ Fails m.frame := by
  rintro ⟨schedule, h⟩
  obtain ⟨s, hs⟩ := recvMessage_whole hm schedule
  rw [hs] at h
  cases h

/-- What `ReadExact` read is gone from the channel. -/
lemma length_of_readExact {fd fd' : ByteChannel} {len : ℕ} {data : Bytes}
    (h : readExact fd len = (some data, fd')) : fd'.bytes.length + len = fd.bytes.length := by
  by_cases hle : len ≤ fd.bytes.length
  · obtain ⟨s, hs⟩ := readExact_of_le fd len hle
    obtain ⟨-, rfl⟩ := Prod.mk.inj (h.symm.trans hs)
    simp only [List.length_drop]
    omega
  · have hnone := readExact_of_lt fd len (not_le.1 hle)
    rw [h] at hnone
    cases hnone

/-- A message that is received was some bytes long. -/
lemma Receives.length_lt (h : Receives bytes m rest) : rest.length < bytes.length := by
  obtain ⟨schedule, schedule', h⟩ := h
  rw [recvMessage] at h
  split at h
  · cases h
  · rename_i netLen fd₁ h₁
    have hlen₁ := length_of_readExact h₁
    simp only at h hlen₁
    split_ifs at h with hzero hpos
    · cases h
    · split at h
      · cases h
      · rename_i typeByte fd₂ h₂
        have hlen₂ := length_of_readExact h₂
        split at h
        · cases h
        · rename_i data fd₃ h₃
          have hlen₃ := length_of_readExact h₃
          obtain ⟨-, rfl⟩ := Prod.mk.inj h
          simp only at hlen₃
          omega
    · split at h
      · cases h
      · rename_i typeByte fd₂ h₂
        have hlen₂ := length_of_readExact h₂
        obtain ⟨-, rfl⟩ := Prod.mk.inj h
        simp only at hlen₂
        omega

/-! ## The two programs are in step -/

/-- The server has nothing to write and is on its way to receive, or it was stopped. -/
def Listens (c : Connection σ) : Prop :=
  c.server = .looping ∨ c.server = .receiving ∨ c.server = .replying [] ∨
    c.server = .closed ∧ c.running = false

/-- Where the two programs are after a run: `Q` are the statements of the input, `A` the queries
that were asked, `R` the ones that were answered, and `S` the answers that were shown. -/
inductive InStep (Q : List Bytes) (A : List Bytes) (R : List (Bytes × Message)) (S : List Message)
    (c : Connection σ) : Prop
  /-- Nothing is under way. -/
  | idle (hclient : c.client = .prompt) (hup : c.toServer = []) (hdown : c.toClient = [])
      (hserver : c.Listens) (hA : A = R.map Prod.fst) (hS : S = R.map Prod.snd)
      (hQ : A ++ queriesOf c.queryBuf c.lines = Q)
  /-- A query is on its way. -/
  | asking (q rest : Bytes)
      (hclient : c.client = .sending rest false ∨ rest = [] ∧ c.client = .waiting)
      (hfits : Message.Fits (.query, q)) (hup : c.toServer ++ rest = Message.frame (.query, q))
      (hdown : c.toClient = []) (hserver : c.Listens) (hA : A = R.map Prod.fst ++ [q])
      (hS : S = R.map Prod.snd) (hQ : A ++ queriesOf c.queryBuf c.lines = Q)
  /-- An answer is on its way. -/
  | answering (m : Message) (rest : Bytes)
      (hclient : c.client = .sending [] false ∨ c.client = .waiting) (hup : c.toServer = [])
      (hfits : m.Fits) (hserver : c.server = .replying rest ∨ rest = [] ∧ c.Listens)
      (hdown : c.toClient ++ rest = m.frame) (hA : A = R.map Prod.fst)
      (hS : S ++ [m] = R.map Prod.snd) (hQ : A ++ queriesOf c.queryBuf c.lines = Q)
  /-- The client leaves. -/
  | leaving (rest : Bytes)
      (hclient : c.client = .sending rest true ∨ rest = [] ∧ c.client = .closed)
      (hup : c.toServer ++ rest = Message.frame (.terminate, [])) (hserver : c.Listens)
      (hA : A = R.map Prod.fst) (hS : S = R.map Prod.snd) (hQ : A = Q)
  /-- The client has left. -/
  | left (hclient : c.client = .closed ∧ (c.Listens ∨ c.server = .closed) ∨
        c.client = .sending [] true ∧ c.server = .closed)
      (hup : c.toServer = []) (hA : A = R.map Prod.fst) (hS : S = R.map Prod.snd) (hQ : A = Q)
  /-- The client has lost the server, which was stopped. -/
  | gone (hclient : c.client = .closed) (hserver : c.server = .closed)
      (hrunning : c.running = false)
      (hQ : A <+: Q) (hR : R.map Prod.fst <+: A) (hS : S <+: R.map Prod.snd)
      (hlen : A.length ≤ S.length + 1)

section Steps

variable {Q A : List Bytes} {R : List (Bytes × Message)} {S : List Message}

/-- A step of the client at its prompt. -/
lemma InStep.of_prompt (h : InStep Q A R S c) (hclient : c.client = .prompt) :
    c.toServer = [] ∧ c.toClient = [] ∧ c.Listens ∧ A = R.map Prod.fst ∧ S = R.map Prod.snd ∧
      A ++ queriesOf c.queryBuf c.lines = Q := by
  cases h with
  | idle _ hup hdown hserver hA hS hQ => exact ⟨hup, hdown, hserver, hA, hS, hQ⟩
  | asking q rest hc => simp [hclient] at hc
  | answering m rest hc => simp [hclient] at hc
  | leaving rest hc => simp [hclient] at hc
  | left hc => simp [hclient] at hc
  | gone hc => simp [hclient] at hc

/-- A server that listens has nothing to write. -/
lemma Listens.eq_nil (h : c.Listens) (hserver : c.server = .replying rest) : rest = [] := by
  rcases h with h | h | h | ⟨h, -⟩
  · simp [hserver] at h
  · simp [hserver] at h
  · exact ServerState.replying.inj (hserver.symm.trans h)
  · simp [hserver] at h

/-- A server that listens and has closed its end was stopped. -/
lemma Listens.stopped (h : c.Listens) (hserver : c.server = .closed) : c.running = false := by
  rcases h with h | h | h | ⟨-, h⟩
  · simp [hserver] at h
  · simp [hserver] at h
  · simp [hserver] at h
  · exact h

/-- The client writes some bytes of its message. -/
lemma InStep.write {last : Bool} {n : ℕ} (h : InStep Q A R S c)
    (hclient : c.client = .sending rest last) (hn : 0 < n) (hle : n ≤ rest.length) :
    InStep Q A R S
      { c with toServer := c.toServer ++ rest.take n, client := .sending (rest.drop n) last } := by
  cases h with
  | idle hc => simp [hclient] at hc
  | asking q r hc hq hup hdown hserver hA hS hQ =>
    simp only [hclient, ClientState.sending.injEq, reduceCtorEq, and_false, or_false] at hc
    obtain ⟨rfl, rfl⟩ := hc
    refine .asking q _ (.inl rfl) hq ?_ hdown hserver hA hS hQ
    rw [List.append_assoc, List.take_append_drop, hup]
  | answering m r hc =>
    simp only [hclient, ClientState.sending.injEq, reduceCtorEq, or_false] at hc
    simp [hc.1] at hle
    omega
  | leaving r hc hup hserver hA hS hQ =>
    simp only [hclient, ClientState.sending.injEq, reduceCtorEq, and_false, or_false] at hc
    obtain ⟨rfl, rfl⟩ := hc
    refine .leaving _ (.inl rfl) ?_ hserver hA hS hQ
    rw [List.append_assoc, List.take_append_drop, hup]
  | left hc =>
    simp only [hclient, ClientState.sending.injEq, reduceCtorEq, false_and, false_or] at hc
    simp [hc.1.1] at hle
    omega
  | gone hc => simp [hclient] at hc

/-- The client has written its message. -/
lemma InStep.sent {last : Bool} (h : InStep Q A R S c) (hclient : c.client = .sending [] last) :
    InStep Q A R S { c with client := if last then .closed else .waiting } := by
  cases h with
  | idle hc => simp [hclient] at hc
  | asking q rest hc hq hup hdown hserver hA hS hQ =>
    simp only [hclient, ClientState.sending.injEq, reduceCtorEq, and_false, or_false] at hc
    obtain ⟨rfl, rfl⟩ := hc
    exact .asking q [] (.inr ⟨rfl, rfl⟩) hq hup hdown hserver hA hS hQ
  | answering m rest hc hup hm hserver hdown hA hS hQ =>
    simp only [hclient, ClientState.sending.injEq, reduceCtorEq, or_false, true_and] at hc
    subst hc
    exact .answering m rest (.inr rfl) hup hm hserver hdown hA hS hQ
  | leaving rest hc hup hserver hA hS hQ =>
    simp only [hclient, ClientState.sending.injEq, reduceCtorEq, and_false, or_false] at hc
    obtain ⟨rfl, rfl⟩ := hc
    exact .leaving [] (.inr ⟨rfl, rfl⟩) hup hserver hA hS hQ
  | left hc hup hA hS hQ =>
    simp only [hclient, ClientState.sending.injEq, reduceCtorEq, false_and, false_or,
      true_and] at hc
    obtain ⟨rfl, hserver⟩ := hc
    exact .left (.inl ⟨rfl, .inr hserver⟩) hup hA hS hQ
  | gone hc => simp [hclient] at hc

/-- The client loses the server. -/
lemma InStep.lost (h : InStep Q A R S c) (hserver : c.server = .closed)
    (hclient : (∃ rest last, c.client = .sending rest last) ∨
      c.client = .waiting ∧ Fails c.toClient) :
    InStep Q A R S { c with client := .closed } := by
  cases h with
  | idle hc => simp [hc] at hclient
  | asking q rest hc hq hup hdown hlistens hA hS hQ =>
    refine .gone rfl hserver (hlistens.stopped hserver) ⟨_, hQ⟩ ⟨[q], hA.symm⟩ ⟨[], ?_⟩ ?_
    · rw [hS, List.append_nil]
    · rw [hA, hS]
      simp
  | answering m rest hc hup hm hwhere hdown hA hS hQ =>
    have hlistens : c.Listens := by
      rcases hwhere with hreply | ⟨-, hlistens⟩
      · simp [hserver] at hreply
      · exact hlistens
    refine .gone rfl hserver (hlistens.stopped hserver) ⟨_, hQ⟩ ⟨[], ?_⟩ ⟨[m], hS⟩ ?_
    · rw [hA, List.append_nil]
    · have hlen := congrArg List.length hS
      simp only [List.length_append, List.length_singleton, List.length_map] at hlen
      rw [hA, List.length_map]
      omega
  | leaving rest hc hup hlistens hA hS hQ =>
    refine .gone rfl hserver (hlistens.stopped hserver) ⟨[], ?_⟩ ⟨[], ?_⟩ ⟨[], ?_⟩ ?_
    · rw [hQ, List.append_nil]
    · rw [hA, List.append_nil]
    · rw [hS, List.append_nil]
    · rw [hA, hS]
      simp
  | left hc hup hA hS hQ => exact .left (.inl ⟨rfl, .inr hserver⟩) hup hA hS hQ
  | gone hc => simp [hc] at hclient

/-- The server comes to the head of its loop, or it goes on from there, or it stops there. -/
lemma InStep.resume {server : ServerState} (h : InStep Q A R S c)
    (hserver : c.server = .looping ∨ c.server = .replying [])
    (hlistens : Listens { c with server := server }) :
    InStep Q A R S { c with server := server } := by
  have hopen : c.server ≠ .closed := by
    rcases hserver with h | h <;> simp [h]
  cases h with
  | idle hc hup hdown _ hA hS hQ => exact .idle hc hup hdown hlistens hA hS hQ
  | asking q rest hc hq hup hdown _ hA hS hQ =>
    exact .asking q rest hc hq hup hdown hlistens hA hS hQ
  | answering m rest hc hup hm hwhere hdown hA hS hQ =>
    have hnil : rest = [] := by
      rcases hwhere with hreply | ⟨hnil, -⟩
      · rcases hserver with hloop | hdone
        · simp [hreply] at hloop
        · exact ServerState.replying.inj (hreply.symm.trans hdone)
      · exact hnil
    exact .answering m rest hc hup hm (.inr ⟨hnil, hlistens⟩) hdown hA hS hQ
  | leaving rest hc hup _ hA hS hQ => exact .leaving rest hc hup hlistens hA hS hQ
  | left hc hup hA hS hQ =>
    rcases hc with ⟨hc, -⟩ | ⟨-, hclosed⟩
    · exact .left (.inl ⟨hc, .inl hlistens⟩) hup hA hS hQ
    · exact absurd hclosed hopen
  | gone _ hclosed => exact absurd hclosed hopen

/-- The server receives the end of the session. -/
lemma InStep.terminate {data : Bytes} (h : InStep Q A R S c) (hserver : c.server = .receiving)
    (hbytes : Receives c.toServer (.terminate, data) rest) :
    InStep Q A R S { c with toServer := rest, server := .closed } := by
  cases h with
  | idle _ hup => exact absurd (hup ▸ hbytes) not_receives_nil
  | asking q r hc hq hup =>
    obtain ⟨heq, -⟩ := hbytes.eq_frame hq hup
    cases heq
  | answering m r hc hup => exact absurd (hup ▸ hbytes) not_receives_nil
  | leaving r hc hup _ hA hS hQ =>
    obtain ⟨-, -, rfl, rfl⟩ := hbytes.eq_frame (by simp [Message.Fits]) hup
    rcases hc with hc | ⟨-, hc⟩
    · exact .left (.inr ⟨hc, rfl⟩) rfl hA hS hQ
    · exact .left (.inl ⟨hc, .inr rfl⟩) rfl hA hS hQ
  | left _ hup => exact absurd (hup ▸ hbytes) not_receives_nil
  | gone _ hclosed => simp [hserver] at hclosed

/-- The server receives queries and the end of the session only. -/
lemma InStep.not_refuse {type : MessageType} {data : Bytes} (h : InStep Q A R S c)
    (hserver : c.server = .receiving) (hbytes : Receives c.toServer (type, data) rest) :
    type = .query ∨ type = .terminate := by
  cases h with
  | idle _ hup => exact absurd (hup ▸ hbytes) not_receives_nil
  | asking q r hc hq hup =>
    obtain ⟨heq, -⟩ := hbytes.eq_frame hq hup
    exact .inl (Prod.mk.inj heq).1
  | answering m r hc hup => exact absurd (hup ▸ hbytes) not_receives_nil
  | leaving r hc hup =>
    obtain ⟨heq, -⟩ := hbytes.eq_frame (by simp [Message.Fits]) hup
    exact .inr (Prod.mk.inj heq).1
  | left _ hup => exact absurd (hup ▸ hbytes) not_receives_nil
  | gone _ hclosed => simp [hserver] at hclosed

/-- While the server has something to write, an answer is on its way, and the client waits. -/
lemma InStep.of_replying (h : InStep Q A R S c) (hserver : c.server = .replying rest)
    (hrest : rest ≠ []) :
    ∃ m, (c.client = .sending [] false ∨ c.client = .waiting) ∧ c.toServer = [] ∧ m.Fits ∧
      c.toClient ++ rest = m.frame ∧ A = R.map Prod.fst ∧ S ++ [m] = R.map Prod.snd ∧
      A ++ queriesOf c.queryBuf c.lines = Q := by
  cases h with
  | idle _ _ _ hlistens => exact absurd (hlistens.eq_nil hserver) hrest
  | asking _ _ _ _ _ _ hlistens => exact absurd (hlistens.eq_nil hserver) hrest
  | answering m r hc hup hm hwhere hdown hA hS hQ =>
    rcases hwhere with hreply | ⟨-, hlistens⟩
    · obtain rfl := ServerState.replying.inj (hserver.symm.trans hreply)
      exact ⟨m, hc, hup, hm, hdown, hA, hS, hQ⟩
    · exact absurd (hlistens.eq_nil hserver) hrest
  | leaving _ _ _ hlistens => exact absurd (hlistens.eq_nil hserver) hrest
  | left hc =>
    rcases hc with ⟨-, hlistens | hclosed⟩ | ⟨-, hclosed⟩
    · exact absurd (hlistens.eq_nil hserver) hrest
    · simp [hserver] at hclosed
    · simp [hserver] at hclosed
  | gone _ hclosed => simp [hserver] at hclosed

/-- The server finds that the client is gone. -/
lemma InStep.hangUp (h : InStep Q A R S c) (hserver : c.server = .receiving)
    (hclient : c.client = .closed) (hbytes : Fails c.toServer) :
    InStep Q A R S { c with server := .closed } := by
  cases h with
  | idle hc => simp [hclient] at hc
  | asking q rest hc => simp [hclient] at hc
  | answering m rest hc => simp [hclient] at hc
  | leaving rest hc hup =>
    simp only [hclient, reduceCtorEq, and_true, false_or] at hc
    subst hc
    rw [List.append_nil] at hup
    exact absurd (hup ▸ hbytes) (not_fails_frame (by simp [Message.Fits]))
  | left _ hup hA hS hQ => exact .left (.inl ⟨hclient, .inr rfl⟩) hup hA hS hQ
  | gone _ hclosed => simp [hserver] at hclosed

/-- The signal stops nothing by itself. -/
lemma InStep.signal (h : InStep Q A R S c) (hrunning : c.running = true) :
    InStep Q A R S { c with running := false } := by
  have hlistens : c.Listens → Listens { c with running := false } := by
    rintro (h | h | h | ⟨-, h⟩)
    · exact .inl h
    · exact .inr (.inl h)
    · exact .inr (.inr (.inl h))
    · simp [hrunning] at h
  cases h with
  | idle hc hup hdown hl hA hS hQ => exact .idle hc hup hdown (hlistens hl) hA hS hQ
  | asking q rest hc hq hup hdown hl hA hS hQ =>
    exact .asking q rest hc hq hup hdown (hlistens hl) hA hS hQ
  | answering m rest hc hup hm hwhere hdown hA hS hQ =>
    exact .answering m rest hc hup hm (hwhere.imp id (And.imp id hlistens)) hdown hA hS hQ
  | leaving rest hc hup hl hA hS hQ => exact .leaving rest hc hup (hlistens hl) hA hS hQ
  | left hc hup hA hS hQ =>
    exact .left (hc.imp (And.imp id (Or.imp hlistens id)) id) hup hA hS hQ
  | gone _ _ hstopped => simp [hrunning] at hstopped

/-- A step that is not seen keeps the two programs in step. -/
lemma InStep.quiet_step (h : InStep Q A R S c) (hst : Step handles c .quiet c') :
    InStep Q A R S c' := by
  cases hst with
  | readOn hclient hlines hline =>
    obtain ⟨hup, hdown, hserver, hA, hS, hQ⟩ := h.of_prompt hclient
    rw [hlines, queriesOf, hline] at hQ
    exact .idle hclient hup hdown hserver hA hS hQ
  | quit hclient hlines hline =>
    obtain ⟨hup, hdown, hserver, hA, hS, hQ⟩ := h.of_prompt hclient
    rw [hlines, queriesOf, hline, List.append_nil] at hQ
    exact .leaving _ (.inl rfl) (by rw [hup, List.nil_append]) hserver hA hS hQ
  | endOfInput hclient hlines =>
    obtain ⟨hup, hdown, hserver, hA, hS, hQ⟩ := h.of_prompt hclient
    rw [hlines, queriesOf, List.append_nil] at hQ
    exact .left (.inl ⟨rfl, .inl hserver⟩) hup hA hS hQ
  | write hclient hn hle => exact h.write hclient hn hle
  | sent hclient => exact h.sent hclient
  | lost hserver hclient => exact h.lost hserver hclient
  | loop hserver hrunning => exact h.resume (.inl hserver) (.inr (.inl rfl))
  | stop hserver hrunning => exact h.resume (.inl hserver) (.inr (.inr (.inr ⟨rfl, hrunning⟩)))
  | terminate hserver hbytes => exact h.terminate hserver hbytes
  | refuse hserver hbytes htype =>
    rcases h.not_refuse hserver hbytes with hq | ht
    · exact absurd hq htype.1
    · exact absurd ht htype.2
  | reply hserver hn hle =>
    have hrest := List.length_pos_iff.1 (lt_of_lt_of_le hn hle)
    obtain ⟨m, hc, hup, hm, hdown, hA, hS, hQ⟩ := h.of_replying hserver hrest
    refine .answering m _ hc hup hm (.inl rfl) ?_ hA hS hQ
    rw [List.append_assoc, List.take_append_drop, hdown]
  | @replied rest hserver hdone =>
    have hnil : rest = [] := by
      by_contra hrest
      obtain ⟨m, hc, -⟩ := h.of_replying hserver hrest
      rcases hdone with hnil | hclosed
      · exact hrest hnil
      · simp [hclosed] at hc
    exact h.resume (.inr (hnil ▸ hserver)) (.inl rfl)
  | hangUp hserver hclient hbytes => exact h.hangUp hserver hclient hbytes
  | signal hrunning => exact h.signal hrunning

/-- **One step.** Every step keeps the two programs in step, and what is seen of it extends what
was asked, answered and shown. -/
lemma InStep.step (h : InStep Q A R S c) (hst : Step handles c e c')
    (hasked : ∀ q, e = .asked q → Message.Fits (.query, q))
    (hanswered : ∀ q m, e = .answered q m → m.Fits) :
    InStep Q (A ++ ConnectionEvent.queries [e]) (R ++ ConnectionEvent.answers [e])
      (S ++ ConnectionEvent.replies [e]) c' := by
  cases e with
  | quiet =>
    show InStep Q (A ++ []) (R ++ []) (S ++ []) c'
    simp only [List.append_nil]
    exact h.quiet_step hst
  | asked q =>
    show InStep Q (A ++ [q]) (R ++ []) (S ++ []) c'
    simp only [List.append_nil]
    cases hst with
    | ask hclient hlines hline =>
      obtain ⟨hup, hdown, hserver, hA, hS, hQ⟩ := h.of_prompt hclient
      rw [hlines, queriesOf, hline] at hQ
      refine .asking q _ (.inl rfl) (hasked q rfl) ?_ hdown hserver (by rw [hA]) hS ?_
      · rw [hup, List.nil_append]
      · rw [List.append_assoc]
        exact hQ
  | answered q m =>
    show InStep Q (A ++ []) (R ++ [(q, m)]) (S ++ []) c'
    simp only [List.append_nil]
    cases hst with
    | answer hserver hbytes hhandles =>
      cases h with
      | idle _ hup => exact absurd (hup ▸ hbytes) not_receives_nil
      | asking q' r hc hq hup hdown hl hA hS hQ =>
        obtain ⟨heq, -, rfl, rfl⟩ := hbytes.eq_frame hq hup
        obtain rfl := (Prod.mk.inj heq).2
        refine .answering m _ (hc.imp id And.right) rfl (hanswered q m rfl) (.inl rfl) ?_ ?_ ?_ hQ
        · rw [hdown, List.nil_append]
        · rw [hA, List.map_append]
          rfl
        · rw [hS, List.map_append]
          rfl
      | answering m r hc hup => exact absurd (hup ▸ hbytes) not_receives_nil
      | leaving r hc hup =>
        obtain ⟨heq, -⟩ := hbytes.eq_frame (by simp [Message.Fits]) hup
        cases heq
      | left _ hup => exact absurd (hup ▸ hbytes) not_receives_nil
      | gone _ hclosed => simp [hserver] at hclosed
  | shown m =>
    show InStep Q (A ++ []) (R ++ []) (S ++ [m]) c'
    simp only [List.append_nil]
    cases hst with
    | receive hclient hbytes =>
      cases h with
      | idle hc => simp [hclient] at hc
      | asking q r hc hq hup hdown => exact absurd (hdown ▸ hbytes) not_receives_nil
      | answering m' r hc hup hm hwhere hdown hA hS hQ =>
        obtain ⟨rfl, -, rfl, rfl⟩ := hbytes.eq_frame hm hdown
        refine .idle rfl hup rfl ?_ hA hS hQ
        rcases hwhere with hreply | ⟨-, hlistens⟩
        · exact .inr (.inr (.inl hreply))
        · exact hlistens
      | leaving r hc => simp [hclient] at hc
      | left hc => simp [hclient] at hc
      | gone hc => simp [hclient] at hc

/-- What is in step is answered and shown in order. -/
lemma InStep.prefixes (h : InStep Q A R S c) :
    A <+: Q ∧ R.map Prod.fst <+: A ∧ S <+: R.map Prod.snd ∧ A.length ≤ S.length + 1 ∧
      (c.client = .prompt → A.length = S.length) := by
  cases h with
  | idle _ _ _ _ hA hS hQ =>
    refine ⟨⟨_, hQ⟩, ⟨[], ?_⟩, ⟨[], ?_⟩, ?_, fun _ => ?_⟩ <;> simp [hA, hS]
  | asking q rest hc _ _ _ _ hA hS hQ =>
    refine ⟨⟨_, hQ⟩, ⟨[q], hA.symm⟩, ⟨[], ?_⟩, ?_, fun hprompt => ?_⟩
    · simp [hS]
    · simp [hA, hS]
    · simp [hprompt] at hc
  | answering m rest hc _ _ _ _ hA hS hQ =>
    have hlen := congrArg List.length hS
    simp only [List.length_append, List.length_singleton, List.length_map] at hlen
    refine ⟨⟨_, hQ⟩, ⟨[], ?_⟩, ⟨[m], hS⟩, ?_, fun hprompt => ?_⟩
    · simp [hA]
    · rw [hA, List.length_map]
      omega
    · simp [hprompt] at hc
  | leaving rest hc _ _ hA hS hQ =>
    refine ⟨⟨[], ?_⟩, ⟨[], ?_⟩, ⟨[], ?_⟩, ?_, fun _ => ?_⟩ <;> simp [← hQ, hA, hS]
  | left hc _ hA hS hQ =>
    refine ⟨⟨[], ?_⟩, ⟨[], ?_⟩, ⟨[], ?_⟩, ?_, fun _ => ?_⟩ <;> simp [← hQ, hA, hS]
  | gone hc _ _ hQ hR hS hlen =>
    exact ⟨hQ, hR, hS, hlen, fun hprompt => by simp [hprompt] at hc⟩

/-- A server that listens can go on, if what it may receive can be handled. -/
lemma Listens.progress (h : c.Listens)
    (hreceiving : c.server = .receiving → ∃ e c', Step handles c e c' ∧ c'.running = c.running) :
    (∃ e c', Step handles c e c' ∧ c'.running = c.running) ∨ c.server = .closed := by
  rcases h with hserver | hserver | hserver | ⟨hserver, -⟩
  · cases hrunning : c.running with
    | true => exact .inl ⟨_, _, .loop hserver hrunning, hrunning⟩
    | false => exact .inl ⟨_, _, .stop hserver hrunning, hrunning⟩
  · exact .inl (hreceiving hserver)
  · exact .inl ⟨_, _, .replied hserver (.inl rfl), rfl⟩
  · exact .inr hserver

/-- The client can write what it has to write. -/
lemma progress_of_sending {last : Bool} (hclient : c.client = .sending rest last) :
    ∃ e c', Step handles c e c' ∧ c'.running = c.running := by
  cases rest with
  | nil => exact ⟨_, _, .sent hclient, rfl⟩
  | cons b rest => exact ⟨_, _, .write hclient (Nat.succ_pos _) le_rfl, rfl⟩

/-- The client at its prompt can go on. -/
lemma progress_of_prompt (hclient : c.client = .prompt) :
    ∃ e c', Step handles c e c' ∧ c'.running = c.running := by
  cases hlines : c.lines with
  | nil => exact ⟨_, _, .endOfInput hclient hlines, rfl⟩
  | cons line lines =>
    cases hline : replLine c.queryBuf line with
    | mk queryBuf action =>
      cases action with
      | readOn => exact ⟨_, _, .readOn hclient hlines hline, rfl⟩
      | send query => exact ⟨_, _, .ask hclient hlines hline, rfl⟩
      | quit => exact ⟨_, _, .quit hclient hlines hline, rfl⟩

/-- **Progress.** As long as not both programs have closed their ends, one of them can go on, if
the database can handle the next statement of the input. -/
lemma InStep.progress (h : InStep Q A R S c)
    (hhandles : ∀ q, R.map Prod.fst ++ [q] <+: Q → ∃ m s', handles c.db q m s') :
    (∃ e c', Step handles c e c' ∧ c'.running = c.running) ∨
      c.client = .closed ∧ c.server = .closed := by
  have schedule : Stream' ℕ := Stream'.const 0
  cases h with
  | idle hc => exact .inl (progress_of_prompt hc)
  | asking q rest hc hq hup hdown hlistens hA _ hQ =>
    rcases hc with hc | ⟨rfl, hc⟩
    · exact .inl (progress_of_sending hc)
    · rw [List.append_nil] at hup
      have hgo : (∃ e c', Step handles c e c' ∧ c'.running = c.running) ∨ c.server = .closed := by
        refine hlistens.progress fun hserver => ?_
        obtain ⟨m, s', hm⟩ := hhandles q (hA ▸ ⟨_, hQ⟩)
        exact ⟨_, _, .answer hserver (hup ▸ receives_frame hq schedule) hm, rfl⟩
      rcases hgo with hstep | hclosed
      · exact .inl hstep
      · exact .inl ⟨_, _, .lost hclosed (.inr ⟨hc, hdown ▸ fails_nil schedule⟩), rfl⟩
  | answering m rest hc _ hm hwhere hdown =>
    rcases hc with hc | hc
    · exact .inl (progress_of_sending hc)
    · rcases hwhere with hserver | ⟨rfl, -⟩
      · cases rest with
        | nil => exact .inl ⟨_, _, .replied hserver (.inl rfl), rfl⟩
        | cons b rest => exact .inl ⟨_, _, .reply hserver (Nat.succ_pos _) le_rfl, rfl⟩
      · rw [List.append_nil] at hdown
        exact .inl ⟨_, _, .receive hc (hdown ▸ receives_frame hm schedule), rfl⟩
  | leaving rest hc hup hlistens =>
    rcases hc with hc | ⟨rfl, hc⟩
    · exact .inl (progress_of_sending hc)
    · rw [List.append_nil] at hup
      have hfits : Message.Fits (.terminate, []) := by simp [Message.Fits]
      refine (hlistens.progress fun hserver => ?_).imp id fun hclosed => ⟨hc, hclosed⟩
      exact ⟨_, _, .terminate hserver (hup ▸ receives_frame hfits schedule), rfl⟩
  | left hc hup =>
    rcases hc with ⟨hc, hlistens | hclosed⟩ | ⟨hc, -⟩
    · refine (hlistens.progress fun hserver => ?_).imp id fun hclosed => ⟨hc, hclosed⟩
      exact ⟨_, _, .hangUp hserver hc (hup ▸ fails_nil schedule), rfl⟩
    · exact .inr ⟨hc, hclosed⟩
    · exact .inl (progress_of_sending hc)
  | gone hc hserver => exact .inr ⟨hc, hserver⟩

/-- When both programs have closed their ends and no signal came, everything was answered. -/
lemma InStep.complete (h : InStep Q A R S c) (hclient : c.client = .closed)
    (hserver : c.server = .closed) (hrunning : c.running = true) :
    A = Q ∧ R.map Prod.fst = A ∧ S = R.map Prod.snd := by
  cases h with
  | idle hc => simp [hclient] at hc
  | asking q rest hc => simp [hclient] at hc
  | answering m rest hc => simp [hclient] at hc
  | leaving rest hc _ hlistens => simp [hlistens.stopped hserver] at hrunning
  | left hc _ hA hS hQ => exact ⟨hQ, hA.symm, hS⟩
  | gone _ _ hstopped => simp [hstopped] at hrunning

end Steps

/-! ## Every run ends -/

/-- What the steps make smaller: the input that is left, with the place of the client; then the
bytes that the client has to write; then the bytes that the server has to read; and last what the
server does between two messages. -/
def rank (c : Connection σ) : ℕ ×ₗ ℕ ×ₗ ℕ ×ₗ ℕ ×ₗ ℕ :=
  toLex (3 * c.lines.length + c.client.rank + c.running.toNat,
    toLex (c.client.unsent, toLex (c.toServer.length, toLex (c.server.unsent, c.server.rank))))

/-- Every step makes the rank smaller. -/
lemma Step.rank_lt (h : Step handles c e c') : c'.rank < c.rank := by
  cases h with
  | readOn hclient hlines =>
    apply Prod.Lex.toLex_lt_toLex.2
    simp [hlines]
  | ask hclient hlines | quit hclient hlines =>
    apply Prod.Lex.toLex_lt_toLex.2
    simp [hclient, hlines, ClientState.rank]
    omega
  | endOfInput hclient | receive hclient =>
    apply Prod.Lex.toLex_lt_toLex.2
    simp [hclient, ClientState.rank]
  | write hclient hn hle =>
    simp [rank, Prod.Lex.toLex_lt_toLex, hclient, ClientState.rank, ClientState.unsent]
    omega
  | @sent last hclient =>
    apply Prod.Lex.toLex_lt_toLex.2
    cases last <;> simp [hclient, ClientState.rank]
  | lost _ hclient =>
    apply Prod.Lex.toLex_lt_toLex.2
    rcases hclient with ⟨rest, last, hclient⟩ | ⟨hclient, -⟩ <;> simp [hclient, ClientState.rank]
  | loop hserver | stop hserver | hangUp hserver =>
    simp [rank, Prod.Lex.toLex_lt_toLex, hserver, ServerState.rank, ServerState.unsent]
  | answer _ hbytes | terminate _ hbytes | refuse _ hbytes =>
    simp [rank, Prod.Lex.toLex_lt_toLex, hbytes.length_lt]
  | reply hserver hn hle =>
    simp [rank, Prod.Lex.toLex_lt_toLex, hserver, ServerState.rank, ServerState.unsent]
    omega
  | @replied rest hserver =>
    simp [rank, Prod.Lex.toLex_lt_toLex, hserver, ServerState.rank, ServerState.unsent]
    omega
  | signal hrunning =>
    apply Prod.Lex.toLex_lt_toLex.2
    simp [hrunning]

/-- **Every run ends.** There is no infinite sequence of steps of a client and its thread of the
server, in which a query that the database has answered is one step.

**Proof sketch.** Each step makes the rank smaller: the input that is left, then the bytes that are
still to be written or read, then what the server does between two messages. -/
theorem steps_end (handles : σ → Bytes → Message → σ → Prop) :
    WellFounded fun c' c : Connection σ => ∃ e, Step handles c e c' := by
  refine Subrelation.wf ?_ (InvImage.wf rank wellFounded_lt)
  rintro c' c ⟨e, hst⟩
  exact hst.rank_lt

/-! ## Runs -/

/-- A client that has just connected. -/
def start (lines : List Bytes) (db : σ) : Connection σ := { lines := lines, db := db }

/-- Every message of the run fits its four bytes of length. -/
def AllFit (events : List ConnectionEvent) : Prop :=
  (∀ q ∈ ConnectionEvent.queries events, Message.Fits (.query, q)) ∧
    ∀ a ∈ ConnectionEvent.answers events, a.2.Fits

/-- The queries of the first event come first. -/
lemma queries_cons (e : ConnectionEvent) (events : List ConnectionEvent) :
    ConnectionEvent.queries (e :: events) =
      ConnectionEvent.queries [e] ++ ConnectionEvent.queries events :=
  List.filterMap_append (l := [e])

/-- The answers of the first event come first. -/
lemma answers_cons (e : ConnectionEvent) (events : List ConnectionEvent) :
    ConnectionEvent.answers (e :: events) =
      ConnectionEvent.answers [e] ++ ConnectionEvent.answers events :=
  List.filterMap_append (l := [e])

/-- The replies of the first event come first. -/
lemma replies_cons (e : ConnectionEvent) (events : List ConnectionEvent) :
    ConnectionEvent.replies (e :: events) =
      ConnectionEvent.replies [e] ++ ConnectionEvent.replies events :=
  List.filterMap_append (l := [e])

/-- Every run keeps the two programs in step. -/
lemma InStep.run {Q A : List Bytes} {R : List (Bytes × Message)} {S : List Message}
    (h : InStep Q A R S c) (hrun : Transition.Run (Step handles) c events c')
    (hfits : AllFit events) :
    InStep Q (A ++ ConnectionEvent.queries events) (R ++ ConnectionEvent.answers events)
      (S ++ ConnectionEvent.replies events) c' := by
  induction hrun generalizing A R S with
  | nil c => simpa [ConnectionEvent.queries, ConnectionEvent.answers, ConnectionEvent.replies]
      using h
  | @cons c c₁ c₂ e events hst _ ih =>
    obtain ⟨hqueries, hanswers⟩ := hfits
    rw [queries_cons] at hqueries
    rw [answers_cons] at hanswers
    have h₁ := h.step hst
      (fun q he =>
        hqueries q (List.mem_append_left _ (by subst he; exact List.mem_singleton_self q)))
      (fun q m he => hanswers (q, m)
        (List.mem_append_left _ (by subst he; exact List.mem_singleton_self (q, m))))
    have hrest := ih h₁ ⟨fun q hq => hqueries q (List.mem_append_right _ hq),
      fun a ha => hanswers a (List.mem_append_right _ ha)⟩
    rw [queries_cons, answers_cons, replies_cons, ← List.append_assoc, ← List.append_assoc,
      ← List.append_assoc]
    exact hrest

/-- The two programs start in step. -/
lemma inStep_start (lines : List Bytes) (db : σ) :
    InStep (queriesOf [] lines) [] [] [] (start lines db) :=
  .idle rfl rfl rfl (.inl rfl) rfl rfl rfl

/-- What the database goes through while it answers queries. -/
def Handles (handles : σ → Bytes → Message → σ → Prop) (s : σ) (a : Bytes × Message) (s' : σ) :
    Prop := handles s a.1 a.2 s'

/-- The database goes through the queries that were answered. -/
lemma handled_of_run (hrun : Transition.Run (Step handles) c events c') :
    Transition.Run (Handles handles) c.db (ConnectionEvent.answers events) c'.db := by
  induction hrun with
  | nil c => exact .nil c.db
  | @cons c c₁ c₂ e events hst _ ih =>
    rw [answers_cons]
    cases hst with
    | answer _ _ hhandles => exact .cons hhandles ih
    | _ => exact ih

section Sample

/-- The statement `A`, its answer, and the end of the input. -/
def sampleEvents (m : Message) : List ConnectionEvent :=
  [.asked [65], .quiet, .quiet, .quiet, .answered [65] m, .quiet, .quiet, .shown m, .quiet, .quiet,
    .quiet]

/-- The messages of the sample are short enough. -/
lemma sampleEvents_fit (hm : m.Fits) : AllFit (sampleEvents m) := by
  have hquery : Message.Fits (.query, [65]) := by simp [Message.Fits]
  simpa [AllFit, sampleEvents, ConnectionEvent.queries, ConnectionEvent.answers]
    using And.intro hquery hm

/-- The run of these events. -/
lemma sample_run {db db' : σ} (hm : m.Fits) (h : handles db [65] m db') :
    Transition.Run (Step handles) (start [[65, 59]] db) (sampleEvents m)
      { lines := [], client := .closed, server := .closed, db := db' } := by
  have schedule : Stream' ℕ := Stream'.const 0
  have hquery : Message.Fits (.query, [65]) := by simp [Message.Fits]
  have hline : replLine [] [65, 59] = ([], .send [65]) := by decide
  have hlen : 0 < m.frame.length := by
    rw [Message.length_frame]
    omega
  refine .cons (.ask rfl rfl hline) ?_
  refine .cons (.write rfl (by decide) le_rfl) ?_
  simp only [start, List.nil_append, List.take_length, List.drop_length]
  refine .cons (.sent rfl) ?_
  refine .cons (.loop rfl rfl) ?_
  refine .cons (.answer rfl (receives_frame hquery schedule) h) ?_
  refine .cons (.reply rfl hlen le_rfl) ?_
  simp only [List.nil_append, List.take_length, List.drop_length]
  refine .cons (.replied rfl (.inl rfl)) ?_
  refine .cons (.receive rfl (receives_frame hm schedule)) ?_
  refine .cons (.endOfInput rfl rfl) ?_
  refine .cons (.loop rfl rfl) ?_
  exact .cons (.hangUp rfl rfl (fails_nil schedule)) (.nil _)

/-- After the run only the signal can come. -/
lemma running_ne_of_sample {db : σ} {e : ConnectionEvent}
    (hst : Step handles { lines := [], client := .closed, server := .closed, db := db } e c') :
    c'.running ≠ true := by
  cases hst with
  | signal hrunning => simp
  | lost _ hclient => simp at hclient
  | _ => simp_all

/-- A database that counts the queries, and sends each of them back. -/
def echo (s : ℕ) (q : Bytes) (m : Message) (s' : ℕ) : Prop := m = (.result, q) ∧ s' = s + 1

def echoEvents : List ConnectionEvent := sampleEvents (.result, [65])

/-- The messages of the echo are short enough. -/
lemma echoEvents_fit : AllFit echoEvents := sampleEvents_fit (by simp [Message.Fits])

/-- The client of the echo sends a line, gets it back and leaves, and the server stops. -/
lemma echo_run : Transition.Run (Step echo) (start [[65, 59]] 0) echoEvents
    { lines := [], client := .closed, server := .closed, db := 1 } :=
  sample_run (by simp [Message.Fits]) ⟨rfl, rfl⟩

end Sample

section Main

variable {lines : List Bytes} {db : σ}

/-- **Answers in order.** In every run of a client and its thread of the server, whatever the
pieces in which the socket transfers their messages: the queries that were asked are the first
statements of the input; the queries that were answered are the first of these, and the database
went through them in this order; the answers that were shown are the first of the answers; and at
most one query has not got its answer shown, none if the client is at its prompt. -/
theorem answers_in_order (hrun : Transition.Run (Step handles) (start lines db) events c)
    (hfits : AllFit events) :
    ConnectionEvent.queries events <+: queriesOf [] lines ∧
      (ConnectionEvent.answers events).map Prod.fst <+: ConnectionEvent.queries events ∧
      ConnectionEvent.replies events <+: (ConnectionEvent.answers events).map Prod.snd ∧
      (ConnectionEvent.queries events).length ≤ (ConnectionEvent.replies events).length + 1 ∧
      (c.client = .prompt →
        (ConnectionEvent.queries events).length = (ConnectionEvent.replies events).length) ∧
      Transition.Run (Handles handles) db (ConnectionEvent.answers events) c.db := by
  have h := (inStep_start lines db).run hrun hfits
  simp only [List.nil_append] at h
  obtain ⟨hasked, hanswered, hshown, hlen, hprompt⟩ := h.prefixes
  exact ⟨hasked, hanswered, hshown, hlen, hprompt, handled_of_run hrun⟩

/-- One statement. -/
theorem answers_in_order_echo :
    ConnectionEvent.queries echoEvents <+: queriesOf [] [[65, 59]] ∧
      ConnectionEvent.replies echoEvents <+: (ConnectionEvent.answers echoEvents).map Prod.snd ∧
      Transition.Run (Handles echo) 0 (ConnectionEvent.answers echoEvents) 1 := by
  obtain ⟨hasked, -, hshown, -, -, hdb⟩ := answers_in_order echo_run echoEvents_fit
  exact ⟨hasked, hshown, hdb⟩

/-- **Everything is answered.** In a run that has ended, where only the signal that stops the server
could still come, both programs have closed their ends; and if it did not come, then every statement
of the input was asked and answered, and all the answers were shown. This is for a database that
answers each statement of the input, in whatever state the statements before it may leave it. -/
theorem all_answered (hrun : Transition.Run (Step handles) (start lines db) events c)
    (hfits : AllFit events)
    (hhandles : ∀ answered q s, Transition.Run (Handles handles) db answered s →
      answered.map Prod.fst ++ [q] <+: queriesOf [] lines → ∃ m s', handles s q m s')
    (hend : ∀ e c', Step handles c e c' → c'.running ≠ c.running) :
    c.client = .closed ∧ c.server = .closed ∧
      (c.running = true →
        (ConnectionEvent.answers events).map Prod.fst = queriesOf [] lines ∧
        ConnectionEvent.queries events = queriesOf [] lines ∧
        ConnectionEvent.replies events = (ConnectionEvent.answers events).map Prod.snd) := by
  have h := (inStep_start lines db).run hrun hfits
  simp only [List.nil_append] at h
  rcases h.progress fun q hq => hhandles _ q _ (handled_of_run hrun) hq with
    ⟨e, c', hst, hrunning⟩ | ⟨hclient, hserver⟩
  · exact absurd hrunning (hend e c' hst)
  · refine ⟨hclient, hserver, fun hrunning => ?_⟩
    obtain ⟨hA, hR, hS⟩ := h.complete hclient hserver hrunning
    exact ⟨hR.trans hA, hA, hS⟩

end Main

end Connection

end OneBase
