import Assuan.Protocol.State
import Mathlib.Logic.Relation

/-!
# Client and server machines agree over any interleaving

The two machines are joined by two unbounded FIFO queues and move on their own:
responses, inquiry data, `END` and `CAN` may all be in flight at once. `Agree`
lists the configurations this can lead to, each with the shape of both queues;
every step keeps the pair in the list, and in none of them does a machine meet
an event it does not expect.
-/

namespace Assuan

/-! ## §1  The composed system -/

/-- Both machines and the messages in flight, oldest first. `sent` and `taken`
count the responses put into and taken out of the queue so far; `rejection` is
the number of the `ERR` with which the server rejected the greeting. -/
structure Config : Type where
  client : ClientMachine
  server : ServerMachine
  toClient : List LineKind
  toServer : List RequestKind
  sent : ℕ
  taken : ℕ
  rejection : Option ℕ

namespace Config

def initial : Config := ⟨.new, .new, [], [], 0, 0, none⟩

/-- The server is answering the greeting: directly, or after a cancelled
greeting inquiry. -/
def GreetingPending (m : ServerMachine) : Prop :=
  m.state = .greeting ∨ (m.state = .awaitFinal ∧ m.inquiryOrigin = .greeting)

instance (m : ServerMachine) : Decidable (GreetingPending m) := by
  unfold GreetingPending
  infer_instance

/-- One step of either side. A dequeued message is passed on whatever the
machine answers. Neither side calls `invalidate` or `close` by itself. -/
inductive Step : Config → Config → Prop where
  | serverSend {c : Config} (kind : LineKind) (server : ServerMachine)
      (accepted : c.server.sendResponse kind = (.ok (), server)) :
      Step c { c with
        server := server
        toClient := c.toClient ++ [kind]
        sent := c.sent + 1
        rejection :=
          if kind = .err ∧ GreetingPending c.server then some c.sent else c.rejection }
  | clientReceive {c : Config} (kind : LineKind) (rest : List LineKind)
      (head : c.toClient = kind :: rest) :
      Step c { c with
        client := (c.client.receive kind).2
        toClient := rest
        taken := c.taken + 1 }
  | clientCommand {c : Config} (client : ClientMachine)
      (accepted : c.client.beginCommand = (.ok (), client)) :
      Step c { c with client := client, toServer := c.toServer ++ [.command] }
  | clientData {c : Config} (inquiry : c.client.state = .inquiry) :
      Step c { c with toServer := c.toServer ++ [.data] }
  | clientFinish {c : Config} (cancelled : Bool) (client : ClientMachine)
      (accepted : c.client.finishInquiry cancelled = (.ok (), client)) :
      Step c { c with
        client := client
        toServer := c.toServer ++ [if cancelled then .can else .end_] }
  | clientIgnorable {c : Config} (kind : RequestKind)
      (ignorable : kind = .comment ∨ kind = .empty) :
      Step c { c with toServer := c.toServer ++ [kind] }
  | serverReceive {c : Config} (kind : RequestKind) (rest : List RequestKind)
      (head : c.toServer = kind :: rest) :
      Step c { c with server := (c.server.receiveRequest kind).2, toServer := rest }

/-- Reachable from two fresh machines and empty queues. -/
def Reachable (c : Config) : Prop := Relation.ReflTransGen Step initial c

end Config

/-! ## §2  Operations and message classes -/

/-- What a final response completes. -/
inductive Operation : Type where
  | greeting
  | command
deriving DecidableEq

namespace Operation

def client : Operation → ClientState
  | greeting => .greeting
  | command => .command

def server : Operation → ServerState
  | greeting => .greeting
  | command => .handler

theorem client_ne_ready (op : Operation) : op.client ≠ .ready := by
  cases op <;> simp [client]

theorem client_ne_inquiry (op : Operation) : op.client ≠ .inquiry := by
  cases op <;> simp [client]

end Operation

def LineKind.Ignorable (k : LineKind) : Prop := k = .comment ∨ k = .empty

def LineKind.Informational (k : LineKind) : Prop := k = .status ∨ k.Ignorable

/-- Responses that leave an operation where it is. -/
def LineKind.Carried (op : Operation) (k : LineKind) : Prop :=
  k.Informational ∨ (op = .command ∧ (k = .data ∨ k = .end_))

/-- Responses that complete an operation and leave the session usable. -/
def LineKind.Final (op : Operation) (k : LineKind) : Prop :=
  k = .ok ∨ (op = .command ∧ k = .err)

def RequestKind.Ignorable (k : RequestKind) : Prop := k = .comment ∨ k = .empty

/-- Requests that leave an inquiry open. -/
def RequestKind.Answer (k : RequestKind) : Prop := k = .data ∨ k.Ignorable

theorem LineKind.Ignorable.informational {k : LineKind} (h : k.Ignorable) : k.Informational :=
  Or.inr h

theorem LineKind.Informational.carried {k : LineKind} (h : k.Informational) (op : Operation) :
    k.Carried op := Or.inl h

theorem RequestKind.Ignorable.answer {k : RequestKind} (h : k.Ignorable) : k.Answer := Or.inr h

/-! ## §3  What each machine does in each phase -/

section Server

variable {op : Operation} {origin : ServerState} {kind : LineKind} {m : ServerMachine}

theorem sendResponse_active
    (h : ServerMachine.sendResponse ⟨op.server, origin⟩ kind = (.ok (), m)) :
    (kind.Carried op ∧ m = ⟨op.server, origin⟩) ∨
    (kind = .inquire ∧ m = ⟨.inquiry, op.server⟩) ∨
    (kind.Final op ∧ m = ⟨.ready, origin⟩) ∨
    (op = .greeting ∧ kind = .err ∧ m = ⟨.invalid, origin⟩) := by
  cases op <;> cases kind <;>
    simp_all [ServerMachine.sendResponse, Operation.server, LineKind.Carried,
      LineKind.Informational, LineKind.Ignorable, LineKind.Final, ServerMachine.invalidate]

theorem sendResponse_inquiry
    (h : ServerMachine.sendResponse ⟨.inquiry, origin⟩ kind = (.ok (), m)) :
    kind.Informational ∧ m = ⟨.inquiry, origin⟩ := by
  cases kind <;>
    simp_all [ServerMachine.sendResponse, LineKind.Informational, LineKind.Ignorable]

theorem sendResponse_awaitFinal
    (h : ServerMachine.sendResponse ⟨.awaitFinal, op.server⟩ kind = (.ok (), m)) :
    (kind.Informational ∧ m = ⟨.awaitFinal, op.server⟩) ∨
    (kind.Final op ∧ m = ⟨.ready, op.server⟩) ∨
    (op = .greeting ∧ kind = .err ∧ m = ⟨.invalid, op.server⟩) := by
  cases op <;> cases kind <;>
    simp_all [ServerMachine.sendResponse, Operation.server, LineKind.Informational,
      LineKind.Ignorable, LineKind.Final, ServerMachine.invalidate]

theorem sendResponse_ready
    (h : ServerMachine.sendResponse ⟨.ready, origin⟩ kind = (.ok (), m)) :
    kind.Ignorable ∧ m = ⟨.ready, origin⟩ := by
  cases kind <;> simp_all [ServerMachine.sendResponse, LineKind.Ignorable]

theorem sendResponse_invalid :
    ServerMachine.sendResponse ⟨.invalid, origin⟩ kind ≠ (.ok (), m) := by
  cases kind <;> simp [ServerMachine.sendResponse]

theorem receiveRequest_ignorable {request : RequestKind} (h : request.Ignorable)
    (hi : m.state ≠ .invalid) (hc : m.state ≠ .closed) :
    m.receiveRequest request = (.ok (), m) := by
  obtain ⟨state, origin⟩ := m
  rcases h with rfl | rfl <;> cases state <;> simp_all [ServerMachine.receiveRequest]

theorem receiveRequest_answer {request : RequestKind} (h : request.Answer) :
    ServerMachine.receiveRequest ⟨.inquiry, origin⟩ request = (.ok (), ⟨.inquiry, origin⟩) := by
  rcases h with rfl | h
  · rfl
  · exact receiveRequest_ignorable h (by simp) (by simp)

theorem receiveRequest_active {request : RequestKind} (h : request.Ignorable) :
    ServerMachine.receiveRequest ⟨op.server, origin⟩ request =
      (.ok (), ⟨op.server, origin⟩) := by
  refine receiveRequest_ignorable h ?_ ?_ <;> cases op <;> simp [Operation.server]

theorem receiveRequest_invalid {request : RequestKind} :
    ServerMachine.receiveRequest ⟨.invalid, origin⟩ request =
      (.error .unusable, ⟨.invalid, origin⟩) := by
  cases request <;> rfl

end Server

section Client

variable {op : Operation} {origin : ClientState} {kind : LineKind}

theorem receive_carried (h : kind.Carried op) :
    ClientMachine.receive ⟨op.client, origin⟩ kind = (.ok (), ⟨op.client, origin⟩) := by
  rcases h with (rfl | rfl | rfl) | ⟨rfl, rfl | rfl⟩
  · cases op <;> rfl
  · cases op <;> rfl
  · cases op <;> rfl
  · rfl
  · rfl

theorem receive_inquire :
    ClientMachine.receive ⟨op.client, origin⟩ .inquire = (.ok (), ⟨.inquiry, op.client⟩) := by
  cases op <;> rfl

theorem receive_final (h : kind.Final op) :
    ClientMachine.receive ⟨op.client, origin⟩ kind = (.ok (), ⟨.ready, origin⟩) := by
  rcases h with rfl | ⟨rfl, rfl⟩
  · cases op <;> rfl
  · rfl

theorem receive_inquiry (h : kind.Informational) :
    ClientMachine.receive ⟨.inquiry, origin⟩ kind = (.ok (), ⟨.inquiry, origin⟩) := by
  rcases h with rfl | rfl | rfl <;> rfl

theorem receive_awaitFinal (h : kind.Informational) :
    ClientMachine.receive ⟨.awaitFinal, origin⟩ kind = (.ok (), ⟨.awaitFinal, origin⟩) := by
  rcases h with rfl | rfl | rfl <;> rfl

theorem receive_awaitFinal_final (h : kind.Final op) :
    ClientMachine.receive ⟨.awaitFinal, op.client⟩ kind = (.ok (), ⟨.ready, op.client⟩) := by
  rcases h with rfl | ⟨rfl, rfl⟩
  · cases op <;> rfl
  · rfl

theorem receive_ready (h : kind.Ignorable) :
    ClientMachine.receive ⟨.ready, origin⟩ kind = (.ok (), ⟨.ready, origin⟩) := by
  rcases h with rfl | rfl <;> rfl

theorem receive_command_ignorable (h : kind.Ignorable) :
    ClientMachine.receive ⟨.command, origin⟩ kind = (.ok (), ⟨.command, origin⟩) :=
  receive_carried (h.informational.carried .command)

/-- The client still waits for the answer to its greeting. -/
def ClientMachine.GreetingOpen (m : ClientMachine) : Prop :=
  m.state = .greeting ∨ (m.state = .awaitFinal ∧ m.inquiryOrigin = .greeting)

theorem receive_greeting_pending {m : ClientMachine} (hm : m.GreetingOpen)
    (h : kind.Informational) : m.receive kind = (.ok (), m) := by
  obtain ⟨state, origin⟩ := m
  rcases hm with rfl | ⟨rfl, -⟩
  · exact receive_carried (h.carried .greeting)
  · exact receive_awaitFinal h

theorem receive_rejection {m : ClientMachine} (hm : m.GreetingOpen) :
    ∃ origin, m.receive .err = (.error .greetingRejected, ⟨.invalid, origin⟩) := by
  obtain ⟨state, origin⟩ := m
  rcases hm with rfl | ⟨rfl, rfl⟩
  · exact ⟨origin, rfl⟩
  · exact ⟨.greeting, rfl⟩

end Client

/-! ## §4  The configurations -/

/-- Every message of a queue is in a class. -/
abbrev All {α : Type} (P : α → Prop) (queue : List α) : Prop := ∀ k ∈ queue, P k

/-- The phases of the pair, with the shape of both queues: `q` holds the
responses in flight, `r` the requests in flight. -/
inductive Agree (taken : ℕ) : ClientMachine → ServerMachine → List LineKind →
    List RequestKind → Option ℕ → Prop where
  /-- Both ends are inside `op`. -/
  | working {op : Operation} {co so q r} (hq : All (LineKind.Carried op) q)
      (hr : All RequestKind.Ignorable r) :
      Agree taken ⟨op.client, co⟩ ⟨op.server, so⟩ q r none
  /-- `INQUIRE` is in flight. -/
  | asking {op : Operation} {co pre post r} (hpre : All (LineKind.Carried op) pre)
      (hpost : All LineKind.Informational post) (hr : All RequestKind.Ignorable r) :
      Agree taken ⟨op.client, co⟩ ⟨.inquiry, op.server⟩ (pre ++ .inquire :: post) r none
  | answering {op : Operation} {q r} (hq : All LineKind.Informational q)
      (hr : All RequestKind.Answer r) :
      Agree taken ⟨.inquiry, op.client⟩ ⟨.inquiry, op.server⟩ q r none
  /-- `END` is in flight. -/
  | ended {op : Operation} {co q pre post} (hq : All LineKind.Informational q)
      (hpre : All RequestKind.Answer pre) (hpost : All RequestKind.Ignorable post) :
      Agree taken ⟨op.client, co⟩ ⟨.inquiry, op.server⟩ q (pre ++ .end_ :: post) none
  /-- `CAN` is in flight. -/
  | cancelled {op : Operation} {q pre post} (hq : All LineKind.Informational q)
      (hpre : All RequestKind.Answer pre) (hpost : All RequestKind.Ignorable post) :
      Agree taken ⟨.awaitFinal, op.client⟩ ⟨.inquiry, op.server⟩ q (pre ++ .can :: post) none
  | awaiting {op : Operation} {q r} (hq : All LineKind.Informational q)
      (hr : All RequestKind.Ignorable r) :
      Agree taken ⟨.awaitFinal, op.client⟩ ⟨.awaitFinal, op.server⟩ q r none
  /-- The final response of `op` is in flight. -/
  | finishing {op : Operation} {co so pre final post r} (hpre : All (LineKind.Carried op) pre)
      (hfinal : LineKind.Final op final) (hpost : All LineKind.Ignorable post)
      (hr : All RequestKind.Ignorable r) :
      Agree taken ⟨op.client, co⟩ ⟨.ready, so⟩ (pre ++ final :: post) r none
  /-- The final response after `CAN` is in flight. -/
  | finishingCancelled {op : Operation} {so pre final post r}
      (hpre : All LineKind.Informational pre) (hfinal : LineKind.Final op final)
      (hpost : All LineKind.Ignorable post) (hr : All RequestKind.Ignorable r) :
      Agree taken ⟨.awaitFinal, op.client⟩ ⟨.ready, so⟩ (pre ++ final :: post) r none
  | ready {co so q r} (hq : All LineKind.Ignorable q) (hr : All RequestKind.Ignorable r) :
      Agree taken ⟨.ready, co⟩ ⟨.ready, so⟩ q r none
  /-- A command is in flight. -/
  | requested {co so q pre post} (hq : All LineKind.Ignorable q)
      (hpre : All RequestKind.Ignorable pre) (hpost : All RequestKind.Ignorable post) :
      Agree taken ⟨.command, co⟩ ⟨.ready, so⟩ q (pre ++ .command :: post) none
  /-- The `ERR` that rejects the greeting is in flight, and it is the last
  response. -/
  | rejecting {client : ClientMachine} {so pre r} (hclient : client.GreetingOpen)
      (hpre : All LineKind.Informational pre) (hr : All RequestKind.Ignorable r) :
      Agree taken client ⟨.invalid, so⟩ (pre ++ [.err]) r (some (taken + pre.length))
  | rejected {co so r i} (hi : i < taken) (hr : All RequestKind.Ignorable r) :
      Agree taken ⟨.invalid, co⟩ ⟨.invalid, so⟩ [] r (some i)

theorem All.snoc {α : Type} {P : α → Prop} {queue : List α} {k : α} (h : All P queue)
    (hk : P k) : All P (queue ++ [k]) := by
  intro x hx
  rcases List.mem_append.mp hx with hx | hx
  · exact h x hx
  · rw [List.mem_singleton.mp hx]
    exact hk

theorem All.mono {α : Type} {P Q : α → Prop} {queue : List α} (h : All P queue)
    (himp : ∀ k, P k → Q k) : All Q queue := fun k hk => himp k (h k hk)

theorem all_nil {α : Type} (P : α → Prop) : All P [] := fun _ hk => absurd hk List.not_mem_nil

theorem All.head {α : Type} {P : α → Prop} {k : α} {queue : List α} (h : All P (k :: queue)) :
    P k := h k List.mem_cons_self

theorem All.tail {α : Type} {P : α → Prop} {k : α} {queue : List α} (h : All P (k :: queue)) :
    All P queue := fun x hx => h x (List.mem_cons_of_mem _ hx)

/-! Only an `ERR` that answers a pending greeting changes `rejection`. -/

theorem LineKind.Carried.not_rejection {op : Operation} {kind : LineKind}
    (h : LineKind.Carried op kind) (m : ServerMachine) :
    ¬ (kind = .err ∧ Config.GreetingPending m) := by
  rcases h with (rfl | rfl | rfl) | ⟨-, rfl | rfl⟩ <;> simp

theorem LineKind.Final.not_rejection {op : Operation} {kind : LineKind} {m : ServerMachine}
    (h : LineKind.Final op kind) (hm : Config.GreetingPending m → op = .greeting) :
    ¬ (kind = .err ∧ Config.GreetingPending m) := by
  rintro ⟨hk, hp⟩
  rcases h with rfl | ⟨rfl, -⟩
  · exact absurd hk (by simp)
  · exact absurd (hm hp) (by simp)

section Phases

variable {taken : ℕ} {client : ClientMachine} {server : ServerMachine} {q : List LineKind}
  {r : List RequestKind} {rejection : Option ℕ}

/-- The response queue grows by one accepted response. -/
theorem Agree.serverSend {sent : ℕ} {server' : ServerMachine} {kind : LineKind}
    (h : Agree taken client server q r rejection) (hsent : sent = taken + q.length)
    (accepted : server.sendResponse kind = (.ok (), server')) :
    Agree taken client server' (q ++ [kind]) r
      (if kind = .err ∧ Config.GreetingPending server then some sent else rejection) := by
  cases h with
  | @working op co so _ _ hq hr =>
      rcases sendResponse_active accepted with ⟨hk, rfl⟩ | ⟨rfl, rfl⟩ | ⟨hk, rfl⟩ | ⟨rfl, rfl, rfl⟩
      · rw [if_neg (hk.not_rejection _)]
        exact .working (hq.snoc hk) hr
      · rw [if_neg (by simp)]
        exact .asking hq (all_nil _) hr
      · rw [if_neg (hk.not_rejection (by
          cases op <;> simp [Config.GreetingPending, Operation.server]))]
        exact .finishing hq hk (all_nil _) hr
      · rw [if_pos ⟨rfl, Or.inl rfl⟩, hsent]
        refine .rejecting (Or.inl rfl) (hq.mono fun k hk => ?_) hr
        rcases hk with hk | ⟨hop, -⟩
        · exact hk
        · exact absurd hop (by simp)
  | asking hpre hpost hr =>
      obtain ⟨hk, rfl⟩ := sendResponse_inquiry accepted
      rw [if_neg ((hk.carried .greeting).not_rejection _), List.append_assoc]
      exact .asking hpre (hpost.snoc hk) hr
  | answering hq hr =>
      obtain ⟨hk, rfl⟩ := sendResponse_inquiry accepted
      rw [if_neg ((hk.carried .greeting).not_rejection _)]
      exact .answering (hq.snoc hk) hr
  | ended hq hpre hpost =>
      obtain ⟨hk, rfl⟩ := sendResponse_inquiry accepted
      rw [if_neg ((hk.carried .greeting).not_rejection _)]
      exact .ended (hq.snoc hk) hpre hpost
  | cancelled hq hpre hpost =>
      obtain ⟨hk, rfl⟩ := sendResponse_inquiry accepted
      rw [if_neg ((hk.carried .greeting).not_rejection _)]
      exact .cancelled (hq.snoc hk) hpre hpost
  | @awaiting op _ _ hq hr =>
      rcases sendResponse_awaitFinal accepted with ⟨hk, rfl⟩ | ⟨hk, rfl⟩ | ⟨rfl, rfl, rfl⟩
      · rw [if_neg ((hk.carried .greeting).not_rejection _)]
        exact .awaiting (hq.snoc hk) hr
      · rw [if_neg (hk.not_rejection (by
          cases op <;> simp [Config.GreetingPending, Operation.server]))]
        exact .finishingCancelled hq hk (all_nil _) hr
      · rw [if_pos ⟨rfl, Or.inr ⟨rfl, rfl⟩⟩, hsent]
        exact .rejecting (Or.inr ⟨rfl, rfl⟩) hq hr
  | finishing hpre hfinal hpost hr =>
      obtain ⟨hk, rfl⟩ := sendResponse_ready accepted
      rw [if_neg (by simp [Config.GreetingPending]), List.append_assoc]
      exact .finishing hpre hfinal (hpost.snoc hk) hr
  | finishingCancelled hpre hfinal hpost hr =>
      obtain ⟨hk, rfl⟩ := sendResponse_ready accepted
      rw [if_neg (by simp [Config.GreetingPending]), List.append_assoc]
      exact .finishingCancelled hpre hfinal (hpost.snoc hk) hr
  | ready hq hr =>
      obtain ⟨hk, rfl⟩ := sendResponse_ready accepted
      rw [if_neg (by simp [Config.GreetingPending])]
      exact .ready (hq.snoc hk) hr
  | requested hq hpre hpost =>
      obtain ⟨hk, rfl⟩ := sendResponse_ready accepted
      rw [if_neg (by simp [Config.GreetingPending])]
      exact .requested (hq.snoc hk) hpre hpost
  | rejecting hclient hpre hr => exact absurd accepted sendResponse_invalid
  | rejected hi hr => exact absurd accepted sendResponse_invalid

/-- What a dequeued response may answer: `Ok`, or the rejection of the greeting
by the response itself. -/
def ResponseOutcome (taken : ℕ) (rejection : Option ℕ) (kind : LineKind)
    (result : Except StateError Unit) : Prop :=
  result = .ok () ∨
  (result = .error .greetingRejected ∧ kind = .err ∧ rejection = some taken)

/-- The client takes the oldest response. -/
theorem Agree.clientReceive {kind : LineKind}
    (h : Agree taken client server (kind :: q) r rejection) :
    ResponseOutcome taken rejection kind (client.receive kind).1 ∧
    Agree (taken + 1) (client.receive kind).2 server q r rejection := by
  -- each phase says what may be at the head of the queue
  generalize hqueue : kind :: q = queue at h
  cases h with
  | working hq hr =>
      subst hqueue
      rw [receive_carried hq.head]
      exact ⟨Or.inl rfl, .working hq.tail hr⟩
  | @asking op co pre post _ hpre hpost hr =>
      cases pre with
      | nil =>
          obtain ⟨rfl, rfl⟩ := List.cons.inj hqueue
          rw [receive_inquire]
          exact ⟨Or.inl rfl, .answering hpost (hr.mono fun _ hk => hk.answer)⟩
      | cons k pre =>
          obtain ⟨rfl, rfl⟩ := List.cons.inj hqueue
          rw [receive_carried hpre.head]
          exact ⟨Or.inl rfl, .asking hpre.tail hpost hr⟩
  | answering hq hr =>
      subst hqueue
      rw [receive_inquiry hq.head]
      exact ⟨Or.inl rfl, .answering hq.tail hr⟩
  | ended hq hpre hpost =>
      subst hqueue
      rw [receive_carried (hq.head.carried _)]
      exact ⟨Or.inl rfl, .ended hq.tail hpre hpost⟩
  | cancelled hq hpre hpost =>
      subst hqueue
      rw [receive_awaitFinal hq.head]
      exact ⟨Or.inl rfl, .cancelled hq.tail hpre hpost⟩
  | awaiting hq hr =>
      subst hqueue
      rw [receive_awaitFinal hq.head]
      exact ⟨Or.inl rfl, .awaiting hq.tail hr⟩
  | @finishing op co so pre final post _ hpre hfinal hpost hr =>
      cases pre with
      | nil =>
          obtain ⟨rfl, rfl⟩ := List.cons.inj hqueue
          rw [receive_final hfinal]
          exact ⟨Or.inl rfl, .ready hpost hr⟩
      | cons k pre =>
          obtain ⟨rfl, rfl⟩ := List.cons.inj hqueue
          rw [receive_carried hpre.head]
          exact ⟨Or.inl rfl, .finishing hpre.tail hfinal hpost hr⟩
  | @finishingCancelled op so pre final post _ hpre hfinal hpost hr =>
      cases pre with
      | nil =>
          obtain ⟨rfl, rfl⟩ := List.cons.inj hqueue
          rw [receive_awaitFinal_final hfinal]
          exact ⟨Or.inl rfl, .ready hpost hr⟩
      | cons k pre =>
          obtain ⟨rfl, rfl⟩ := List.cons.inj hqueue
          rw [receive_awaitFinal hpre.head]
          exact ⟨Or.inl rfl, .finishingCancelled hpre.tail hfinal hpost hr⟩
  | ready hq hr =>
      subst hqueue
      rw [receive_ready hq.head]
      exact ⟨Or.inl rfl, .ready hq.tail hr⟩
  | requested hq hpre hpost =>
      subst hqueue
      rw [receive_command_ignorable hq.head]
      exact ⟨Or.inl rfl, .requested hq.tail hpre hpost⟩
  | @rejecting client so pre _ hclient hpre hr =>
      cases pre with
      | nil =>
          obtain ⟨rfl, rfl⟩ := List.cons.inj hqueue
          obtain ⟨origin, hreceive⟩ := receive_rejection hclient
          rw [hreceive]
          exact ⟨Or.inr ⟨rfl, rfl, rfl⟩, .rejected (Nat.lt_succ_self _) hr⟩
      | cons k pre =>
          obtain ⟨rfl, rfl⟩ := List.cons.inj hqueue
          rw [receive_greeting_pending hclient hpre.head]
          refine ⟨Or.inl rfl, ?_⟩
          have hcount : taken + (kind :: pre).length = taken + 1 + pre.length := by
            simp only [List.length_cons]
            omega
          rw [hcount]
          exact .rejecting hclient hpre.tail hr
  | rejected hi hr => exact absurd hqueue (by simp)

/-- What a dequeued request may answer: `Ok`, or `Unusable` once the server has
rejected the greeting. -/
def RequestOutcome (rejection : Option ℕ) (result : Except StateError Unit) : Prop :=
  result = .ok () ∨ (result = .error .unusable ∧ rejection.isSome)

/-- The server takes the oldest request. -/
theorem Agree.serverReceive {request : RequestKind}
    (h : Agree taken client server q (request :: r) rejection) :
    RequestOutcome rejection (server.receiveRequest request).1 ∧
    Agree taken client (server.receiveRequest request).2 q r rejection := by
  -- each phase says what the server may be asked
  generalize hqueue : request :: r = queue at h
  cases h with
  | working hq hr =>
      subst hqueue
      rw [receiveRequest_active hr.head]
      exact ⟨Or.inl rfl, .working hq hr.tail⟩
  | asking hpre hpost hr =>
      subst hqueue
      rw [receiveRequest_answer hr.head.answer]
      exact ⟨Or.inl rfl, .asking hpre hpost hr.tail⟩
  | answering hq hr =>
      subst hqueue
      rw [receiveRequest_answer hr.head]
      exact ⟨Or.inl rfl, .answering hq hr.tail⟩
  | @ended op co _ pre post hq hpre hpost =>
      cases pre with
      | nil =>
          obtain ⟨rfl, rfl⟩ := List.cons.inj hqueue
          exact ⟨Or.inl rfl, .working (hq.mono fun _ hk => hk.carried op) hpost⟩
      | cons k pre =>
          obtain ⟨rfl, rfl⟩ := List.cons.inj hqueue
          rw [receiveRequest_answer hpre.head]
          exact ⟨Or.inl rfl, .ended hq hpre.tail hpost⟩
  | @cancelled op _ pre post hq hpre hpost =>
      cases pre with
      | nil =>
          obtain ⟨rfl, rfl⟩ := List.cons.inj hqueue
          exact ⟨Or.inl rfl, .awaiting hq hpost⟩
      | cons k pre =>
          obtain ⟨rfl, rfl⟩ := List.cons.inj hqueue
          rw [receiveRequest_answer hpre.head]
          exact ⟨Or.inl rfl, .cancelled hq hpre.tail hpost⟩
  | awaiting hq hr =>
      subst hqueue
      rw [receiveRequest_ignorable hr.head (by simp) (by simp)]
      exact ⟨Or.inl rfl, .awaiting hq hr.tail⟩
  | finishing hpre hfinal hpost hr =>
      subst hqueue
      rw [receiveRequest_ignorable hr.head (by simp) (by simp)]
      exact ⟨Or.inl rfl, .finishing hpre hfinal hpost hr.tail⟩
  | finishingCancelled hpre hfinal hpost hr =>
      subst hqueue
      rw [receiveRequest_ignorable hr.head (by simp) (by simp)]
      exact ⟨Or.inl rfl, .finishingCancelled hpre hfinal hpost hr.tail⟩
  | ready hq hr =>
      subst hqueue
      rw [receiveRequest_ignorable hr.head (by simp) (by simp)]
      exact ⟨Or.inl rfl, .ready hq hr.tail⟩
  | @requested co so _ pre post hq hpre hpost =>
      cases pre with
      | nil =>
          obtain ⟨rfl, rfl⟩ := List.cons.inj hqueue
          have hcarried : All (LineKind.Carried .command) q :=
            hq.mono fun _ hk => hk.informational.carried .command
          exact ⟨Or.inl rfl, .working hcarried hpost⟩
      | cons k pre =>
          obtain ⟨rfl, rfl⟩ := List.cons.inj hqueue
          rw [receiveRequest_ignorable hpre.head (by simp) (by simp)]
          exact ⟨Or.inl rfl, .requested hq hpre.tail hpost⟩
  | rejecting hclient hpre hr =>
      subst hqueue
      rw [receiveRequest_invalid]
      exact ⟨Or.inr ⟨rfl, rfl⟩, .rejecting hclient hpre hr.tail⟩
  | rejected hi hr =>
      subst hqueue
      rw [receiveRequest_invalid]
      exact ⟨Or.inr ⟨rfl, rfl⟩, .rejected hi hr.tail⟩

/-! ## §5  Requests the client may add -/

/-- A comment or an empty line may join the requests in any phase. -/
theorem Agree.clientIgnorable {request : RequestKind}
    (h : Agree taken client server q r rejection) (hk : request.Ignorable) :
    Agree taken client server q (r ++ [request]) rejection := by
  cases h with
  | working hq hr => exact .working hq (hr.snoc hk)
  | asking hpre hpost hr => exact .asking hpre hpost (hr.snoc hk)
  | answering hq hr => exact .answering hq (hr.snoc hk.answer)
  | ended hq hpre hpost =>
      rw [List.append_assoc]
      exact .ended hq hpre (hpost.snoc hk)
  | cancelled hq hpre hpost =>
      rw [List.append_assoc]
      exact .cancelled hq hpre (hpost.snoc hk)
  | awaiting hq hr => exact .awaiting hq (hr.snoc hk)
  | finishing hpre hfinal hpost hr => exact .finishing hpre hfinal hpost (hr.snoc hk)
  | finishingCancelled hpre hfinal hpost hr =>
      exact .finishingCancelled hpre hfinal hpost (hr.snoc hk)
  | ready hq hr => exact .ready hq (hr.snoc hk)
  | requested hq hpre hpost =>
      rw [List.append_assoc]
      exact .requested hq hpre (hpost.snoc hk)
  | rejecting hclient hpre hr => exact .rejecting hclient hpre (hr.snoc hk)
  | rejected hi hr => exact .rejected hi (hr.snoc hk)

/-- A ready client stands opposite a ready server, with nothing but comments and
empty lines in flight. -/
theorem Agree.ready_inv (h : Agree taken client server q r rejection)
    (hready : client.state = .ready) :
    server.state = .ready ∧ All LineKind.Ignorable q ∧ All RequestKind.Ignorable r ∧
      rejection = none := by
  cases h with
  | working | asking | ended | finishing =>
      exact absurd hready (Operation.client_ne_ready _)
  | ready hq hr => exact ⟨rfl, hq, hr, rfl⟩
  | rejecting hclient => rcases hclient with hc | ⟨hc, -⟩ <;> simp [hc] at hready
  | answering | cancelled | awaiting | finishingCancelled | requested | rejected =>
      simp at hready

/-- A client inside an inquiry has met the server's `INQUIRE`. -/
theorem Agree.inquiry_inv (h : Agree taken client server q r rejection)
    (hinquiry : client.state = .inquiry) :
    ∃ op : Operation, client = ⟨.inquiry, op.client⟩ ∧ server = ⟨.inquiry, op.server⟩ ∧
      All LineKind.Informational q ∧ All RequestKind.Answer r ∧ rejection = none := by
  cases h with
  | working | asking | ended | finishing =>
      exact absurd hinquiry (Operation.client_ne_inquiry _)
  | @answering op _ _ hq hr => exact ⟨op, rfl, rfl, hq, hr, rfl⟩
  | rejecting hclient => rcases hclient with hc | ⟨hc, -⟩ <;> simp [hc] at hinquiry
  | ready | cancelled | awaiting | finishingCancelled | requested | rejected =>
      simp at hinquiry

theorem Agree.rejection_lt (h : Agree taken client server q r rejection) {i : ℕ}
    (hi : rejection = some i) : i < taken + q.length := by
  cases h with
  | rejecting hclient hpre hr =>
      obtain rfl := Option.some.inj hi
      simp only [List.length_append, List.length_singleton]
      omega
  | rejected hlt hr =>
      obtain rfl := Option.some.inj hi
      exact hlt
  | _ => exact absurd hi (by simp)

end Phases

/-! ## §6  Every reachable configuration agrees -/

namespace Config

/-- The invariant: the pair is in one of the phases, and the counters number the
responses in flight. -/
structure Consistent (c : Config) : Prop where
  agree : Agree c.taken c.client c.server c.toClient c.toServer c.rejection
  count : c.sent = c.taken + c.toClient.length

theorem consistent_initial : Consistent initial :=
  ⟨.working (all_nil (LineKind.Carried .greeting)) (all_nil _), rfl⟩

theorem beginCommand_eq_ok {m m' : ClientMachine} (h : m.beginCommand = (.ok (), m')) :
    m.state = .ready ∧ m' = ⟨.command, m.inquiryOrigin⟩ := by
  obtain ⟨state, origin⟩ := m
  cases state <;> simp_all [ClientMachine.beginCommand]

theorem finishInquiry_eq_ok {m m' : ClientMachine} {cancelled : Bool}
    (h : m.finishInquiry cancelled = (.ok (), m')) :
    m.state = .inquiry ∧
      m' = ⟨if cancelled then .awaitFinal else m.inquiryOrigin, m.inquiryOrigin⟩ := by
  obtain ⟨state, origin⟩ := m
  cases state <;> simp_all [ClientMachine.finishInquiry]

theorem Consistent.step {c c' : Config} (h : Consistent c) (hstep : Step c c') :
    Consistent c' := by
  obtain ⟨hagree, hcount⟩ := h
  cases hstep with
  | serverSend kind server accepted =>
      refine ⟨hagree.serverSend hcount accepted, ?_⟩
      simp only [List.length_append, List.length_singleton]
      omega
  | clientReceive kind rest head =>
      rw [head] at hagree hcount
      refine ⟨hagree.clientReceive.2, ?_⟩
      simp only [List.length_cons] at hcount ⊢
      omega
  | clientCommand client accepted =>
      obtain ⟨hready, rfl⟩ := beginCommand_eq_ok accepted
      obtain ⟨hserver, hq, hr, hnone⟩ := hagree.ready_inv hready
      refine ⟨?_, hcount⟩
      obtain ⟨client, ⟨state, origin⟩, q, r, sent, taken, rejection⟩ := c
      obtain rfl : state = .ready := hserver
      obtain rfl : rejection = none := hnone
      exact .requested hq hr (all_nil _)
  | clientData inquiry =>
      obtain ⟨op, hclient, hserver, hq, hr, hnone⟩ := hagree.inquiry_inv inquiry
      refine ⟨?_, hcount⟩
      simp only [hclient, hserver, hnone]
      exact .answering hq (hr.snoc (Or.inl rfl))
  | clientFinish cancelled client accepted =>
      obtain ⟨hinquiry, rfl⟩ := finishInquiry_eq_ok accepted
      obtain ⟨op, hclient, hserver, hq, hr, hnone⟩ := hagree.inquiry_inv hinquiry
      refine ⟨?_, hcount⟩
      simp only [hclient, hserver, hnone]
      cases cancelled with
      | true => exact .cancelled hq hr (all_nil _)
      | false => exact .ended hq hr (all_nil _)
  | clientIgnorable kind ignorable => exact ⟨hagree.clientIgnorable ignorable, hcount⟩
  | serverReceive kind rest head =>
      rw [head] at hagree
      exact ⟨hagree.serverReceive.2, hcount⟩

theorem Reachable.consistent {c : Config} (h : Reachable c) : Consistent c := by
  induction h with
  | refl => exact consistent_initial
  | tail _ hstep ih => exact ih.step hstep

/-- The rejecting `ERR` is one of the responses sent. -/
theorem Consistent.rejection_sent {c : Config} (h : Consistent c) {i : ℕ}
    (hi : c.rejection = some i) : i < c.sent := by
  rw [h.count]
  exact h.agree.rejection_lt hi

/-- **Agreement.** However the two sides interleave, no machine meets an event it
does not expect: a dequeued request is accepted unless the server has rejected
the greeting, and a dequeued response is accepted unless it is the `ERR` of that
rejection. A ready client stands opposite a ready server, and only comments and
empty lines are in flight between them. -/
theorem reachable_agreement {c : Config} (h : Reachable c) :
    (∀ request rest, c.toServer = request :: rest →
      (c.server.receiveRequest request).1 = .ok () ∨
      ((c.server.receiveRequest request).1 = .error .unusable ∧
        ∃ i, c.rejection = some i ∧ i < c.sent)) ∧
    (∀ kind rest, c.toClient = kind :: rest →
      (c.client.receive kind).1 = .ok () ∨
      ((c.client.receive kind).1 = .error .greetingRejected ∧ kind = .err ∧
        c.rejection = some c.taken)) ∧
    (c.client.state = .ready →
      c.server.state = .ready ∧ All LineKind.Ignorable c.toClient ∧
        All RequestKind.Ignorable c.toServer) := by
  have hc := h.consistent
  refine ⟨fun request rest head => ?_, fun kind rest head => ?_, fun hready => ?_⟩
  · have hagree := hc.agree
    rw [head] at hagree
    rcases hagree.serverReceive.1 with hok | ⟨hunusable, hsome⟩
    · exact Or.inl hok
    · obtain ⟨i, hi⟩ := Option.isSome_iff_exists.mp hsome
      exact Or.inr ⟨hunusable, i, hi, hc.rejection_sent hi⟩
  · have hagree := hc.agree
    rw [head] at hagree
    exact hagree.clientReceive.1
  · obtain ⟨hserver, hq, hr, -⟩ := hc.agree.ready_inv hready
    exact ⟨hserver, hq, hr⟩

/-- The rejecting `ERR` and a comment cross: the comment will meet an unusable
server, the `ERR` is the rejection the client reports. -/
def crossedRejection : Config :=
  ⟨.new, ⟨.invalid, .greeting⟩, [.err], [.comment], 1, 0, some 0⟩

theorem crossedRejection_reachable : Reachable crossedRejection := by
  have hsend : Step initial _ := .serverSend .err ⟨.invalid, .greeting⟩ rfl
  have hcomment : Step ⟨.new, ⟨.invalid, .greeting⟩, [.err], [], 1, 0, some 0⟩
      crossedRejection := .clientIgnorable .comment (Or.inl rfl)
  exact (Relation.ReflTransGen.single hsend).tail hcomment

theorem reachable_agreement_crossed :
    ((crossedRejection.server.receiveRequest .comment).1 = .ok () ∨
      ((crossedRejection.server.receiveRequest .comment).1 = .error .unusable ∧
        ∃ i, crossedRejection.rejection = some i ∧ i < crossedRejection.sent)) ∧
    ((crossedRejection.client.receive .err).1 = .ok () ∨
      ((crossedRejection.client.receive .err).1 = .error .greetingRejected ∧
        LineKind.err = .err ∧ crossedRejection.rejection = some crossedRejection.taken)) :=
  have h := reachable_agreement crossedRejection_reachable
  ⟨h.1 .comment [] rfl, h.2.1 .err [] rfl⟩

end Config

end Assuan
