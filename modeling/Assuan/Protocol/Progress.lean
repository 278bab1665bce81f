import Assuan.Protocol.Agreement

/-!
# Whose turn it is, and what may still happen

Over any interleaving exactly one turn is passed around: the client holds it while
it is ready or inside an inquiry, the server while it owes a response, and in
between it is a message in flight. Messages in flight can always be delivered, in
any order with one result, and a session that has not been refused can always be
brought back to where both sides are ready.
-/

namespace Assuan

/-! ## §1  The turn -/

/-- A request that hands the turn to the server. -/
def RequestKind.handsOver (kind : RequestKind) : Bool :=
  kind = .command ∨ kind = .end_ ∨ kind = .can

/-- A response that hands it back. -/
def LineKind.handsOver (kind : LineKind) : Bool := kind = .ok ∨ kind = .err ∨ kind = .inquire

/-- The client may begin a command, or goes on with an inquiry. -/
def ClientMachine.holdsTurn (m : ClientMachine) : Bool := m.state = .ready ∨ m.state = .inquiry

/-- The server owes a response. -/
def ServerMachine.holdsTurn (m : ServerMachine) : Bool :=
  m.state = .greeting ∨ m.state = .handler ∨ m.state = .awaitFinal

/-- How often the turn exists: with either side, or in flight. -/
def Config.turns (c : Config) : ℕ :=
  c.client.holdsTurn.toNat + c.toServer.countP RequestKind.handsOver +
    c.server.holdsTurn.toNat + c.toClient.countP LineKind.handsOver

section Turns

variable {op : Operation} {q : List LineKind} {r : List RequestKind}

theorem All.countP_eq_zero {α : Type} {P : α → Prop} {f : α → Bool} {queue : List α}
    (h : All P queue) (himp : ∀ k, P k → f k = false) : queue.countP f = 0 := by
  rw [List.countP_eq_zero]
  intro k hk
  rw [himp k (h k hk)]
  exact Bool.false_ne_true

theorem LineKind.Carried.keeps {kind : LineKind} (h : kind.Carried op) :
    kind.handsOver = false := by
  rcases h with (rfl | rfl | rfl) | ⟨-, rfl | rfl⟩ <;> rfl

theorem LineKind.Informational.keeps {kind : LineKind} (h : kind.Informational) :
    kind.handsOver = false := (h.carried .greeting).keeps

theorem LineKind.Ignorable.keeps {kind : LineKind} (h : kind.Ignorable) :
    kind.handsOver = false := h.informational.keeps

theorem LineKind.Final.passes {kind : LineKind} (h : kind.Final op) : kind.handsOver = true := by
  rcases h with rfl | ⟨-, rfl⟩ <;> rfl

theorem RequestKind.Answer.keeps {kind : RequestKind} (h : kind.Answer) :
    kind.handsOver = false := by
  rcases h with rfl | rfl | rfl <;> rfl

theorem RequestKind.Ignorable.keeps {kind : RequestKind} (h : kind.Ignorable) :
    kind.handsOver = false := h.answer.keeps

theorem Operation.client_turn (op : Operation) (origin : ClientState) :
    ClientMachine.holdsTurn ⟨op.client, origin⟩ = false := by
  cases op <;> rfl

theorem Operation.server_turn (op : Operation) (origin : ServerState) :
    ServerMachine.holdsTurn ⟨op.server, origin⟩ = true := by
  cases op <;> rfl

theorem ClientMachine.GreetingOpen.turn {m : ClientMachine} (h : m.GreetingOpen) :
    m.holdsTurn = false := by
  rcases h with h | ⟨h, -⟩ <;> simp [ClientMachine.holdsTurn, h]

/-- Where the turn is in each phase. -/
theorem Agree.turns {taken : ℕ} {client : ClientMachine} {server : ServerMachine}
    {rejection : Option ℕ} (h : Agree taken client server q r rejection) :
    client.holdsTurn.toNat + r.countP RequestKind.handsOver + server.holdsTurn.toNat +
        q.countP LineKind.handsOver =
      if client.state = .invalid then 0 else 1 := by
  cases h with
  | @working op co so _ _ hq hr =>
      rw [hq.countP_eq_zero fun _ hk => hk.keeps, hr.countP_eq_zero fun _ hk => hk.keeps,
        op.client_turn, op.server_turn]
      cases op <;> rfl
  | @asking op co pre post _ hpre hpost hr =>
      rw [hr.countP_eq_zero fun _ hk => hk.keeps, List.countP_append, List.countP_cons,
        hpre.countP_eq_zero fun _ hk => hk.keeps, hpost.countP_eq_zero fun _ hk => hk.keeps,
        op.client_turn]
      cases op <;> rfl
  | answering hq hr =>
      rw [hq.countP_eq_zero fun _ hk => hk.keeps, hr.countP_eq_zero fun _ hk => hk.keeps]
      rfl
  | @ended op co _ pre post hq hpre hpost =>
      rw [hq.countP_eq_zero fun _ hk => hk.keeps, List.countP_append, List.countP_cons,
        hpre.countP_eq_zero fun _ hk => hk.keeps, hpost.countP_eq_zero fun _ hk => hk.keeps,
        op.client_turn]
      cases op <;> rfl
  | cancelled hq hpre hpost =>
      rw [hq.countP_eq_zero fun _ hk => hk.keeps, List.countP_append, List.countP_cons,
        hpre.countP_eq_zero fun _ hk => hk.keeps, hpost.countP_eq_zero fun _ hk => hk.keeps]
      rfl
  | awaiting hq hr =>
      rw [hq.countP_eq_zero fun _ hk => hk.keeps, hr.countP_eq_zero fun _ hk => hk.keeps]
      rfl
  | @finishing op co so pre final post _ hpre hfinal hpost hr =>
      rw [hr.countP_eq_zero fun _ hk => hk.keeps, List.countP_append, List.countP_cons,
        hpre.countP_eq_zero fun _ hk => hk.keeps, hpost.countP_eq_zero fun _ hk => hk.keeps,
        hfinal.passes, op.client_turn]
      cases op <;> rfl
  | finishingCancelled hpre hfinal hpost hr =>
      rw [hr.countP_eq_zero fun _ hk => hk.keeps, List.countP_append, List.countP_cons,
        hpre.countP_eq_zero fun _ hk => hk.keeps, hpost.countP_eq_zero fun _ hk => hk.keeps,
        hfinal.passes]
      rfl
  | ready hq hr =>
      rw [hq.countP_eq_zero fun _ hk => hk.keeps, hr.countP_eq_zero fun _ hk => hk.keeps]
      rfl
  | requested hq hpre hpost =>
      rw [hq.countP_eq_zero fun _ hk => hk.keeps, List.countP_append, List.countP_cons,
        hpre.countP_eq_zero fun _ hk => hk.keeps, hpost.countP_eq_zero fun _ hk => hk.keeps]
      rfl
  | @rejecting client so pre _ hclient hpre hr =>
      have hvalid : client.state ≠ .invalid := by
        rcases hclient with h | ⟨h, -⟩ <;> simp [h]
      rw [hr.countP_eq_zero fun _ hk => hk.keeps, List.countP_append,
        hpre.countP_eq_zero fun _ hk => hk.keeps, hclient.turn, if_neg hvalid]
      rfl
  | rejected hi hr =>
      rw [hr.countP_eq_zero fun _ hk => hk.keeps]
      rfl

end Turns

/-! The turn is the right to do something that matters. -/

theorem ClientMachine.holdsTurn_iff (m : ClientMachine) :
    m.holdsTurn = true ↔
      m.beginCommand.1 = .ok () ∨ ∃ cancelled, (m.finishInquiry cancelled).1 = .ok () := by
  obtain ⟨state, origin⟩ := m
  cases state <;> simp [holdsTurn, beginCommand, finishInquiry]

theorem ServerMachine.holdsTurn_iff (m : ServerMachine) :
    m.holdsTurn = true ↔ (m.sendResponse .ok).1 = .ok () := by
  obtain ⟨state, origin⟩ := m
  cases state <;> simp [holdsTurn, sendResponse]

/-! ## §2  Delivering what is in flight -/

namespace Config

/-- Both queues are empty. -/
def Quiet (c : Config) : Prop := c.toClient = [] ∧ c.toServer = []

def inFlight (c : Config) : ℕ := c.toClient.length + c.toServer.length

/-- A step that takes a message out of a queue. -/
inductive Deliver : Config → Config → Prop where
  | toClient {c : Config} {kind : LineKind} {rest : List LineKind}
      (head : c.toClient = kind :: rest) :
      Deliver c { c with
        client := (c.client.receive kind).2
        toClient := rest
        taken := c.taken + 1 }
  | toServer {c : Config} {kind : RequestKind} {rest : List RequestKind}
      (head : c.toServer = kind :: rest) :
      Deliver c { c with server := (c.server.receiveRequest kind).2, toServer := rest }

variable {c c' : Config}

theorem Deliver.step (h : Deliver c c') : Step c c' := by
  cases h with
  | toClient head => exact .clientReceive _ _ head
  | toServer head => exact .serverReceive _ _ head

theorem Deliver.inFlight (h : Deliver c c') : c'.inFlight + 1 = c.inFlight := by
  cases h with
  | toClient head =>
      simp only [Config.inFlight, head, List.length_cons]
      omega
  | toServer head =>
      simp only [Config.inFlight, head, List.length_cons]
      omega

/-- Everything in flight has arrived. -/
def settled (c : Config) : Config :=
  { c with
    client := c.toClient.foldl (fun m kind => (m.receive kind).2) c.client
    server := c.toServer.foldl (fun m kind => (m.receiveRequest kind).2) c.server
    toClient := []
    toServer := []
    taken := c.taken + c.toClient.length }

theorem settled_quiet (c : Config) : c.settled.Quiet := ⟨rfl, rfl⟩

theorem Quiet.settled (h : c.Quiet) : c.settled = c := by
  obtain ⟨client, server, toClient, toServer, sent, taken, rejection⟩ := c
  obtain ⟨rfl, rfl⟩ := h
  rfl

/-- A delivery brings nothing but what it delivers. -/
theorem Deliver.settled (h : Deliver c c') : c'.settled = c.settled := by
  cases h with
  | toClient head =>
      simp only [Config.settled, head, List.foldl_cons, List.length_cons, Config.mk.injEq, true_and,
        and_true]
      omega
  | toServer head => simp only [Config.settled, head, List.foldl_cons]

/-- Whatever the order of the deliveries, there is one end. -/
theorem deliveries_settled (h : Relation.ReflTransGen Deliver c c') : c'.settled = c.settled := by
  induction h with
  | refl => rfl
  | tail _ hstep ih => rw [hstep.settled, ih]

theorem deliver_of_not_quiet (h : ¬ c.Quiet) : ∃ c', Deliver c c' := by
  cases hclient : c.toClient with
  | cons kind rest => exact ⟨_, .toClient hclient⟩
  | nil =>
      cases hserver : c.toServer with
      | cons kind rest => exact ⟨_, .toServer hserver⟩
      | nil => exact absurd ⟨hclient, hserver⟩ h

/-- Deliveries do not run out before everything has arrived, by induction on what
is in flight. -/
theorem deliver_all (c : Config) : Relation.ReflTransGen Deliver c c.settled := by
  induction hn : c.inFlight generalizing c with
  | zero =>
      have hquiet : c.Quiet := by
        simp only [inFlight, Nat.add_eq_zero_iff, List.length_eq_zero_iff] at hn
        exact hn
      rw [hquiet.settled]
  | succ n ih =>
      have hbusy : ¬ c.Quiet := by
        rintro ⟨hclient, hserver⟩
        simp [inFlight, hclient, hserver] at hn
      obtain ⟨c', hdeliver⟩ := deliver_of_not_quiet hbusy
      have hless := hdeliver.inFlight
      rw [← hdeliver.settled]
      exact (ih c' (by omega)).head hdeliver

theorem Deliver.reachable (h : Relation.ReflTransGen Deliver c c') :
    Relation.ReflTransGen Step c c' :=
  Relation.ReflTransGen.mono (fun _ _ hstep => hstep.step) _ _ h

/-! ## §3  What may still happen -/

/-- Both sides are ready and nothing is in flight. -/
structure Idle (c : Config) : Prop where
  quiet : c.Quiet
  client : c.client.state = .ready
  server : c.server.state = .ready

/-- The greeting was rejected, and both sides know. -/
structure Refused (c : Config) : Prop where
  quiet : c.Quiet
  client : c.client.state = .invalid
  server : c.server.state = .invalid
  rejection : c.rejection.isSome

/-- A server that owes a response can give it. -/
theorem respond (hquiet : c.Quiet) (hclient : c.client.state = .greeting ∨
    c.client.state = .command ∨ c.client.state = .awaitFinal) (hserver : c.server.holdsTurn = true) :
    ∃ c', Relation.ReflTransGen Step c c' ∧ Idle c' ∧ c'.rejection = c.rejection := by
  obtain ⟨⟨clientState, clientOrigin⟩, ⟨serverState, serverOrigin⟩, q, r, sent, taken, rejection⟩ := c
  obtain ⟨rfl, rfl⟩ := hquiet
  have hsend : ServerMachine.sendResponse ⟨serverState, serverOrigin⟩ .ok =
      (.ok (), ⟨.ready, serverOrigin⟩) := by
    cases serverState <;> simp_all [ServerMachine.holdsTurn, ServerMachine.sendResponse]
  have hreceive : (ClientMachine.receive ⟨clientState, clientOrigin⟩ .ok).2 =
      ⟨.ready, clientOrigin⟩ := by
    rcases hclient with rfl | rfl | rfl <;> rfl
  have hsent := Step.serverSend (c := ⟨⟨clientState, clientOrigin⟩, ⟨serverState, serverOrigin⟩, [],
    [], sent, taken, rejection⟩) .ok ⟨.ready, serverOrigin⟩ hsend
  simp only [List.nil_append, reduceCtorEq, false_and, if_false] at hsent
  have hheard := Step.clientReceive (c := ⟨⟨clientState, clientOrigin⟩, ⟨.ready, serverOrigin⟩, [.ok],
    [], sent + 1, taken, rejection⟩) .ok [] rfl
  simp only [hreceive] at hheard
  exact ⟨_, (Relation.ReflTransGen.single hsent).tail hheard, ⟨⟨rfl, rfl⟩, rfl, rfl⟩, rfl⟩

/-- From a quiet configuration the session becomes idle, unless it was refused. -/
theorem quiet_recovers (h : Consistent c) (hquiet : c.Quiet) :
    Refused c ∨ ∃ c', Relation.ReflTransGen Step c c' ∧ Idle c' ∧ c'.rejection = c.rejection := by
  obtain ⟨client, server, q, r, sent, taken, rejection⟩ := c
  obtain ⟨hagree, -⟩ := h
  obtain ⟨rfl, rfl⟩ := hquiet
  simp only at hagree
  generalize hq : ([] : List LineKind) = q at hagree
  generalize hr : ([] : List RequestKind) = r at hagree
  cases hagree with
  | @working op co so _ _ =>
      subst hq hr
      refine Or.inr (respond ⟨rfl, rfl⟩ ?_ (op.server_turn so))
      cases op
      · exact Or.inl rfl
      · exact Or.inr (Or.inl rfl)
  | asking => exact absurd hq (by simp)
  | @answering op _ _ _ _ =>
      subst hq hr
      -- the client ends the inquiry, and the server owes the response again
      have hend := Step.clientFinish (c := ⟨⟨.inquiry, op.client⟩, ⟨.inquiry, op.server⟩, [], [], sent,
        taken, none⟩) false ⟨op.client, op.client⟩ rfl
      simp only [List.nil_append] at hend
      have hheard := Step.serverReceive (c := ⟨⟨op.client, op.client⟩, ⟨.inquiry, op.server⟩, [],
        [.end_], sent, taken, none⟩) .end_ [] rfl
      have hback : (ServerMachine.receiveRequest ⟨.inquiry, op.server⟩ .end_).2 =
          ⟨op.server, op.server⟩ := rfl
      simp only [hback] at hheard
      obtain ⟨c', hsteps, hidle, hrejection⟩ := respond
        (c := ⟨⟨op.client, op.client⟩, ⟨op.server, op.server⟩, [], [], sent, taken, none⟩) ⟨rfl, rfl⟩
        (by cases op <;> simp [Operation.client]) (op.server_turn _)
      exact Or.inr ⟨c', (hsteps.head hheard).head hend, hidle, hrejection⟩
  | ended => exact absurd hr (by simp)
  | cancelled => exact absurd hr (by simp)
  | awaiting =>
      subst hq hr
      exact Or.inr (respond ⟨rfl, rfl⟩ (Or.inr (Or.inr rfl)) rfl)
  | finishing => exact absurd hq (by simp)
  | finishingCancelled => exact absurd hq (by simp)
  | ready =>
      subst hq hr
      exact Or.inr ⟨_, .refl, ⟨⟨rfl, rfl⟩, rfl, rfl⟩, rfl⟩
  | requested => exact absurd hr (by simp)
  | rejecting => exact absurd hq (by simp)
  | rejected =>
      subst hr
      exact Or.inl ⟨⟨rfl, rfl⟩, rfl, rfl, rfl⟩

/-- **One turn.** Over every interleaving the turn exists exactly once, with the
client, with the server or in flight, until a client has heard that its greeting
was rejected. When nothing is in flight, exactly one side may therefore act: the
client may begin a command or end its inquiry, or the server may respond. -/
theorem reachable_one_turn (h : Reachable c) :
    c.turns = (if c.client.state = .invalid then 0 else 1) ∧
    (c.Quiet → c.client.state ≠ .invalid →
      ((c.server.sendResponse .ok).1 = .ok () ↔
        ¬ (c.client.beginCommand.1 = .ok () ∨ ∃ cancelled, (c.client.finishInquiry cancelled).1 = .ok ()))) := by
  have hturns : c.turns = if c.client.state = .invalid then 0 else 1 := h.consistent.agree.turns
  refine ⟨hturns, ?_⟩
  rintro ⟨hclient, hserver⟩ hvalid
  rw [if_neg hvalid, turns, hclient, hserver, List.countP_nil, List.countP_nil] at hturns
  rw [← ServerMachine.holdsTurn_iff, ← ClientMachine.holdsTurn_iff]
  revert hturns
  cases c.client.holdsTurn <;> cases c.server.holdsTurn <;> simp

/-- **Nothing gets stuck.** From every reachable configuration the messages in
flight can be delivered, in any order with the same result; and unless that
shows that the greeting was rejected, the two sides can then be brought to where
both are ready and nothing is in flight. -/
theorem reachable_recovers (h : Reachable c) :
    Relation.ReflTransGen Deliver c c.settled ∧
    (∀ c', Relation.ReflTransGen Deliver c c' → c'.Quiet → c' = c.settled) ∧
    (Refused c.settled ∨
      ∃ c', Relation.ReflTransGen Step c c' ∧ Idle c' ∧ c'.rejection = c.rejection) := by
  refine ⟨deliver_all c, ?_, ?_⟩
  · intro c' hdeliver hquiet
    rw [← deliveries_settled hdeliver, hquiet.settled]
  · have hall : Relation.ReflTransGen Step c c.settled := Deliver.reachable (deliver_all c)
    have hreach : Reachable c.settled := Relation.ReflTransGen.trans h hall
    rcases quiet_recovers hreach.consistent c.settled_quiet with
      hrefused | ⟨c', hsteps, hidle, hrejection⟩
    · exact Or.inl hrefused
    · exact Or.inr ⟨c', hall.trans hsteps, hidle, hrejection⟩

/-- A session in the middle of an inquiry of its greeting. -/
def greetingInquiry : Config :=
  ⟨.new, ⟨.inquiry, .greeting⟩, [.status, .inquire], [.comment], 2, 0, none⟩

theorem greetingInquiry_reachable : Reachable greetingInquiry := by
  have hstatus : Step initial _ := .serverSend .status .new rfl
  have hinquire : Step ⟨.new, .new, [.status], [], 1, 0, none⟩ _ :=
    .serverSend .inquire ⟨.inquiry, .greeting⟩ rfl
  have hcomment : Step ⟨.new, ⟨.inquiry, .greeting⟩, [.status, .inquire], [], 2, 0, none⟩
      greetingInquiry := .clientIgnorable .comment (Or.inl rfl)
  exact ((Relation.ReflTransGen.single hstatus).tail hinquire).tail hcomment

theorem reachable_one_turn_asking : greetingInquiry.turns = 1 :=
  (reachable_one_turn greetingInquiry_reachable).1

theorem reachable_recovers_asking : Refused greetingInquiry.settled ∨
    ∃ c', Relation.ReflTransGen Step greetingInquiry c' ∧ Idle c' ∧ c'.rejection = none :=
  (reachable_recovers greetingInquiry_reachable).2.2

end Config

end Assuan
