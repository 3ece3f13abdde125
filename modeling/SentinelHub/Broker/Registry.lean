import SentinelHub.Broker.ServerSteps

/-!
# The registry and its history

The registry changes only by the events that the broker notes, and what it
holds can be read off the history: a client is registered if it has come and
has not been dropped since, by its own handler or by the router, and it is
among the subscribers of a topic if, in addition, a request of it to subscribe
has been processed since it came.  Clients are numbered as they come, so that a
client that has been dropped never comes again; its late requests to subscribe
change nothing.
-/

namespace SentinelHub.Broker

open SentinelHub.Support

variable {s s' : BrokerServer} {a : BrokerAction} {c client : ClientId}
  {registry : ConnectionRegistry} {topic topic' : ℤ} {e : BrokerEvent}
  {tr evs : List BrokerEvent} {log : Option Bytes}

/-! ## The operations -/

namespace ConnectionRegistry

/-- The clients that are registered. -/
def ids (registry : ConnectionRegistry) : List ClientId :=
  registry.clients.map Prod.fst

theorem mem_ids_iff :
    c ∈ registry.ids ↔ ∃ topics, (c, topics) ∈ registry.clients := by
  simp [ids]

theorem mem_getSubscribers_iff :
    c ∈ registry.getSubscribers topic ↔
      ∃ topics, (c, topics) ∈ registry.clients ∧ topic ∈ topics := by
  simp [getSubscribers]

theorem ids_register :
    (registry.register client).ids = registry.ids ++ [client] := by
  rw [ids, register, List.map_append]
  rfl

theorem ids_subscribe :
    (registry.subscribe client topic).ids = registry.ids := by
  rw [ids, subscribe, List.map_map, ids]
  apply List.map_congr_left
  intro entry _
  rw [Function.comp_apply]
  split <;> rfl

theorem ids_unregister :
    (registry.unregister client).ids =
      registry.ids.filter fun c => c ≠ client := by
  rw [ids, unregister, ids, List.filter_map]
  rfl

theorem mem_getSubscribers_register :
    c ∈ (registry.register client).getSubscribers topic ↔
      c ∈ registry.getSubscribers topic := by
  simp [mem_getSubscribers_iff, register, or_and_right, exists_or]

theorem mem_getSubscribers_unregister :
    c ∈ (registry.unregister client).getSubscribers topic ↔
      c ∈ registry.getSubscribers topic ∧ c ≠ client := by
  simp only [mem_getSubscribers_iff, unregister, List.mem_filter,
    decide_eq_true_eq]
  constructor
  · rintro ⟨topics, ⟨hentry, hne⟩, htopic⟩
    exact ⟨⟨topics, hentry, htopic⟩, hne⟩
  · rintro ⟨⟨topics, hentry, htopic⟩, hne⟩
    exact ⟨topics, ⟨hentry, hne⟩, htopic⟩

/-- A subscription concerns its own client and topic, and no client that is
not registered. -/
theorem mem_getSubscribers_subscribe :
    c ∈ (registry.subscribe client topic').getSubscribers topic ↔
      c ∈ registry.getSubscribers topic ∨
        (c = client ∧ topic = topic' ∧ c ∈ registry.ids) := by
  simp only [mem_getSubscribers_iff, mem_ids_iff, subscribe, List.mem_map]
  constructor
  · rintro ⟨topics, ⟨⟨d, topics'⟩, hentry, heq⟩, htopic⟩
    split at heq
    next hd =>
      cases heq
      rcases List.mem_insert_iff.mp htopic with rfl | htopic
      · exact Or.inr ⟨hd, rfl, topics', hentry⟩
      · exact Or.inl ⟨topics', hentry, htopic⟩
    next =>
      cases heq
      exact Or.inl ⟨topics, hentry, htopic⟩
  · rintro (⟨topics, hentry, htopic⟩ | ⟨rfl, rfl, topics, hentry⟩)
    · by_cases hd : c = client
      · refine ⟨topics.insert topic', ⟨_, hentry, if_pos hd⟩, ?_⟩
        exact List.mem_insert_of_mem htopic
      · exact ⟨topics, ⟨_, hentry, if_neg hd⟩, htopic⟩
    · refine ⟨topics.insert topic, ⟨_, hentry, if_pos rfl⟩, ?_⟩
      exact List.mem_insert_self

/-- The subscribers of a topic are listed once if every client is. -/
theorem nodup_getSubscribers (h : registry.ids.Nodup) (topic : ℤ) :
    (registry.getSubscribers topic).Nodup := by
  have hsub : (registry.getSubscribers topic).Sublist registry.ids :=
    List.filter_sublist.map Prod.fst
  exact h.sublist hsub

/-- What an event of the broker means for the registry. -/
def apply (registry : ConnectionRegistry) : BrokerEvent → ConnectionRegistry
  | .registered c => registry.register c
  | .unregistered c => registry.unregister c
  | .router (.unregistered c) => registry.unregister c
  | .subscribed c topic => registry.subscribe c topic
  | _ => registry

theorem foldl_apply_router (registry : ConnectionRegistry)
    (evs : List RouterEvent) :
    (evs.map BrokerEvent.router).foldl apply registry =
      BrokerServer.registryAfter registry evs := by
  induction evs generalizing registry with
  | nil => rfl
  | cons ev evs ih =>
      rw [List.map_cons, List.foldl_cons, ih]
      cases ev <;> rfl

end ConnectionRegistry

/-! ## The registry is what has happened -/

theorem registry_eq_step (hstep : BrokerStep s a s' evs) :
    s'.registry = evs.foldl ConnectionRegistry.apply s.registry := by
  cases hstep with
  | worker action router revs =>
      exact (ConnectionRegistry.foldl_apply_router s.registry revs).symm
  | _ => rfl

theorem registry_eq_run (h : broker.Reaches s tr s') :
    s'.registry = tr.foldl ConnectionRegistry.apply s.registry := by
  induction h with
  | nil => rfl
  | snoc _ _ hstep ih =>
      rw [List.foldl_append, ← ih]
      exact registry_eq_step (BrokerServer.step_of_eq hstep)

/-! ## What an event does to an entry -/

/-- The event takes the client out of the registry: its handler has ended, or
the router could not reach it. -/
def BrokerEvent.Drops (c : ClientId) (e : BrokerEvent) : Prop :=
  e = .unregistered c ∨ e = .router (.unregistered c)

namespace ConnectionRegistry

/-- A client is registered by its coming, until it is dropped. -/
theorem mem_ids_apply_iff :
    c ∈ (registry.apply e).ids ↔
      (c ∈ registry.ids ∧ ¬e.Drops c) ∨ e = .registered c := by
  cases e with
  | registered client =>
      simp [apply, ids_register, BrokerEvent.Drops, eq_comm]
  | subscribed client topic =>
      simp [apply, ids_subscribe, BrokerEvent.Drops]
  | unregistered client =>
      rw [apply, ids_unregister, List.mem_filter, decide_eq_true_eq]
      simp [BrokerEvent.Drops, eq_comm]
  | router ev =>
      cases ev with
      | unregistered client =>
          rw [apply, ids_unregister, List.mem_filter, decide_eq_true_eq]
          simp [BrokerEvent.Drops, eq_comm]
      | _ => simp [apply, BrokerEvent.Drops]
  | _ => simp [apply, BrokerEvent.Drops]

/-- A client becomes a subscriber by its request, if it is registered, and
stays one until it is dropped. -/
theorem mem_getSubscribers_apply_iff :
    c ∈ (registry.apply e).getSubscribers topic ↔
      (c ∈ registry.getSubscribers topic ∧ ¬e.Drops c) ∨
        (e = .subscribed c topic ∧ c ∈ registry.ids) := by
  cases e with
  | registered client =>
      simp [apply, mem_getSubscribers_register, BrokerEvent.Drops]
  | subscribed client topic' =>
      simp [apply, mem_getSubscribers_subscribe, BrokerEvent.Drops, and_assoc,
        eq_comm]
  | unregistered client =>
      simp [apply, mem_getSubscribers_unregister, BrokerEvent.Drops, eq_comm]
  | router ev =>
      cases ev with
      | unregistered client =>
          simp [apply, mem_getSubscribers_unregister, BrokerEvent.Drops,
            eq_comm]
      | _ => simp [apply, BrokerEvent.Drops]
  | _ => simp [apply, BrokerEvent.Drops]

theorem nodup_ids_apply (h : registry.ids.Nodup)
    (hfresh : ∀ c, e = .registered c → c ∉ registry.ids) :
    (registry.apply e).ids.Nodup := by
  cases e with
  | registered client =>
      rw [apply, ids_register]
      refine List.nodup_append.mpr ⟨h, List.nodup_singleton _, ?_⟩
      rintro c hc c' hc' rfl
      rw [List.mem_singleton] at hc'
      exact hfresh client rfl (hc' ▸ hc)
  | subscribed client topic =>
      rw [apply, ids_subscribe]
      exact h
  | unregistered client =>
      rw [apply, ids_unregister]
      exact h.filter _
  | router ev =>
      cases ev with
      | unregistered client =>
          rw [apply, ids_unregister]
          exact h.filter _
      | _ => exact h
  | _ => exact h

/-- A subscriber stays one as long as it is not dropped. -/
theorem mem_getSubscribers_foldl (h : c ∈ registry.getSubscribers topic)
    (hkept : ∀ e ∈ evs, ¬e.Drops c) :
    c ∈ (evs.foldl apply registry).getSubscribers topic := by
  induction evs generalizing registry with
  | nil => exact h
  | cons e evs ih =>
      rw [List.forall_mem_cons] at hkept
      exact ih (mem_getSubscribers_apply_iff.mpr (Or.inl ⟨h, hkept.1⟩))
        hkept.2

/-- A subscriber was one before, or has become one by its own request. -/
theorem of_mem_getSubscribers_foldl
    (h : c ∈ (evs.foldl apply registry).getSubscribers topic) :
    c ∈ registry.getSubscribers topic ∨ .subscribed c topic ∈ evs := by
  induction evs generalizing registry with
  | nil => exact Or.inl h
  | cons e evs ih =>
      rcases ih h with hmem | hmem
      · rcases mem_getSubscribers_apply_iff.mp hmem with ⟨hmem, -⟩ | ⟨rfl, -⟩
        · exact Or.inl hmem
        · exact Or.inr (List.mem_cons_self ..)
      · exact Or.inr (List.mem_cons_of_mem _ hmem)

end ConnectionRegistry

/-! ## The history of a client -/

/-- The client has come, and has not been dropped since. -/
def Registered (c : ClientId) (tr : List BrokerEvent) : Prop :=
  ∃ earlier later, tr = earlier ++ .registered c :: later ∧
    ∀ e ∈ later, ¬e.Drops c

/-- The client has come, has not been dropped since, and a request of it to
subscribe to the topic has been processed since. -/
def Listens (c : ClientId) (topic : ℤ) (tr : List BrokerEvent) : Prop :=
  ∃ earlier later, tr = earlier ++ .registered c :: later ∧
    .subscribed c topic ∈ later ∧ ∀ e ∈ later, ¬e.Drops c

theorem Listens.registered (h : Listens c topic tr) : Registered c tr := by
  obtain ⟨earlier, later, htr, -, hkept⟩ := h
  exact ⟨earlier, later, htr, hkept⟩

theorem registered_concat_iff :
    Registered c (tr ++ [e]) ↔
      (Registered c tr ∧ ¬e.Drops c) ∨ e = .registered c := by
  constructor
  · rintro ⟨earlier, later, heq, hkept⟩
    rcases List.eq_nil_or_concat later with rfl | ⟨later, e', rfl⟩
    · right
      exact (List.append_inj' heq rfl).2 |> List.head_eq_of_cons_eq
    · left
      rw [List.concat_eq_append, ← List.cons_append,
        ← List.append_assoc] at heq
      obtain ⟨rfl, hlast⟩ := List.append_inj' heq rfl
      cases hlast
      rw [List.concat_eq_append] at hkept
      refine ⟨⟨earlier, later, rfl, ?_⟩, ?_⟩
      · exact fun e he => hkept e (List.mem_append_left _ he)
      · exact hkept e (List.mem_append_right _ (List.mem_singleton_self e))
  · rintro (⟨⟨earlier, later, rfl, hkept⟩, hdrops⟩ | rfl)
    · refine ⟨earlier, later ++ [e], by simp, ?_⟩
      intro e' he'
      rcases List.mem_append.mp he' with he' | he'
      · exact hkept e' he'
      · rw [List.mem_singleton.mp he']
        exact hdrops
    · exact ⟨tr, [], rfl, by simp⟩

theorem listens_concat_iff :
    Listens c topic (tr ++ [e]) ↔
      (Listens c topic tr ∧ ¬e.Drops c) ∨
        (e = .subscribed c topic ∧ Registered c tr) := by
  constructor
  · rintro ⟨earlier, later, heq, hsubscribed, hkept⟩
    rcases List.eq_nil_or_concat later with rfl | ⟨later, e', rfl⟩
    · cases hsubscribed
    · rw [List.concat_eq_append] at hkept hsubscribed
      rw [List.concat_eq_append, ← List.cons_append,
        ← List.append_assoc] at heq
      obtain ⟨rfl, hlast⟩ := List.append_inj' heq rfl
      cases hlast
      have hkept' : ∀ e ∈ later, ¬e.Drops c :=
        fun e he => hkept e (List.mem_append_left _ he)
      rcases List.mem_append.mp hsubscribed with hearlier | hlast
      · left
        refine ⟨⟨earlier, later, rfl, hearlier, hkept'⟩, ?_⟩
        exact hkept e (List.mem_append_right _ (List.mem_singleton_self e))
      · right
        exact ⟨(List.mem_singleton.mp hlast).symm, earlier, later, rfl, hkept'⟩
  · rintro (⟨⟨earlier, later, rfl, hsubscribed, hkept⟩, hdrops⟩ |
      ⟨rfl, earlier, later, rfl, hkept⟩)
    · refine ⟨earlier, later ++ [e], by simp,
        List.mem_append_left _ hsubscribed, ?_⟩
      intro e' he'
      rcases List.mem_append.mp he' with he' | he'
      · exact hkept e' he'
      · rw [List.mem_singleton.mp he']
        exact hdrops
    · refine ⟨earlier, later ++ [.subscribed c topic], by simp,
        List.mem_append_right _ (List.mem_singleton_self _), ?_⟩
      intro e' he'
      rcases List.mem_append.mp he' with he' | he'
      · exact hkept e' he'
      · rw [List.mem_singleton.mp he']
        rintro (h | h) <;> cases h

/-- The registry holds what the history says. -/
structure Mirrors (tr : List BrokerEvent) (registry : ConnectionRegistry) :
    Prop where
  nodup : registry.ids.Nodup
  registered : ∀ c, c ∈ registry.ids ↔ Registered c tr
  listens : ∀ c topic, c ∈ registry.getSubscribers topic ↔ Listens c topic tr

theorem mirrors_init : Mirrors [] .init where
  nodup := List.nodup_nil
  registered := by simp [ConnectionRegistry.ids, ConnectionRegistry.init,
    Registered]
  listens := by simp [ConnectionRegistry.getSubscribers,
    ConnectionRegistry.init, Listens]

/-- The registry goes on holding what the history says, as long as only new
clients come. -/
theorem Mirrors.apply (h : Mirrors tr registry)
    (hfresh : ∀ c, e = .registered c → .registered c ∉ tr) :
    Mirrors (tr ++ [e]) (registry.apply e) := by
  refine ⟨ConnectionRegistry.nodup_ids_apply h.nodup ?_, ?_, ?_⟩
  · intro c heq hc
    obtain ⟨earlier, later, rfl, -⟩ := (h.registered c).mp hc
    exact hfresh c heq (by simp)
  · intro c
    rw [ConnectionRegistry.mem_ids_apply_iff, h.registered,
      registered_concat_iff]
  · intro c topic
    rw [ConnectionRegistry.mem_getSubscribers_apply_iff, h.listens,
      h.registered, listens_concat_iff]

/-! ## Clients are numbered as they come -/

/-- The clients that the worker holds on to. -/
def Worker.clients : Worker → List ClientId
  | .writing _ _ client remaining dead => client :: remaining ++ dead
  | .flushing _ _ client remaining dead => client :: remaining ++ dead
  | .unregistering client dead => client :: dead
  | _ => []

theorem Worker.clients_afterUnregister (dead : List ClientId) :
    (afterUnregister dead).clients = dead := by
  cases dead <;> rfl

theorem Worker.clients_afterSubscriber (seq : ℕ) (frame : Bytes)
    (remaining dead : List ClientId) :
    (afterSubscriber seq frame remaining dead).clients =
      remaining ++ dead := by
  cases remaining with
  | nil => exact clients_afterUnregister dead
  | cons => rfl

/-- A client that has been found dead was known. -/
theorem Worker.mem_clients_of_dead {seq : ℕ} {frame : Bytes}
    {c client : ClientId} {remaining dead : List ClientId}
    (hc : c ∈
      (afterSubscriber seq frame remaining (dead ++ [client])).clients) :
    c ∈ client :: remaining ++ dead := by
  rw [clients_afterSubscriber] at hc
  simp only [List.mem_append, List.mem_cons] at hc ⊢
  tauto

theorem PriorityRouter.clients_nextRound (r : PriorityRouter) :
    r.nextRound.clients = [] := by
  rw [nextRound]
  split <;> rfl

/-- The worker comes to know clients only by its look-ups, and unregisters
only clients that it knows. -/
theorem PriorityRouter.WorkerStep.clients {r r' : PriorityRouter}
    {action : WorkerAction} {revs : List RouterEvent}
    (h : WorkerStep r action r' revs) :
    (∀ c ∈ r'.worker.clients, c ∈ r.worker.clients ∨
      ∃ subscribers, action = .lookup subscribers ∧ c ∈ subscribers) ∧
    ∀ c, .unregistered c ∈ revs → c ∈ r.worker.clients := by
  cases h with
  | drained => simp [clients_nextRound]
  | backoffOver => simp [clients_nextRound]
  | lookup seq msg frame client remaining hworker =>
      simp [Worker.clients, hworker]
  | write seq frame client remaining dead hworker =>
      simp only [Worker.clients, hworker]
      exact ⟨fun c hc => Or.inl hc, by simp⟩
  | writeFailed seq frame client remaining dead hworker =>
      refine ⟨?_, by simp⟩
      intro c hc
      rw [hworker, Worker.clients]
      exact Or.inl (Worker.mem_clients_of_dead hc)
  | drain seq frame client remaining dead hworker =>
      refine ⟨?_, by simp⟩
      intro c hc
      rw [Worker.clients_afterSubscriber] at hc
      rw [hworker]
      exact Or.inl (List.mem_cons_of_mem _ hc)
  | drainFailed seq frame client remaining dead hworker =>
      refine ⟨?_, by simp⟩
      intro c hc
      rw [hworker, Worker.clients]
      exact Or.inl (Worker.mem_clients_of_dead hc)
  | unregister client dead hworker =>
      rw [hworker]
      refine ⟨?_, by simp [Worker.clients]⟩
      intro c hc
      rw [Worker.clients_afterUnregister] at hc
      exact Or.inl (List.mem_cons_of_mem _ hc)
  | _ => simp [Worker.clients]

/-- Every client in the history and in the worker's hands has been given a
handler. -/
structure KnownClients (tr : List BrokerEvent) (s : BrokerServer) : Prop where
  mirrors : Mirrors tr s.registry
  registered : ∀ c, .registered c ∈ tr → c < s.handlers.length
  dropped : ∀ c, ∀ e ∈ tr, e.Drops c → c < s.handlers.length
  worker : ∀ c ∈ s.router.worker.clients, c < s.handlers.length

theorem knownClients_init (log : Option Bytes) :
    KnownClients [] (.init log) where
  mirrors := mirrors_init
  registered := by simp
  dropped := by simp
  worker := by simp [BrokerServer.init, PriorityRouter.init,
    PriorityRouter.start, Worker.clients]

/-- The subscribers that the worker looks up are those of the registry. -/
theorem lookup_eq {subscribers : List ClientId} {router : PriorityRouter}
    {evs : List RouterEvent} (hlooksUp : s.looksUp (.lookup subscribers))
    (hstep : s.router.workerStep (.lookup subscribers) = some (router, evs)) :
    ∃ seq msg, s.router.worker = .fanout seq msg ∧
      subscribers = s.registry.getSubscribers msg.topicId := by
  cases hworker : s.router.worker with
  | fanout seq msg =>
      simp only [BrokerServer.looksUp, hworker, decide_eq_true_eq] at hlooksUp
      exact ⟨seq, msg, rfl, hlooksUp⟩
  | _ =>
      rw [PriorityRouter.workerStep, hworker] at hstep
      cases hstep

/-- A client that comes gets the next number. -/
theorem handlers_length_step (hstep : BrokerStep s a s' evs) :
    (s'.handlers.length = s.handlers.length ∧ ∀ c, .registered c ∉ evs) ∨
      (s'.handlers.length = s.handlers.length + 1 ∧
        evs = [.registered s.handlers.length]) := by
  cases hstep with
  | connect => exact Or.inr ⟨List.length_append, rfl⟩
  | _ =>
      left
      simp [BrokerServer.setHandler, BrokerServer.close]

theorem length_handlers_step (hstep : BrokerStep s a s' evs) :
    s.handlers.length ≤ s'.handlers.length := by
  rcases handlers_length_step hstep with ⟨heq, -⟩ | ⟨heq, -⟩ <;> omega

theorem registered_step (hstep : BrokerStep s a s' evs)
    (hmem : .registered c ∈ evs) :
    evs = [.registered c] ∧ c = s.handlers.length ∧
      s'.handlers.length = s.handlers.length + 1 := by
  rcases handlers_length_step hstep with ⟨-, hnone⟩ | ⟨hlength, rfl⟩
  · exact absurd hmem (hnone c)
  · cases List.mem_singleton.mp hmem
    exact ⟨rfl, rfl, hlength⟩

/-- Only clients that have come are dropped. -/
theorem drops_step (hstep : BrokerStep s a s' evs)
    (hworker : ∀ c ∈ s.router.worker.clients, c < s.handlers.length)
    (hmem : e ∈ evs) (hdrops : e.Drops c) : c < s.handlers.length := by
  have hlt : ∀ {d handler}, s.handlers[d]? = some handler →
      BrokerEvent.unregistered d = .unregistered c →
        c < s.handlers.length := by
    rintro d handler hhandler ⟨⟩
    exact (List.getElem?_eq_some_iff.mp hhandler).1
  cases hstep with
  | tooLarge d msg hhandler =>
      rcases hdrops with rfl | rfl
      · exact hlt hhandler (List.mem_singleton.mp hmem).symm
      · simp at hmem
  | disconnect d hhandler =>
      rcases hdrops with rfl | rfl
      · exact hlt hhandler (List.mem_singleton.mp hmem).symm
      · simp at hmem
  | appendRaise d n msg call log hhandler =>
      rcases hdrops with rfl | rfl
      · exact hlt hhandler (by simpa [eq_comm] using hmem)
      · simp at hmem
  | replayRaise d replay error hhandler =>
      rcases hdrops with rfl | rfl
      · exact hlt hhandler (by simpa [eq_comm] using hmem)
      · simp at hmem
  | worker action router revs hlooksUp hstep =>
      rcases hdrops with rfl | rfl
      · simp at hmem
      · have hcases := PriorityRouter.workerStep_of_eq hstep
        have hrevs : RouterEvent.unregistered c ∈ revs := by
          simpa using hmem
        exact hworker c (hcases.clients.2 c hrevs)
  | _ => rcases hdrops with rfl | rfl <;> simp at hmem

theorem KnownClients.entries (h : KnownClients tr s) :
    ∀ c ∈ s.registry.ids, c < s.handlers.length := by
  intro c hc
  obtain ⟨earlier, later, rfl, -⟩ := (h.mirrors.registered c).mp hc
  exact h.registered c (by simp)

/-- A step leaves the worker with clients that have a handler. -/
theorem KnownClients.worker_step (h : KnownClients tr s)
    (hstep : BrokerStep s a s' evs) :
    ∀ c ∈ s'.router.worker.clients, c < s.handlers.length := by
  cases hstep with
  | worker action router revs hlooksUp hstep =>
      intro c hc
      have hcases := PriorityRouter.workerStep_of_eq hstep
      rcases hcases.clients.1 c hc with hc | ⟨subscribers, rfl, hc⟩
      · exact h.worker c hc
      · obtain ⟨seq, msg, -, rfl⟩ := lookup_eq hlooksUp hstep
        obtain ⟨topics, hentry, -⟩ :=
          ConnectionRegistry.mem_getSubscribers_iff.mp hc
        exact h.entries c (List.mem_map_of_mem hentry)
  | stopRouter =>
      exact PriorityRouter.worker_stop_cases
        (motive := fun worker => ∀ c ∈ worker.clients, c < _) s.router
        (by simp [Worker.clients]) (by simp [Worker.clients])
  | _ => exact h.worker

theorem Mirrors.foldl (h : Mirrors tr registry)
    (hfresh : ∀ c, .registered c ∈ evs →
      evs = [.registered c] ∧ .registered c ∉ tr) :
    Mirrors (tr ++ evs) (evs.foldl ConnectionRegistry.apply registry) := by
  by_cases hnew : ∃ c, .registered c ∈ evs
  · obtain ⟨c, hmem⟩ := hnew
    obtain ⟨rfl, hnot⟩ := hfresh c hmem
    refine h.apply ?_
    rintro d ⟨⟩
    exact hnot
  · clear hfresh
    induction evs generalizing tr registry with
    | nil => rwa [List.append_nil]
    | cons e evs ih =>
        have hhead : ∀ c, e ≠ .registered c := by
          rintro c rfl
          exact hnew ⟨c, List.mem_cons_self⟩
        have happly := h.apply (e := e) fun c heq => absurd heq (hhead c)
        rw [← List.singleton_append, ← List.append_assoc]
        refine ih happly ?_
        rintro ⟨c, hmem⟩
        exact hnew ⟨c, List.mem_cons_of_mem _ hmem⟩

theorem KnownClients.step (h : KnownClients tr s)
    (hstep : BrokerStep s a s' evs) : KnownClients (tr ++ evs) s' := by
  have hlength := length_handlers_step hstep
  refine ⟨?_, ?_, ?_, ?_⟩
  · rw [registry_eq_step hstep]
    refine h.mirrors.foldl ?_
    intro c hmem
    obtain ⟨hevs, hc, -⟩ := registered_step hstep hmem
    refine ⟨hevs, fun hold => ?_⟩
    exact absurd (h.registered c hold) (by rw [hc]; exact lt_irrefl _)
  · intro c hmem
    rcases List.mem_append.mp hmem with hold | hnew
    · exact lt_of_lt_of_le (h.registered c hold) hlength
    · obtain ⟨-, hc, hgrow⟩ := registered_step hstep hnew
      rw [hc, hgrow]
      exact Nat.lt_succ_self _
  · intro c e hmem hdrops
    rcases List.mem_append.mp hmem with hold | hnew
    · exact lt_of_lt_of_le (h.dropped c e hold hdrops) hlength
    · exact lt_of_lt_of_le (drops_step hstep h.worker hnew hdrops) hlength
  · intro c hc
    exact lt_of_lt_of_le (h.worker_step hstep c hc) hlength

theorem knownClients_run (h : broker.Reaches (.init log) tr s) :
    KnownClients tr s :=
  h.invariant (knownClients_init log) fun _ _ _ _ _ ht _ hstep =>
    ht.step (BrokerServer.step_of_eq hstep)

/-- Every client that has a handler has come. -/
theorem came_run (h : broker.Reaches (.init log) tr s)
    (hc : c < s.handlers.length) : .registered c ∈ tr := by
  induction h with
  | nil => cases hc
  | snoc _ _ hstep ih =>
      rcases handlers_length_step (BrokerServer.step_of_eq hstep) with
        ⟨heq, -⟩ | ⟨heq, rfl⟩
      · rw [heq] at hc
        exact List.mem_append_left _ (ih hc)
      · rw [heq] at hc
        rcases Nat.lt_succ_iff_lt_or_eq.mp hc with hc | rfl
        · exact List.mem_append_left _ (ih hc)
        · exact List.mem_append_right _ (List.mem_singleton_self _)

/-- A client that has a handler and has not been dropped is registered. -/
theorem mem_ids_run (h : broker.Reaches (.init log) tr s)
    (hc : c < s.handlers.length) (hkept : ∀ e ∈ tr, ¬e.Drops c) :
    c ∈ s.registry.ids := by
  obtain ⟨earlier, later, rfl⟩ := List.append_of_mem (came_run h hc)
  refine ((knownClients_run h).mirrors.registered c).mpr
    ⟨earlier, later, rfl, ?_⟩
  exact fun e he => hkept e (by simp [he])

/-! ## What the registry holds -/

/-- The subscribers of a topic are the clients that listen to it, each listed
once. -/
theorem getSubscribers_run (h : broker.Reaches (.init log) tr s)
    (topic : ℤ) :
    (s.registry.getSubscribers topic).Nodup ∧
      ∀ c, c ∈ s.registry.getSubscribers topic ↔ Listens c topic tr := by
  have hmirrors := (knownClients_run h).mirrors
  exact ⟨ConnectionRegistry.nodup_getSubscribers hmirrors.nodup topic,
    fun c => hmirrors.listens c topic⟩

theorem Registered.left (h : Registered c (tr ++ evs))
    (hold : .registered c ∉ evs) :
    Registered c tr ∧ ∀ e ∈ evs, ¬e.Drops c := by
  induction evs using List.reverseRecOn with
  | nil => exact ⟨by rwa [List.append_nil] at h, by simp⟩
  | append_singleton evs e ih =>
      rw [List.mem_append, not_or] at hold
      rw [← List.append_assoc, registered_concat_iff] at h
      rcases h with ⟨h, hkept⟩ | rfl
      · obtain ⟨hregistered, hkepts⟩ := ih h hold.1
        refine ⟨hregistered, ?_⟩
        intro e' he'
        rcases List.mem_append.mp he' with he' | he'
        · exact hkepts e' he'
        · rw [List.mem_singleton.mp he']
          exact hkept
      · exact absurd (List.mem_singleton_self _) hold.2

/-- A client that is registered has never been dropped: clients that have been
dropped do not come again, and their late requests to subscribe do not bring
them back. -/
theorem Registered.not_drops (h : broker.Reaches (.init log) tr s)
    (hregistered : Registered c tr) : ∀ e ∈ tr, ¬e.Drops c := by
  induction h with
  | nil => simp
  | @snoc t u tr evs a hrun _ hstep ih =>
      have hknown := knownClients_run hrun
      have hcases := BrokerServer.step_of_eq hstep
      intro e he hdrops
      by_cases hnew : .registered c ∈ evs
      · obtain ⟨rfl, rfl, -⟩ := registered_step hcases hnew
        rcases List.mem_append.mp he with he | he
        · exact lt_irrefl _ (hknown.dropped _ e he hdrops)
        · rw [List.mem_singleton.mp he] at hdrops
          rcases hdrops with hdrops | hdrops <;> cases hdrops
      · obtain ⟨hold, hkept⟩ := hregistered.left hnew
        rcases List.mem_append.mp he with he | he
        · exact ih hold e he hdrops
        · exact hkept e he hdrops

/-- Once a client has been unregistered, by its own handler or by the router,
it is never again among the subscribers of any topic. -/
theorem not_mem_getSubscribers_of_drops (h : broker.Reaches (.init log) tr s)
    (hmem : e ∈ tr) (hdrops : e.Drops c) (topic : ℤ) :
    c ∉ s.registry.getSubscribers topic := by
  intro hc
  have hlistens := ((getSubscribers_run h topic).2 c).mp hc
  exact hlistens.registered.not_drops h e hmem hdrops

end SentinelHub.Broker
