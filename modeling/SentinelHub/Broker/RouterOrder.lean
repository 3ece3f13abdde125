import Mathlib.Data.Fin.Basic
import Mathlib.Data.List.FinRange
import SentinelHub.Broker.Router

/-!
# The order in which the router serves

The heap of the router, with its negated priorities and its sequence counter,
refines a bank of 256 FIFO queues of which always the highest non-empty one is
served.  The invariant `OrderInv` relates the trace of the router to its heap;
it is preserved by every step, so that the results hold for every run, with
any interleaving of enqueues and worker steps, crashes and restarts included.
-/

namespace SentinelHub.Broker

open SentinelHub.Support

/-! ## What is enqueued, handed over and waiting -/

/-- The messages enqueued during a trace, with their sequence numbers. -/
def enqueuedIn (tr : List RouterEvent) : List (ℕ × Message) :=
  tr.filterMap fun
    | .enqueued seq msg => some (seq, msg)
    | _ => none

/-- The messages that the worker hands to `_fanout` during a trace. -/
def handedIn (tr : List RouterEvent) : List (ℕ × Message) :=
  tr.filterMap fun
    | .handedOver seq msg => some (seq, msg)
    | _ => none

/-- The messages in the heap. -/
def PriorityRouter.queued (r : PriorityRouter) : List (ℕ × Message) :=
  r.heap.map fun entry => (entry.seq, entry.message)

/-- The queue for a priority between 0 and 255. -/
def priorityLevel (msg : Message) : Fin 256 :=
  Fin.ofNat 256 msg.priority.toNat

/-- The queues from the highest priority to the lowest. -/
def priorityLevels : List (Fin 256) := (List.finRange 256).reverse

/-- What the trace asks of the bank: enqueued messages arrive, and whenever the
worker hands over a message, the bank serves one. -/
def bankOps (tr : List RouterEvent) : List (QueueBank.Op Message) :=
  tr.filterMap fun
    | .enqueued _ msg => some (.push msg)
    | .handedOver _ _ => some .serve
    | _ => none

/-- No message is handed over while one with a higher priority is waiting. -/
def HighestFirst (tr : List RouterEvent) : Prop :=
  ∀ before seq msg after, tr = before ++ .handedOver seq msg :: after →
    ∀ waiting ∈ enqueuedIn before, waiting ∉ handedIn before →
      waiting.2.priority ≤ msg.priority

/-- The priorities of the messages enqueued are those of a `uint8`. -/
def PrioritiesInRange (_ : PriorityRouter) (a : RouterAction) : Prop :=
  ∀ msg, a = .enqueue msg → 0 ≤ msg.priority ∧ msg.priority < 256

instance (r : PriorityRouter) : (a : RouterAction) →
    Decidable (PrioritiesInRange r a)
  | .enqueue msg =>
      decidable_of_iff (0 ≤ msg.priority ∧ msg.priority < 256)
        ⟨fun h _ heq => RouterAction.enqueue.inj heq ▸ h, fun h => h msg rfl⟩
  | .start => isTrue fun _ h => by cases h
  | .stop => isTrue fun _ h => by cases h
  | .worker _ => isTrue fun _ h => by cases h

theorem enqueuedIn_append (tr tr' : List RouterEvent) :
    enqueuedIn (tr ++ tr') = enqueuedIn tr ++ enqueuedIn tr' :=
  List.filterMap_append

theorem handedIn_append (tr tr' : List RouterEvent) :
    handedIn (tr ++ tr') = handedIn tr ++ handedIn tr' :=
  List.filterMap_append

theorem bankOps_append (tr tr' : List RouterEvent) :
    bankOps (tr ++ tr') = bankOps tr ++ bankOps tr' :=
  List.filterMap_append

theorem enqueuedIn_eq_nil {tr : List RouterEvent}
    (h : ∀ seq msg, .enqueued seq msg ∉ tr) : enqueuedIn tr = [] := by
  rw [enqueuedIn, List.filterMap_eq_nil_iff]
  intro e he
  cases e with
  | enqueued seq msg => exact absurd he (h seq msg)
  | _ => rfl

theorem handedIn_eq_nil {tr : List RouterEvent}
    (h : ∀ seq msg, .handedOver seq msg ∉ tr) : handedIn tr = [] := by
  rw [handedIn, List.filterMap_eq_nil_iff]
  intro e he
  cases e with
  | handedOver seq msg => exact absurd he (h seq msg)
  | _ => rfl

theorem mem_enqueuedIn {tr : List RouterEvent} {seq : ℕ} {msg : Message} :
    (seq, msg) ∈ enqueuedIn tr ↔ .enqueued seq msg ∈ tr := by
  rw [enqueuedIn, List.mem_filterMap]
  constructor
  · rintro ⟨e, he, heq⟩
    cases e with
    | enqueued seq' msg' =>
        cases heq
        exact he
    | _ => cases heq
  · intro he
    exact ⟨_, he, rfl⟩

/-! ## What the heap keeps, whatever the priorities -/

theorem PriorityRouter.queued_enqueue (r : PriorityRouter) (msg : Message) :
    (r.enqueue msg).queued = r.queued ++ [(r.seq, msg)] := by
  rw [queued, enqueue, List.map_append]
  rfl

/-- What was waiting or is enqueued is handed over or waits. -/
theorem queued_step {r r' : PriorityRouter} {a : RouterAction}
    {evs : List RouterEvent} (hstep : router.step r a = some (r', evs)) :
    (r.queued ++ enqueuedIn evs).Perm (handedIn evs ++ r'.queued) := by
  cases a with
  | start =>
      cases hstep
      rw [PriorityRouter.start]
      split <;> exact List.perm_append_comm
  | stop =>
      cases hstep
      exact List.perm_append_comm
  | enqueue msg =>
      cases hstep
      rw [r.queued_enqueue]
      exact List.Perm.refl _
  | worker action =>
      obtain ⟨-, ⟨entry, hpop, rfl⟩ | ⟨hheap, hhanded, henqueued⟩⟩ :=
        (PriorityRouter.workerStep_of_eq hstep).heap
      · have hperm : r.queued.Perm
            ((entry.seq, entry.message) :: r'.queued) :=
          (popMin_perm hpop).map fun e : HeapEntry => (e.seq, e.message)
        exact (List.append_nil r.queued).symm ▸ hperm
      · rw [enqueuedIn_eq_nil henqueued, handedIn_eq_nil hhanded,
          PriorityRouter.queued, PriorityRouter.queued, hheap]
        exact List.perm_append_comm

theorem queued_run {ok : PriorityRouter → RouterAction → Prop}
    {r r' : PriorityRouter} {tr : List RouterEvent}
    (h : router.Run ok r tr r') :
    (r.queued ++ enqueuedIn tr).Perm (handedIn tr ++ r'.queued) :=
  h.account PriorityRouter.queued enqueuedIn_append handedIn_append
    fun _ _ _ _ _ _ _ hstep => queued_step hstep

/-- The sequence numbers count the messages enqueued. -/
theorem numbered_run {ok : PriorityRouter → RouterAction → Prop}
    {r : PriorityRouter} {tr : List RouterEvent}
    (h : router.Run ok .init tr r) :
    (enqueuedIn tr).map Prod.fst = List.range r.seq := by
  refine h.invariant (I := fun tr r =>
    (enqueuedIn tr).map Prod.fst = List.range r.seq) rfl ?_
  intro tr r a r' evs htr _ hstep
  rw [enqueuedIn_append, List.map_append, htr]
  cases a with
  | start =>
      cases hstep
      rw [PriorityRouter.start]
      split <;> exact List.append_nil _
  | stop =>
      cases hstep
      exact List.append_nil _
  | enqueue msg =>
      cases hstep
      exact List.range_succ.symm
  | worker action =>
      obtain ⟨hseq, ⟨entry, -, rfl⟩ | ⟨-, -, henqueued⟩⟩ :=
        (PriorityRouter.workerStep_of_eq hstep).heap
      · rw [hseq]
        exact List.append_nil _
      · rw [hseq, enqueuedIn_eq_nil henqueued]
        exact List.append_nil _

/-! ## Levels and priorities -/

theorem priorityLevel_val {msg : Message}
    (h : 0 ≤ msg.priority ∧ msg.priority < 256) :
    ((priorityLevel msg).val : ℤ) = msg.priority := by
  have hmod : msg.priority.toNat % 256 = msg.priority.toNat := by omega
  rw [priorityLevel, Fin.val_ofNat, hmod]
  omega

theorem priorityLevels_eq (p : Fin 256) :
    ∃ before after, priorityLevels = before ++ p :: after ∧
      ∀ q ∈ before, p < q := by
  have hmem : p ∈ priorityLevels := by
    rw [priorityLevels, List.mem_reverse]
    exact List.mem_finRange p
  have hsorted : priorityLevels.Pairwise (fun p q => q < p) := by
    rw [priorityLevels, List.pairwise_reverse]
    exact List.pairwise_lt_finRange 256
  obtain ⟨before, after, heq⟩ := List.append_of_mem hmem
  refine ⟨before, after, heq, ?_⟩
  rw [heq, List.pairwise_append] at hsorted
  intro q hq
  exact hsorted.2.2 q hq p (List.mem_cons_self ..)

/-! ## The least heap entry -/

theorem HeapEntry.key_lt_iff {e e' : HeapEntry} :
    e.key < e'.key ↔ e.negPriority < e'.negPriority ∨
      e.negPriority = e'.negPriority ∧
        (e.seq < e'.seq ∨ e.seq = e'.seq ∧ e.message.key < e'.message.key) := by
  simp only [key, Prod.Lex.toLex_lt_toLex]

theorem HeapEntry.negPriority_le_of_key_le {e e' : HeapEntry}
    (h : e.key ≤ e'.key) : e.negPriority ≤ e'.negPriority := by
  by_contra hlt
  exact absurd (HeapEntry.key_lt_iff.mpr (Or.inl (not_le.mp hlt)))
    (not_lt.mpr h)

/-- What the worker pops: no waiting message has a higher priority, and those
with the same one arrived later. -/
theorem popMin_entry {heap rest : List HeapEntry} {entry : HeapEntry}
    (hneg : ∀ e ∈ heap, e.negPriority = -e.message.priority)
    (hsorted : heap.Pairwise fun e e' => e.seq < e'.seq)
    (h : popMin HeapEntry.key heap = some (entry, rest)) :
    ∃ front back, heap = front ++ entry :: back ∧ rest = front ++ back ∧
      (∀ x ∈ front, x.message.priority < entry.message.priority) ∧
      (∀ x ∈ back, x.message.priority ≤ entry.message.priority) ∧
      ∀ x ∈ back, entry.seq < x.seq := by
  obtain ⟨front, back, rfl, rfl, hfront, hback⟩ := popMin_eq_some h
  have hentry := hneg entry (by simp)
  rw [List.pairwise_append, List.pairwise_cons] at hsorted
  refine ⟨front, back, rfl, rfl, ?_, ?_, hsorted.2.1.1⟩
  · intro x hx
    have hx' := hneg x (by simp [hx])
    have hseq := hsorted.2.2 x hx entry (List.mem_cons_self ..)
    rcases HeapEntry.key_lt_iff.mp (hfront x hx) with hlt | ⟨-, hlt | ⟨heq, -⟩⟩
    · omega
    · omega
    · omega
  · intro x hx
    have hx' := hneg x (by simp [hx])
    have hle := HeapEntry.negPriority_le_of_key_le (hback x hx)
    omega

/-- The bank serves the entry that the worker pops. -/
theorem serve_pop {heap front back : List HeapEntry} {entry : HeapEntry}
    (hrange : ∀ e ∈ heap, 0 ≤ e.message.priority ∧ e.message.priority < 256)
    (hheap : heap = front ++ entry :: back)
    (hfront : ∀ x ∈ front, x.message.priority < entry.message.priority)
    (hback : ∀ x ∈ back, x.message.priority ≤ entry.message.priority) :
    QueueBank.serve priorityLevels
        (QueueBank.ofList priorityLevel (heap.map HeapEntry.message)) =
      some (entry.message, QueueBank.ofList priorityLevel
        ((front ++ back).map HeapEntry.message)) := by
  have hval : ∀ x ∈ heap,
      ((priorityLevel x.message).val : ℤ) = x.message.priority :=
    fun x hx => priorityLevel_val (hrange x hx)
  have hentry := hval entry (by simp [hheap])
  have hle : ∀ x ∈ heap, x.message.priority ≤ entry.message.priority := by
    intro x hx
    rw [hheap, List.mem_append, List.mem_cons] at hx
    rcases hx with hx | rfl | hx
    · exact (hfront x hx).le
    · exact le_rfl
    · exact hback x hx
  obtain ⟨before, after, hlevels, hbefore⟩ :=
    priorityLevels_eq (priorityLevel entry.message)
  rw [hheap, List.map_append, List.map_cons, List.map_append]
  refine QueueBank.serve_ofList hlevels rfl ?_ ?_
  · intro msg hmsg heq
    obtain ⟨x, hx, rfl⟩ := List.mem_map.mp hmsg
    have hx' := hval x (by simp [hheap, hx])
    have hlt := hfront x hx
    rw [heq] at hx'
    omega
  · intro q hq msg hmsg heq
    have hmem : msg ∈ heap.map HeapEntry.message := by
      rw [hheap, List.map_append, List.map_cons]
      exact hmsg
    obtain ⟨x, hx, rfl⟩ := List.mem_map.mp hmem
    have hx' := hval x hx
    have hlt := hbefore q hq
    rw [← heq, Fin.lt_def] at hlt
    have := hle x hx
    omega

/-! ## The invariant -/

/-- The heap holds what has been enqueued and not handed over, in the order of
arrival, and the bank has served what has been handed over. -/
structure OrderInv (tr : List RouterEvent) (r : PriorityRouter) : Prop where
  negPriority : ∀ e ∈ r.heap, e.negPriority = -e.message.priority
  inRange : ∀ e ∈ r.heap,
    0 ≤ e.message.priority ∧ e.message.priority < 256
  sorted : r.heap.Pairwise fun e e' => e.seq < e'.seq
  numbered : (enqueuedIn tr).map Prod.fst = List.range r.seq
  conserved : (enqueuedIn tr).Perm (handedIn tr ++ r.queued)
  fifo : (handedIn tr ++ r.queued).Pairwise fun a b =>
    a.2.priority = b.2.priority → a.1 < b.1
  bank : QueueBank.run priorityLevel priorityLevels (fun _ => [])
      (bankOps tr) =
    some ((handedIn tr).map Prod.snd,
      QueueBank.ofList priorityLevel (r.heap.map HeapEntry.message))
  highest : HighestFirst tr

variable {r r' : PriorityRouter} {tr evs : List RouterEvent}

theorem orderInv_init : OrderInv [] .init where
  negPriority := by simp [PriorityRouter.init]
  inRange := by simp [PriorityRouter.init]
  sorted := List.Pairwise.nil
  numbered := rfl
  conserved := List.Perm.refl _
  fifo := List.Pairwise.nil
  bank := rfl
  highest := by
    intro before seq msg after heq
    simp at heq

/-- Everything numbered so far has a number below the counter. -/
theorem OrderInv.lt_seq (h : OrderInv tr r) :
    ∀ a ∈ handedIn tr ++ r.queued, a.1 < r.seq := by
  intro a ha
  have hmem : a.1 ∈ (enqueuedIn tr).map Prod.fst :=
    List.mem_map_of_mem (h.conserved.mem_iff.mpr ha)
  rwa [h.numbered, List.mem_range] at hmem

theorem HighestFirst.append (h : HighestFirst tr)
    (hevs : ∀ seq msg, .handedOver seq msg ∉ evs) :
    HighestFirst (tr ++ evs) := by
  intro before seq msg after heq
  rcases List.append_eq_append_iff.mp heq with ⟨l, rfl, hl⟩ | ⟨l, hl, hr⟩
  · exact absurd (by rw [hl]; simp) (hevs seq msg)
  · cases l with
    | nil =>
        exact absurd (by rw [← List.nil_append evs, ← hr]; simp) (hevs seq msg)
    | cons e l =>
        obtain ⟨rfl, -⟩ := List.cons.inj hr
        exact h before seq msg l hl

/-- Steps that neither enqueue nor hand over. -/
theorem OrderInv.other (h : OrderInv tr r) (hheap : r'.heap = r.heap)
    (hseq : r'.seq = r.seq) (hevs : ∀ seq msg, .handedOver seq msg ∉ evs)
    (hevs' : ∀ seq msg, .enqueued seq msg ∉ evs) :
    OrderInv (tr ++ evs) r' := by
  have henq := enqueuedIn_eq_nil hevs'
  have hhand := handedIn_eq_nil hevs
  have hops : bankOps evs = [] := by
    rw [bankOps, List.filterMap_eq_nil_iff]
    intro e he
    cases e with
    | enqueued seq msg => exact absurd he (hevs' seq msg)
    | handedOver seq msg => exact absurd he (hevs seq msg)
    | _ => rfl
  have hqueued : r'.queued = r.queued := by
    rw [PriorityRouter.queued, hheap, PriorityRouter.queued]
  constructor
  · rw [hheap]
    exact h.negPriority
  · rw [hheap]
    exact h.inRange
  · rw [hheap]
    exact h.sorted
  · rw [enqueuedIn_append, henq, List.append_nil, hseq]
    exact h.numbered
  · rw [enqueuedIn_append, handedIn_append, henq, hhand, hqueued,
      List.append_nil, List.append_nil]
    exact h.conserved
  · rw [handedIn_append, hhand, hqueued, List.append_nil]
    exact h.fifo
  · rw [bankOps_append, handedIn_append, hops, hhand, hheap,
      List.append_nil, List.append_nil]
    exact h.bank
  · exact h.highest.append hevs

theorem OrderInv.enqueue (h : OrderInv tr r) {msg : Message}
    (hmsg : 0 ≤ msg.priority ∧ msg.priority < 256) :
    OrderInv (tr ++ [.enqueued r.seq msg]) (r.enqueue msg) := by
  have hqueued := r.queued_enqueue msg
  have henq : enqueuedIn [.enqueued r.seq msg] = [(r.seq, msg)] := rfl
  have hhand : handedIn [.enqueued r.seq msg] = [] := rfl
  constructor
  · intro e he
    rw [PriorityRouter.enqueue, List.mem_append, List.mem_singleton] at he
    rcases he with he | rfl
    · exact h.negPriority e he
    · rfl
  · intro e he
    rw [PriorityRouter.enqueue, List.mem_append, List.mem_singleton] at he
    rcases he with he | rfl
    · exact h.inRange e he
    · exact hmsg
  · rw [PriorityRouter.enqueue, List.pairwise_append]
    refine ⟨h.sorted, List.pairwise_singleton _ _, ?_⟩
    intro e he e' he'
    rw [List.mem_singleton] at he'
    subst he'
    have hmem : (e.seq, e.message) ∈ r.queued :=
      List.mem_map_of_mem he
    exact h.lt_seq _ (List.mem_append_right _ hmem)
  · rw [enqueuedIn_append, henq, List.map_append, h.numbered]
    exact List.range_succ.symm
  · rw [enqueuedIn_append, handedIn_append, henq, hhand, hqueued,
      List.append_nil, ← List.append_assoc]
    exact h.conserved.append_right _
  · rw [handedIn_append, hhand, hqueued, List.append_nil, ← List.append_assoc,
      List.pairwise_append]
    refine ⟨h.fifo, List.pairwise_singleton _ _, ?_⟩
    intro a ha b hb _
    rw [List.mem_singleton] at hb
    subst hb
    exact h.lt_seq a ha
  · have hpush : QueueBank.run priorityLevel priorityLevels
        (QueueBank.ofList priorityLevel (r.heap.map HeapEntry.message))
        (bankOps [.enqueued r.seq msg]) =
          some ([], QueueBank.ofList priorityLevel
            ((r.enqueue msg).heap.map HeapEntry.message)) := by
      change QueueBank.run priorityLevel priorityLevels
        (QueueBank.push priorityLevel _ msg) [] = _
      rw [QueueBank.push_ofList, QueueBank.run, PriorityRouter.enqueue,
        List.map_append]
      rfl
    rw [bankOps_append, handedIn_append, hhand, List.append_nil,
      QueueBank.run_append h.bank hpush, List.append_nil]
  · exact h.highest.append (by simp)

theorem OrderInv.pop (h : OrderInv tr r) {entry : HeapEntry}
    (hpop : popMin HeapEntry.key r.heap = some (entry, r'.heap))
    (hseq : r'.seq = r.seq) :
    OrderInv (tr ++ [.handedOver entry.seq entry.message]) r' := by
  obtain ⟨front, back, hheap, hrest, hfront, hback, hlater⟩ :=
    popMin_entry h.negPriority h.sorted hpop
  have hsub := popMin_sublist hpop
  have henq : enqueuedIn [.handedOver entry.seq entry.message] = [] := rfl
  have hhand : handedIn [.handedOver entry.seq entry.message] =
      [(entry.seq, entry.message)] := rfl
  have hperm : r.queued.Perm ((entry.seq, entry.message) :: r'.queued) :=
    List.Perm.map (fun e : HeapEntry => (e.seq, e.message)) (popMin_perm hpop)
  have hconserved : (enqueuedIn tr).Perm
      (handedIn tr ++ (entry.seq, entry.message) :: r'.queued) :=
    h.conserved.trans (hperm.append_left _)
  constructor
  · exact fun e he => h.negPriority e (hsub.subset he)
  · exact fun e he => h.inRange e (hsub.subset he)
  · exact h.sorted.sublist hsub
  · rw [enqueuedIn_append, henq, List.append_nil, hseq]
    exact h.numbered
  · rw [enqueuedIn_append, handedIn_append, henq, hhand, List.append_nil,
      List.append_assoc]
    exact hconserved
  · have hfifo := h.fifo
    rw [List.pairwise_append] at hfifo
    obtain ⟨hhanded, hwaiting, hcross⟩ := hfifo
    rw [handedIn_append, hhand, List.append_assoc, List.singleton_append,
      List.pairwise_append, List.pairwise_cons]
    refine ⟨hhanded, ⟨?_, ?_⟩, ?_⟩
    · intro b hb heq
      rw [PriorityRouter.queued, List.mem_map] at hb
      obtain ⟨x, hx, rfl⟩ := hb
      rw [hrest, List.mem_append] at hx
      rcases hx with hx | hx
      · exact absurd heq (hfront x hx).ne'
      · exact hlater x hx
    · exact hwaiting.sublist (hsub.map _)
    · intro a ha b hb
      exact hcross a ha b (hperm.mem_iff.mpr hb)
  · have hserve := serve_pop h.inRange hheap hfront hback
    rw [bankOps_append, handedIn_append, hhand, List.map_append]
    refine QueueBank.run_append h.bank ?_
    change QueueBank.run priorityLevel priorityLevels _ [.serve] = _
    rw [QueueBank.run, hserve, hrest]
    rfl
  · intro before seq msg after heq waiting hwaiting hnot
    rcases after.eq_nil_or_concat with rfl | ⟨after, e, rfl⟩
    · obtain ⟨rfl, hlast⟩ := List.append_inj' heq rfl
      cases hlast
      have hmem := hconserved.mem_iff.mp hwaiting
      rw [List.mem_append, or_iff_right hnot, ← hperm.mem_iff,
        PriorityRouter.queued, List.mem_map] at hmem
      obtain ⟨x, hx, rfl⟩ := hmem
      rw [hheap, List.mem_append, List.mem_cons] at hx
      rcases hx with hx | rfl | hx
      · exact (hfront x hx).le
      · exact le_rfl
      · exact hback x hx
    · rw [List.concat_eq_append, ← List.cons_append, ← List.append_assoc]
        at heq
      exact h.highest before seq msg after (List.append_inj' heq rfl).1
        waiting hwaiting hnot

theorem OrderInv.step {a : RouterAction} (h : OrderInv tr r)
    (hok : PrioritiesInRange r a) (hstep : router.step r a = some (r', evs)) :
    OrderInv (tr ++ evs) r' := by
  cases a with
  | start =>
      cases hstep
      rw [PriorityRouter.start]
      split
      · exact h.other rfl rfl (by simp) (by simp)
      · exact h.other rfl rfl (by simp) (by simp)
  | stop =>
      cases hstep
      exact h.other rfl rfl (by simp) (by simp)
  | enqueue msg =>
      cases hstep
      exact h.enqueue (hok msg rfl)
  | worker action =>
      obtain ⟨hseq, ⟨entry, hpop, rfl⟩ | ⟨hheap, hevs, hevs'⟩⟩ :=
        (PriorityRouter.workerStep_of_eq hstep).heap
      · exact h.pop hpop hseq
      · exact h.other hheap hseq hevs hevs'

theorem orderInv_run (h : router.Run PrioritiesInRange .init tr r) :
    OrderInv tr r :=
  h.invariant orderInv_init fun _ _ _ _ _ ht hok hstep => ht.step hok hstep

/-! ## The router refines the bank -/

/-- Two entries of the heap never agree in priority and sequence number. -/
theorem OrderInv.not_comparesMessages (h : OrderInv tr r) :
    r.heap.Pairwise fun e e' =>
      ¬e.ComparesMessages e' ∧ ¬e'.ComparesMessages e := by
  refine h.sorted.imp ?_
  rintro e e' hlt
  exact ⟨fun heq => absurd heq.2 hlt.ne, fun heq => absurd heq.2 hlt.ne'⟩

/-- A message is handed over at most once. -/
theorem OrderInv.nodup_handed (h : OrderInv tr r) :
    ((handedIn tr).map Prod.fst).Nodup := by
  have hperm := h.conserved.map Prod.fst
  rw [h.numbered, List.map_append] at hperm
  exact (hperm.nodup_iff.mp List.nodup_range).of_append_left

/-- In every run, with enqueues of messages of any priorities between 0 and
255 at any time: the messages handed over are those that the bank of FIFO
queues serves, and the bank keeps those in the heap; none is handed over while
one with a higher priority is waiting; equal priorities go in the order of
their enqueues, which the sequence numbers count; no message is handed over
twice; the enqueued messages are those handed over and those in the heap; and
no comparison of two heap entries gets as far as their messages. -/
theorem router_refines_bank
    (h : router.Run PrioritiesInRange .init tr r) :
    QueueBank.run priorityLevel priorityLevels (fun _ => []) (bankOps tr) =
        some ((handedIn tr).map Prod.snd, QueueBank.ofList priorityLevel
          (r.heap.map HeapEntry.message)) ∧
      HighestFirst tr ∧
      (handedIn tr ++ r.queued).Pairwise (fun a b =>
        a.2.priority = b.2.priority → a.1 < b.1) ∧
      (enqueuedIn tr).map Prod.fst = List.range r.seq ∧
      ((handedIn tr).map Prod.fst).Nodup ∧
      (enqueuedIn tr).Perm (handedIn tr ++ r.queued) ∧
      r.heap.Pairwise (fun e e' =>
        ¬e.ComparesMessages e' ∧ ¬e'.ComparesMessages e) := by
  have hinv := orderInv_run h
  exact ⟨hinv.bank, hinv.highest, hinv.fifo, hinv.numbered, hinv.nodup_handed,
    hinv.conserved, hinv.not_comparesMessages⟩

/-- A message with a higher priority arrives while another one is fanned
out. -/
theorem router_refines_bank_overtaking :
    let low : Message :=
      { command := cmdPublish, topicId := 1, priority := 0, payload := [] }
    let high : Message := { low with priority := 255 }
    QueueBank.run priorityLevel priorityLevels (fun _ => [])
        [.push low, .push low, .serve, .push high, .serve] =
      some ([low, high], QueueBank.ofList priorityLevel [low]) := by
  intro low high
  have hrun : router.Run PrioritiesInRange .init
      [.enqueued 0 low, .enqueued 1 low, .handedOver 0 low, .enqueued 2 high,
        .handedOver 2 high]
      { heap := [{ negPriority := 0, seq := 1, message := low }]
        seq := 3
        event := true
        running := true
        worker := .fanout 2 high } :=
    System.exec_run [.enqueue low, .enqueue low, .start, .worker .wake,
      .worker .pop, .worker (.lookup []), .enqueue high, .worker .resume,
      .worker .pop] (by decide)
  exact (router_refines_bank hrun).1

end SentinelHub.Broker
