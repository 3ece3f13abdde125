import SentinelHub.Broker.ServerSteps

/-!
# From the log to the router

A publish is written to the log, waits in its handler, and is enqueued.  This
module follows it through every run of the broker: the messages written since
the start are, one by one, those enqueued by a handler and those that a
handler still holds; the log consists of what it held at the start and their
frames; and the router inside the broker runs as a router of its own.
-/

namespace SentinelHub.Broker

open SentinelHub.Support

/-! ## What a trace says about publishes -/

/-- The messages written to the log, with the positions of their frames. -/
def loggedIn (tr : List BrokerEvent) : List (Message × ℕ) :=
  tr.filterMap fun
    | .appended _ msg _ start => some (msg, start)
    | _ => none

/-- The messages enqueued by publish handlers, with the positions of their
frames in the log. -/
def publishedIn (tr : List BrokerEvent) : List (Message × ℕ) :=
  tr.filterMap fun
    | .published _ _ msg start => some (msg, start)
    | _ => none

/-- The events of the router inside the broker. -/
def routerEvents (tr : List BrokerEvent) : List RouterEvent :=
  tr.filterMap fun
    | .router event => some event
    | _ => none

/-- The message that a handler holds between append and enqueue. -/
def Handler.held : Handler → List (Message × ℕ)
  | .appended msg _ _ start => [(msg, start)]
  | _ => []

/-- The messages whose handlers are suspended between append and enqueue. -/
def BrokerServer.suspended (s : BrokerServer) : List (Message × ℕ) :=
  s.handlers.flatMap Handler.held

/-- Every append that raises has written nothing. -/
def NoTornAppend (tr : List BrokerEvent) : Prop :=
  ∀ c msg n, .appendRaised c msg n ∈ tr → n = 0

theorem loggedIn_append (tr tr' : List BrokerEvent) :
    loggedIn (tr ++ tr') = loggedIn tr ++ loggedIn tr' :=
  List.filterMap_append

theorem publishedIn_append (tr tr' : List BrokerEvent) :
    publishedIn (tr ++ tr') = publishedIn tr ++ publishedIn tr' :=
  List.filterMap_append

theorem routerEvents_append (tr tr' : List BrokerEvent) :
    routerEvents (tr ++ tr') = routerEvents tr ++ routerEvents tr' :=
  List.filterMap_append

theorem routerEvents_map (evs : List RouterEvent) :
    routerEvents (evs.map .router) = evs := by
  simp [routerEvents, List.filterMap_map]

@[simp] theorem loggedIn_map_router (evs : List RouterEvent) :
    loggedIn (evs.map .router) = [] := by
  simp [loggedIn, List.filterMap_map]

@[simp] theorem publishedIn_map_router (evs : List RouterEvent) :
    publishedIn (evs.map .router) = [] := by
  simp [publishedIn, List.filterMap_map]

theorem mem_handedIn_routerEvents {tr : List BrokerEvent} {seq : ℕ}
    {msg : Message} :
    (seq, msg) ∈ handedIn (routerEvents tr) ↔
      .router (.handedOver seq msg) ∈ tr := by
  simp only [handedIn, routerEvents, List.mem_filterMap]
  constructor
  · rintro ⟨ev, ⟨event, hmem, heq⟩, hev⟩
    cases event with
    | router ev' =>
        cases heq
        cases ev with
        | handedOver =>
            cases hev
            exact hmem
        | _ => cases hev
    | _ => cases heq
  · intro hmem
    exact ⟨_, ⟨_, hmem, rfl⟩, rfl⟩

theorem NoTornAppend.left {tr tr' : List BrokerEvent}
    (h : NoTornAppend (tr ++ tr')) : NoTornAppend tr :=
  fun c msg n hmem => h c msg n (List.mem_append_left tr' hmem)

theorem NoTornAppend.right {tr tr' : List BrokerEvent}
    (h : NoTornAppend (tr ++ tr')) : NoTornAppend tr' :=
  fun c msg n hmem => h c msg n (List.mem_append_right tr hmem)

/-! ## Handlers hold messages that fit the wire -/

/-- A publish handler holds a message that fits the wire, and its frame. -/
def Handler.Ok : Handler → Prop
  | .appending msg call => msg.OnWire ∧ call.pending = some msg.frame
  | .appended msg frame _ _ => msg.OnWire ∧ frame = msg.frame
  | _ => True

def BrokerServer.HandlersOk (s : BrokerServer) : Prop :=
  ∀ handler ∈ s.handlers, handler.Ok

variable {s s' : BrokerServer} {a : BrokerAction} {c : ClientId}
  {tr evs : List BrokerEvent} {handler handler' : Handler} {log₀ : Bytes}

theorem BrokerServer.HandlersOk.get (h : s.HandlersOk)
    (hc : s.handlers[c]? = some handler) : handler.Ok :=
  h handler (List.mem_of_getElem? hc)

/-- What all handlers satisfy and a new one too, they satisfy after it has
taken the place of one of them. -/
theorem forall_mem_set {P : Handler → Prop} {handlers : List Handler}
    (h : ∀ handler ∈ handlers, P handler) (hnew : P handler') :
    ∀ handler ∈ handlers.set c handler', P handler := by
  intro handler hmem
  rcases List.mem_or_eq_of_mem_set hmem with hmem | rfl
  · exact h handler hmem
  · exact hnew

theorem forall_mem_concat {P : Handler → Prop} {handlers : List Handler}
    (h : ∀ handler ∈ handlers, P handler) (hnew : P handler') :
    ∀ handler ∈ handlers ++ [handler'], P handler := by
  intro handler hmem
  rw [List.mem_append, List.mem_singleton] at hmem
  rcases hmem with hmem | rfl
  · exact h handler hmem
  · exact hnew

theorem handlersOk_step (h : s.HandlersOk) (hstep : BrokerStep s a s' evs) :
    s'.HandlersOk := by
  cases hstep with
  | connect => exact forall_mem_concat h trivial
  | publish c msg hhandler hwire => exact forall_mem_set h ⟨hwire, rfl⟩
  | tell c msg frame hhandler =>
      obtain ⟨hwire, hframe⟩ := h.get hhandler
      exact forall_mem_set h ⟨hwire, hframe⟩
  | write c msg frame offset hhandler =>
      obtain ⟨hwire, hframe⟩ := h.get hhandler
      exact forall_mem_set h ⟨hwire, Option.some.inj hframe⟩
  | subscribe => exact h
  | ignore => exact h
  | worker => exact h
  | metricsTick => exact h
  | stop => exact h
  | stopRouter => exact h
  | _ => exact forall_mem_set h trivial

theorem handlersOk_init (log : Option Bytes) :
    (BrokerServer.init log).HandlersOk := by
  intro handler hmem
  cases hmem

theorem handlersOk_run {log : Option Bytes}
    (h : broker.Reaches (.init log) tr s) : s.HandlersOk :=
  h.invariant (I := fun _ s => s.HandlersOk)
    (handlersOk_init log)
    fun _ _ _ _ _ ht _ hstep =>
      handlersOk_step ht (BrokerServer.step_of_eq hstep)

/-! ## Every message written is enqueued once or still on its way -/

/-- Replacing one element of a list splits it there. -/
theorem exists_set_eq {α : Type*} {l : List α} {i : ℕ} {x : α}
    (h : l[i]? = some x) :
    ∃ before after, l = before ++ x :: after ∧
      ∀ y, l.set i y = before ++ y :: after := by
  obtain ⟨hlt, rfl⟩ := List.getElem?_eq_some_iff.mp h
  refine ⟨l.take i, l.drop (i + 1), ?_, ?_⟩
  · rw [List.getElem_cons_drop, List.take_append_drop]
  · intro y
    rw [List.set_eq_take_append_cons_drop, if_pos hlt]

/-- When one handler moves, what it held goes and what it holds comes. -/
theorem held_set {handlers : List Handler}
    (hc : handlers[c]? = some handler) (handler' : Handler) :
    (handler.held ++ (handlers.set c handler').flatMap Handler.held).Perm
      (handler'.held ++ handlers.flatMap Handler.held) := by
  obtain ⟨before, after, heq, hset⟩ := exists_set_eq hc
  rw [hset, heq]
  simp only [List.flatMap_append, List.flatMap_cons]
  have hleft := (List.perm_append_comm_assoc (before.flatMap Handler.held)
    handler'.held (after.flatMap Handler.held)).append_left handler.held
  have hright := (List.perm_append_comm_assoc (before.flatMap Handler.held)
    handler.held (after.flatMap Handler.held)).append_left handler'.held
  exact hleft.trans
    ((List.perm_append_comm_assoc _ _ _).trans hright.symm)

/-- A handler that holds nothing, before and after. -/
theorem held_set_nil {handlers : List Handler}
    (hc : handlers[c]? = some handler) (hheld : handler.held = [])
    (hheld' : handler'.held = []) :
    ((handlers.set c handler').flatMap Handler.held).Perm
      (handlers.flatMap Handler.held) := by
  have hperm := held_set hc handler'
  rwa [hheld, hheld', List.nil_append, List.nil_append] at hperm

/-- In every step the messages written are those enqueued by a handler and
those that come to be held. -/
theorem logged_step (hstep : BrokerStep s a s' evs) :
    (loggedIn evs ++ s.suspended).Perm (publishedIn evs ++ s'.suspended) := by
  cases hstep with
  | connect =>
      simp only [loggedIn, publishedIn, BrokerServer.suspended,
        List.flatMap_append]
      exact List.Perm.of_eq (by simp [Handler.held])
  | write c msg frame offset hhandler =>
      exact (held_set hhandler
        (.appended msg frame offset s.log.length)).symm
  | resume c msg frame offset start hhandler =>
      exact (held_set hhandler .reading).symm
  | worker action router evs =>
      rw [loggedIn_map_router, publishedIn_map_router]
      exact List.Perm.refl _
  | subscribe => exact List.Perm.refl _
  | ignore => exact List.Perm.refl _
  | metricsTick => exact List.Perm.refl _
  | stop => exact List.Perm.refl _
  | stopRouter => exact List.Perm.refl _
  | _ =>
      apply List.Perm.symm
      apply held_set_nil
      · assumption
      · rfl
      · rfl

/-- In every run the messages written, and those held before, are those
enqueued by a handler and those that a handler still holds. -/
theorem logged_run_from (h : broker.Reaches s tr s') :
    (loggedIn tr ++ s.suspended).Perm (publishedIn tr ++ s'.suspended) := by
  have haccount := h.account BrokerServer.suspended loggedIn_append
    publishedIn_append fun _ _ _ _ _ _ _ hstep =>
      List.perm_append_comm.trans
        (logged_step (BrokerServer.step_of_eq hstep))
  exact List.perm_append_comm.trans haccount

theorem logged_run {log : Option Bytes}
    (h : broker.Reaches (.init log) tr s) :
    (loggedIn tr).Perm (publishedIn tr ++ s.suspended) := by
  have hrun := logged_run_from h
  rwa [show (BrokerServer.init log).suspended = [] from rfl,
    List.append_nil] at hrun

/-! ## Frames behind a boundary -/

/-- `o` is a frame boundary of a log: from there on the log consists of
complete frames. -/
def FrameBoundary (content : Bytes) (o : ℕ) : Prop :=
  o ≤ content.length ∧ wire.Framed (content.drop o)

/-- The frame `f` starts at position `p`, counted in frames from the boundary
`o` on. -/
def FrameFrom (content : Bytes) (o p : ℕ) (f : Bytes) : Prop :=
  o ≤ p ∧ wire.FrameAt (content.drop o) (p - o) f

/-- In a log of complete frames these are the boundaries and the frames
counted from its start. -/
theorem frameBoundary_of_framed {content : Bytes} {o : ℕ}
    (hframed : wire.Framed content) (ho : wire.Boundary content o) :
    FrameBoundary content o ∧
      ∀ p f, FrameFrom content o p f ↔ o ≤ p ∧ wire.FrameAt content p f := by
  obtain ⟨t, ht, ⟨u, rfl⟩, rfl⟩ := ho
  have hu : wire.Framed u := hframed.of_append ht
  refine ⟨⟨by simp, by rwa [List.drop_left]⟩, ?_⟩
  intro p f
  rw [FrameFrom, List.drop_left]
  apply and_congr_right
  intro hle
  obtain ⟨q, rfl⟩ := Nat.exists_eq_add_of_le hle
  rw [Nat.add_sub_cancel_left]
  exact ht.frameAt_append_iff.symm

/-! ## The log is made of the frames written -/

/-- Starting from `log₀`, the messages of a list have been written one by one,
each at the end that the log had by then. -/
inductive Written (log₀ : Bytes) : List (Message × ℕ) → Bytes → Prop
  | nil : Written log₀ [] log₀
  | snoc {l : List (Message × ℕ)} {log : Bytes} {msg : Message} :
      Written log₀ l log → msg.OnWire →
        Written log₀ (l ++ [(msg, log.length)]) (log ++ msg.frame)

namespace Written

variable {l l' : List (Message × ℕ)} {log log' : Bytes}

theorem log_eq (h : Written log₀ l log) :
    log = log₀ ++ (l.map fun e => e.1.frame).flatten := by
  induction h with
  | nil => simp
  | snoc _ _ ih => simp [← List.append_assoc, ← ih]

theorem onWire (h : Written log₀ l log) : ∀ e ∈ l, e.1.OnWire := by
  induction h with
  | nil => simp
  | snoc _ hwire ih =>
      intro e he
      rw [List.mem_append, List.mem_singleton] at he
      rcases he with he | rfl
      · exact ih e he
      · exact hwire

theorem append (h : Written log₀ l log) (h' : Written log l' log') :
    Written log₀ (l ++ l') log' := by
  induction h' with
  | nil => simpa using h
  | snoc _ hwire ih =>
      rw [← List.append_assoc]
      exact ih.snoc hwire

theorem isPrefix (h : Written log₀ l log) : log₀ <+: log := by
  rw [h.log_eq]
  exact List.prefix_append _ _

/-- Behind what it held at the start, the log parses into the frames
written. -/
theorem parse_drop (h : Written log₀ l log) :
    wire.parse (log.drop log₀.length) = l.map fun e => e.1.frame := by
  rw [h.log_eq, List.drop_left]
  apply Framing.parse_flatten
  intro f hf
  obtain ⟨e, he, rfl⟩ := List.mem_map.mp hf
  exact (h.onWire e he).isFrame

theorem end_le (h : Written log₀ l log) :
    ∀ e ∈ l, log₀.length ≤ e.2 ∧ e.2 + e.1.frame.length ≤ log.length := by
  induction h with
  | nil => simp
  | @snoc l log msg hl _ ih =>
      intro e he
      rw [List.length_append]
      rw [List.mem_append, List.mem_singleton] at he
      rcases he with he | rfl
      · exact ⟨(ih e he).1, (ih e he).2.trans (Nat.le_add_right _ _)⟩
      · exact ⟨hl.isPrefix.length_le, le_rfl⟩

/-- The frames do not overlap, and they lie in the order of writing. -/
theorem pairwise (h : Written log₀ l log) :
    l.Pairwise fun e e' => e.2 + e.1.frame.length ≤ e'.2 := by
  induction h with
  | nil => exact List.Pairwise.nil
  | snoc hl _ ih =>
      rw [List.pairwise_append]
      refine ⟨ih, List.pairwise_singleton _ _, ?_⟩
      intro e he e' he'
      rw [List.mem_singleton] at he'
      subst he'
      exact (hl.end_le e he).2

/-- A frame that starts later starts behind the end of an earlier one. -/
theorem end_le_of_lt (h : Written log₀ l log) {e e' : Message × ℕ}
    (he : e ∈ l) (he' : e' ∈ l) (hlt : e.2 < e'.2) :
    e.2 + e.1.frame.length ≤ e'.2 := by
  obtain ⟨i, hi, rfl⟩ := List.getElem_of_mem he
  obtain ⟨j, hj, rfl⟩ := List.getElem_of_mem he'
  have hpairs := List.pairwise_iff_getElem.mp h.pairwise
  rcases lt_trichotomy i j with hij | rfl | hij
  · exact hpairs i j hi hj hij
  · exact absurd hlt (lt_irrefl _)
  · have hle := hpairs j i hj hi hij
    omega

/-- Each frame stands where it was written. -/
theorem isPrefix_drop (h : Written log₀ l log) :
    ∀ e ∈ l, e.1.frame <+: log.drop e.2 := by
  induction h with
  | nil => simp
  | @snoc l log msg hl _ ih =>
      intro e he
      rw [List.mem_append, List.mem_singleton] at he
      rcases he with he | rfl
      · exact (ih e he).trans (drop_isPrefix_drop (List.prefix_append _ _) _)
      · rw [List.drop_left]

/-- The last frame written ends the log. -/
theorem length_eq_of_getLast (h : Written log₀ l log) {e : Message × ℕ}
    (he : l.getLast? = some e) : log.length = e.2 + e.1.frame.length := by
  cases h with
  | nil => cases he
  | snoc =>
      rw [List.getLast?_append, List.getLast?_singleton] at he
      cases he
      exact List.length_append

/-- From a frame boundary of the log on, the log still consists of complete
frames. -/
theorem frameBoundary (h : Written log₀ l log) {o : ℕ}
    (hbound : FrameBoundary log₀ o) : FrameBoundary log o := by
  induction h with
  | nil => exact hbound
  | snoc _ hwire ih =>
      refine ⟨ih.1.trans (by simp), ?_⟩
      rw [List.drop_append_of_le_length ih.1]
      exact ih.2.append hwire.isFrame.framed

/-- The frames of the log behind a boundary are those that it held there at
the start and those written since. -/
theorem frameFrom_iff (h : Written log₀ l log) {o p : ℕ} {f : Bytes}
    (hbound : FrameBoundary log₀ o) :
    FrameFrom log o p f ↔
      FrameFrom log₀ o p f ∨ ∃ msg, (msg, p) ∈ l ∧ f = msg.frame := by
  induction h with
  | nil => simp
  | @snoc l log msg hl hwire ih =>
      obtain ⟨hle, hlog⟩ := hl.frameBoundary hbound
      have hlen : (log.drop o).length = log.length - o := List.length_drop
      rw [FrameFrom, List.drop_append_of_le_length hle]
      constructor
      · rintro ⟨hop, hat⟩
        rcases hlog.frameAt_append hwire.isFrame hat with hat | ⟨hend, rfl⟩
        · rcases ih.mp ⟨hop, hat⟩ with hat | ⟨m, hm, rfl⟩
          · exact Or.inl hat
          · exact Or.inr ⟨m, List.mem_append_left _ hm, rfl⟩
        · obtain rfl : p = log.length := by omega
          exact Or.inr ⟨msg, by simp, rfl⟩
      · intro hfrom
        have hcases : FrameFrom log o p f ∨ p = log.length ∧ f = msg.frame := by
          rcases hfrom with hat | ⟨m, hm, rfl⟩
          · exact Or.inl (ih.mpr (Or.inl hat))
          · rw [List.mem_append, List.mem_singleton] at hm
            rcases hm with hm | hm
            · exact Or.inl (ih.mpr (Or.inr ⟨m, hm, rfl⟩))
            · cases hm
              exact Or.inr ⟨rfl, rfl⟩
        rcases hcases with ⟨hop, hat⟩ | ⟨rfl, rfl⟩
        · exact ⟨hop, hat.of_isPrefix (List.prefix_append _ _)⟩
        · refine ⟨hle, hwire.isFrame, log.drop o, hlog, ?_, hlen⟩
          exact List.prefix_refl _

end Written

/-- A step writes at most one frame, at the end of the log. -/
theorem written_step (hok : s.HandlersOk) (hstep : BrokerStep s a s' evs)
    (htorn : NoTornAppend evs) : Written s.log (loggedIn evs) s'.log := by
  cases hstep with
  | write c msg frame offset hhandler =>
      obtain ⟨hwire, hframe⟩ := hok.get hhandler
      obtain rfl := Option.some.inj hframe
      exact Written.nil.snoc hwire
  | appendRaise c n msg call log hhandler hfail =>
      obtain rfl := htorn c msg n (by simp)
      rw [AppendCall.fail_zero hfail]
      exact Written.nil
  | worker action router evs =>
      rw [loggedIn_map_router]
      exact Written.nil
  | _ => exact Written.nil

theorem written_run (hok : s.HandlersOk) (h : broker.Reaches s tr s')
    (htorn : NoTornAppend tr) : Written s.log (loggedIn tr) s'.log := by
  suffices s'.HandlersOk ∧ Written s.log (loggedIn tr) s'.log from this.2
  induction h with
  | nil => exact ⟨hok, Written.nil⟩
  | snoc _ _ hstep ih =>
      obtain ⟨hok', hwritten⟩ := ih htorn.left
      have hcases := BrokerServer.step_of_eq hstep
      rw [loggedIn_append]
      exact ⟨handlersOk_step hok' hcases,
        hwritten.append (written_step hok' hcases htorn.right)⟩

/-! ## The router inside the broker -/

theorem metricsMessage_priority (throughput offset activeClients : ℕ) :
    (metricsMessage throughput offset activeClients).priority = 255 :=
  rfl

/-- A step of the broker is a step of its router, or leaves the router
alone. -/
theorem router_step (hok : s.HandlersOk) (hstep : BrokerStep s a s' evs) :
    router.Run PrioritiesInRange s.router (routerEvents evs) s'.router := by
  cases hstep with
  | resume c msg frame offset start hhandler =>
      have hpriority := (hok.get hhandler).1.priority
      refine System.Run.single (a := .enqueue msg) ?_ rfl
      intro m hm
      cases hm
      omega
  | worker action r evs hlooksUp hstep =>
      rw [routerEvents_map]
      refine System.Run.single (a := .worker action) ?_ hstep
      intro m hm
      cases hm
  | metricsTick =>
      refine System.Run.single (a := .enqueue _) ?_ rfl
      intro m hm
      cases hm
      rw [metricsMessage_priority]
      decide
  | stopRouter =>
      refine System.Run.single (a := .stop) ?_ rfl
      intro m hm
      cases hm
  | _ => exact System.Run.nil _

/-- A run of the broker is a run of its router. -/
theorem router_run_of_ok (hok : s.HandlersOk) (h : broker.Reaches s tr s') :
    router.Run PrioritiesInRange s.router (routerEvents tr) s'.router := by
  suffices s'.HandlersOk ∧
      router.Run PrioritiesInRange s.router (routerEvents tr) s'.router from
    this.2
  refine h.invariant (I := fun tr s' => s'.HandlersOk ∧
    router.Run PrioritiesInRange s.router (routerEvents tr) s'.router)
    ⟨hok, System.Run.nil _⟩ ?_
  rintro tr t a u evs ⟨hok', hrun⟩ _ hstep
  have hcases := BrokerServer.step_of_eq hstep
  rw [routerEvents_append]
  exact ⟨handlersOk_step hok' hcases, hrun.trans (router_step hok' hcases)⟩

theorem router_run {log : Option Bytes}
    (h : broker.Reaches (.init log) tr s) :
    router.Run PrioritiesInRange .init (routerEvents tr) s.router := by
  have hstart : router.Run PrioritiesInRange .init []
      (BrokerServer.init log).router := by
    refine System.Run.single (a := .start) ?_ rfl
    intro m hm
    cases hm
  exact hstart.trans (router_run_of_ok (handlersOk_init log) h)

/-- What the router is given, it is given by a publish handler or by the
metrics task. -/
theorem enqueued_step (hstep : BrokerStep s a s' evs) {seq : ℕ}
    {msg : Message} (hmem : (seq, msg) ∈ enqueuedIn (routerEvents evs)) :
    (∃ c start, .published c seq msg start ∈ evs) ∨
      ∃ throughput offset activeClients,
        .reported seq throughput offset activeClients ∈ evs ∧
          msg = metricsMessage throughput offset activeClients := by
  cases hstep with
  | resume c m frame offset start hhandler =>
      rw [show enqueuedIn (routerEvents _) = [(s.router.seq, m)] from rfl,
        List.mem_singleton] at hmem
      cases hmem
      exact Or.inl ⟨c, start, List.mem_cons_self ..⟩
  | worker action r evs hlooksUp hstep =>
      rw [routerEvents_map] at hmem
      have hnone : enqueuedIn evs = [] := by
        obtain ⟨-, ⟨entry, -, rfl⟩ | ⟨-, -, hnone⟩⟩ :=
          (PriorityRouter.workerStep_of_eq hstep).heap
        · rfl
        · exact enqueuedIn_eq_nil hnone
      rw [hnone] at hmem
      cases hmem
  | metricsTick =>
      rw [show enqueuedIn (routerEvents _) = [(s.router.seq, metricsMessage
        s.messagesProcessed s.latestOffset s.registry.count)] from rfl,
        List.mem_singleton] at hmem
      cases hmem
      exact Or.inr ⟨_, _, _, List.mem_cons_self .., rfl⟩
  | _ => cases hmem

theorem enqueued_run {log : Option Bytes}
    (h : broker.Reaches (.init log) tr s) {seq : ℕ} {msg : Message}
    (hmem : (seq, msg) ∈ enqueuedIn (routerEvents tr)) :
    (∃ c start, .published c seq msg start ∈ tr) ∨
      ∃ throughput offset activeClients,
        .reported seq throughput offset activeClients ∈ tr ∧
          msg = metricsMessage throughput offset activeClients := by
  induction h with
  | nil => cases hmem
  | snoc _ _ hstep ih =>
      rw [routerEvents_append, enqueuedIn_append, List.mem_append] at hmem
      rcases hmem with hmem | hmem
      · rcases ih hmem with ⟨c, start, h⟩ | ⟨throughput, offset, n, h, heq⟩
        · exact Or.inl ⟨c, start, List.mem_append_left _ h⟩
        · exact Or.inr ⟨throughput, offset, n, List.mem_append_left _ h, heq⟩
      · rcases enqueued_step (BrokerServer.step_of_eq hstep) hmem with
          ⟨c, start, h⟩ | ⟨throughput, offset, n, h, heq⟩
        · exact Or.inl ⟨c, start, List.mem_append_right _ h⟩
        · exact Or.inr ⟨throughput, offset, n, List.mem_append_right _ h, heq⟩

end SentinelHub.Broker
