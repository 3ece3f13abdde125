import SentinelHub.Broker.Pipeline

/-!
# The published log offset

`latest_offset` is assigned whenever a publish handler goes on after its
append, from the offset that the append has returned.  It is truthful in the
runs in which the appends are not interleaved and the handlers go on in the
order in which their frames were written; with two overlapping publishes it
can go back, and stay behind the end of the log for good.
-/

namespace SentinelHub.Broker

open SentinelHub.Support

/-- No append writes between the two steps of another one: between the
reading of the end of the log for a client and the next write for it. -/
def NoWriteBetween (tr : List BrokerEvent) : Prop :=
  ∀ before c between msg offset start after,
    tr = before ++ .told c ::
      (between ++ .appended c msg offset start :: after) →
    .told c ∉ between → loggedIn between = []

/-- The appends of a trace are not interleaved, the handlers go on in the
order in which their frames lie in the log, and every append that raises has
written nothing. -/
structure Orderly (tr : List BrokerEvent) : Prop where
  alone : NoWriteBetween tr
  inOrder : (publishedIn tr).Pairwise fun e e' => e.2 < e'.2
  whole : NoTornAppend tr

theorem NoWriteBetween.left {tr tr' : List BrokerEvent}
    (h : NoWriteBetween (tr ++ tr')) : NoWriteBetween tr := by
  intro before c between msg offset start after heq hnot
  refine h before c between msg offset start (after ++ tr') ?_ hnot
  rw [heq]
  simp only [List.append_assoc, List.cons_append]

/-- A single write has no other one beside it. -/
theorem noWriteBetween_of_length_le {tr : List BrokerEvent}
    (h : (loggedIn tr).length ≤ 1) : NoWriteBetween tr := by
  rintro before c between msg offset start after rfl -
  rw [loggedIn_append] at h
  change (_ ++ loggedIn (between ++ _)).length ≤ 1 at h
  rw [loggedIn_append, List.length_append, List.length_append] at h
  change _ + (_ + ((loggedIn after).length + 1)) ≤ 1 at h
  apply List.eq_nil_of_length_eq_zero
  omega

theorem Orderly.left {tr tr' : List BrokerEvent} (h : Orderly (tr ++ tr')) :
    Orderly tr := by
  refine ⟨h.alone.left, ?_, h.whole.left⟩
  have hinOrder := h.inOrder
  rw [publishedIn_append, List.pairwise_append] at hinOrder
  exact hinOrder.1

variable {s s' : BrokerServer} {a : BrokerAction} {tr evs : List BrokerEvent}
  {log : Option Bytes} {msg : Message} {frame : Bytes} {offset start : ℕ}

/-! ## The offset that an append returns -/

/-- A handler between the two steps of its append has been there before, or
has just read the end of the log. -/
theorem opened_step {c : ClientId} (hstep : BrokerStep s a s' evs)
    (hc : s'.handlers[c]? = some (.appending msg (.opened frame offset))) :
    (s.handlers[c]? = some (.appending msg (.opened frame offset)) ∧
        .told c ∉ evs) ∨
      (evs = [.told c] ∧ offset = s.log.length ∧ s'.log = s.log) := by
  have hset : ∀ (d : ClientId) (handler : Handler),
      (∀ msg frame offset, handler ≠ .appending msg (.opened frame offset)) →
      (s.handlers.set d handler)[c]? =
        some (.appending msg (.opened frame offset)) →
      s.handlers[c]? = some (.appending msg (.opened frame offset)) := by
    intro d handler hne hget
    by_cases hdc : d = c
    · subst hdc
      rw [List.getElem?_set] at hget
      simp only [if_true] at hget
      split at hget
      · exact absurd (Option.some.inj hget) (hne msg frame offset)
      · cases hget
    · rwa [List.getElem?_set_ne hdc] at hget
  cases hstep with
  | connect =>
      refine Or.inl ⟨?_, by simp⟩
      rw [List.getElem?_append] at hc
      split at hc
      · exact hc
      · rw [List.getElem?_singleton] at hc
        split at hc <;> cases hc
  | tell d m f hhandler =>
      by_cases hdc : d = c
      · subst hdc
        have hlt := (List.getElem?_eq_some_iff.mp hhandler).1
        simp only [BrokerServer.setHandler, List.getElem?_set, if_true, hlt,
          Option.some.injEq, Handler.appending.injEq,
          AppendCall.opened.injEq] at hc
        exact Or.inr ⟨rfl, hc.2.2.symm, rfl⟩
      · rw [BrokerServer.setHandler, List.getElem?_set_ne hdc] at hc
        exact Or.inl ⟨hc, by simpa using fun h : c = d => hdc h.symm⟩
  | subscribe => exact Or.inl ⟨hc, by simp⟩
  | ignore => exact Or.inl ⟨hc, by simp⟩
  | worker => exact Or.inl ⟨hc, by simp⟩
  | metricsTick => exact Or.inl ⟨hc, by simp⟩
  | stop => exact Or.inl ⟨hc, by simp⟩
  | stopRouter => exact Or.inl ⟨hc, by simp⟩
  | _ => exact Or.inl ⟨hset _ _ (by simp) hc, by simp⟩

/-- Since a handler has read the end of the log, the log has grown by the
frames written meanwhile. -/
theorem opened_run {c : ClientId} (h : broker.Reaches (.init log) tr s)
    (htorn : NoTornAppend tr)
    (hc : s.handlers[c]? = some (.appending msg (.opened frame offset))) :
    ∃ before between, tr = before ++ .told c :: between ∧
      .told c ∉ between ∧
        s.log.length = offset +
          ((loggedIn between).map fun e => e.1.frame).flatten.length := by
  induction h with
  | nil => cases hc
  | @snoc _ _ tr evs _ hrun _ hstep ih =>
      have hcases := BrokerServer.step_of_eq hstep
      have hwritten :=
        written_step (handlersOk_run hrun) hcases htorn.right
      rcases opened_step hcases hc with ⟨hc', hnot⟩ | ⟨rfl, rfl, hlog⟩
      · obtain ⟨before, between, rfl, hbetween, hlen⟩ := ih htorn.left hc'
        refine ⟨before, between ++ evs, ?_, ?_, ?_⟩
        · rw [List.append_assoc, List.cons_append]
        · rw [List.mem_append]
          exact fun h => h.elim hbetween hnot
        · rw [hwritten.log_eq, loggedIn_append, List.map_append,
            List.flatten_append, List.length_append, List.length_append, hlen,
            Nat.add_assoc]
      · refine ⟨tr, [], rfl, by simp, ?_⟩
        rw [hlog]
        rfl

/-- Without writes in between, an append returns the position of its frame. -/
theorem offset_eq_start (h : broker.Reaches (.init log) tr s)
    (htorn : NoTornAppend tr) (halone : NoWriteBetween tr) {c : ClientId}
    (hmem : .appended c msg offset start ∈ tr) : offset = start := by
  induction h with
  | nil => cases hmem
  | snoc hrun _ hstep ih =>
      rw [List.mem_append] at hmem
      rcases hmem with hmem | hmem
      · exact ih htorn.left halone.left hmem
      · cases BrokerServer.step_of_eq hstep with
        | write d m f o hhandler =>
            rw [List.mem_singleton] at hmem
            cases hmem
            obtain ⟨before, between, rfl, hbetween, hlen⟩ :=
              opened_run hrun htorn.left hhandler
            have hnone := halone before c between msg offset _ []
              (List.append_assoc ..) hbetween
            rw [hnone] at hlen
            exact hlen.symm
        | worker => simp at hmem
        | _ => simp at hmem

/-! ## Where the offset comes from -/

/-- A handler is suspended behind an append that the trace has seen. -/
theorem appended_step (hstep : BrokerStep s a s' evs)
    (hmem : .appended msg frame offset start ∈ s'.handlers) :
    .appended msg frame offset start ∈ s.handlers ∨
      ∃ c, .appended c msg offset start ∈ evs := by
  have hset : ∀ (c : ClientId) (handler : Handler),
      handler.held = [] →
      .appended msg frame offset start ∈ s.handlers.set c handler →
        .appended msg frame offset start ∈ s.handlers := by
    intro c handler hheld hmem
    rcases List.mem_or_eq_of_mem_set hmem with hmem | rfl
    · exact hmem
    · cases hheld
  cases hstep with
  | connect =>
      rw [List.mem_append, List.mem_singleton] at hmem
      rcases hmem with hmem | hmem
      · exact Or.inl hmem
      · cases hmem
  | write c m f o hhandler =>
      rcases List.mem_or_eq_of_mem_set hmem with hmem | heq
      · exact Or.inl hmem
      · cases heq
        exact Or.inr ⟨c, List.mem_cons_self ..⟩
  | subscribe => exact Or.inl hmem
  | ignore => exact Or.inl hmem
  | worker => exact Or.inl hmem
  | metricsTick => exact Or.inl hmem
  | stop => exact Or.inl hmem
  | stopRouter => exact Or.inl hmem
  | _ => exact Or.inl (hset _ _ rfl hmem)

theorem appended_run (h : broker.Reaches (.init log) tr s)
    (hmem : .appended msg frame offset start ∈ s.handlers) :
    ∃ c, .appended c msg offset start ∈ tr := by
  induction h with
  | nil => cases hmem
  | snoc _ _ hstep ih =>
      rcases appended_step (BrokerServer.step_of_eq hstep) hmem with
        hmem | ⟨c, hmem⟩
      · obtain ⟨c, hc⟩ := ih hmem
        exact ⟨c, List.mem_append_left _ hc⟩
      · exact ⟨c, List.mem_append_right _ hmem⟩

/-- A step assigns `latest_offset` when a suspended handler goes on, and only
then. -/
theorem latestOffset_step (hstep : BrokerStep s a s' evs) :
    (publishedIn evs = [] ∧ s'.latestOffset = s.latestOffset) ∨
      ∃ msg frame offset start,
        .appended msg frame offset start ∈ s.handlers ∧
          publishedIn evs = [(msg, start)] ∧
          s'.latestOffset = offset + frame.length := by
  cases hstep with
  | resume c msg frame offset start hhandler =>
      exact Or.inr ⟨msg, frame, offset, start,
        List.mem_of_getElem? hhandler, rfl, rfl⟩
  | worker action router evs => exact Or.inl ⟨publishedIn_map_router evs, rfl⟩
  | _ => exact Or.inl ⟨rfl, rfl⟩

/-- In an orderly run `latest_offset` is the end of the frame published
last. -/
theorem latestOffset_run (h : broker.Reaches (.init log) tr s)
    (horderly : Orderly tr) {before : List (Message × ℕ)} {e : Message × ℕ}
    (hlast : publishedIn tr = before ++ [e]) :
    s.latestOffset = e.2 + e.1.frame.length := by
  induction h generalizing before with
  | nil => simp [publishedIn] at hlast
  | snoc hrun _ hstep ih =>
      rw [publishedIn_append] at hlast
      rcases latestOffset_step (BrokerServer.step_of_eq hstep) with
        ⟨hnone, hsame⟩ | ⟨msg, frame, offset, start, hmem, hpub, hset⟩
      · rw [hnone, List.append_nil] at hlast
        rw [hsame]
        exact ih horderly.left hlast
      · rw [hpub] at hlast
        obtain ⟨-, he⟩ := List.append_inj' hlast rfl
        cases he
        obtain ⟨c, happended⟩ := appended_run hrun hmem
        obtain rfl := offset_eq_start hrun horderly.left.whole
          horderly.left.alone happended
        have hframe := (handlersOk_run hrun _ hmem).2
        rw [hset, hframe]

/-! ## The offset along a run -/

/-- The frames that have been published have been written. -/
theorem mem_loggedIn_of_published (h : broker.Reaches (.init log) tr s)
    {e : Message × ℕ} (he : e ∈ publishedIn tr) : e ∈ loggedIn tr :=
  (logged_run h).mem_iff.mpr (List.mem_append_left _ he)

/-- With no publish in flight, no handler is suspended. -/
theorem suspended_eq_nil
    (h : ∀ handler ∈ s.handlers, handler.publishing = false) :
    s.suspended = [] := by
  rw [BrokerServer.suspended, List.flatMap_eq_nil_iff]
  intro handler hmem
  have hnot := h handler hmem
  cases handler with
  | appended => cases hnot
  | _ => rfl

/-- The frame published last ends the log when no publish is in flight. -/
theorem end_eq_length (h : broker.Reaches (.init log) tr s)
    (horderly : Orderly tr) {before : List (Message × ℕ)} {e : Message × ℕ}
    (hlast : publishedIn tr = before ++ [e])
    (hidle : ∀ handler ∈ s.handlers, handler.publishing = false) :
    e.2 + e.1.frame.length = s.log.length := by
  have hwritten := written_run (handlersOk_init log) h horderly.whole
  have hperm := logged_run h
  rw [suspended_eq_nil hidle, List.append_nil] at hperm
  have he : e ∈ loggedIn tr := hperm.mem_iff.mpr (by simp [hlast])
  rcases (loggedIn tr).eq_nil_or_concat with hnil | ⟨rest, last, hlogged⟩
  · rw [hnil] at he
    cases he
  · have hmem : last ∈ loggedIn tr := by simp [hlogged]
    have hend : s.log.length = last.2 + last.1.frame.length := by
      apply hwritten.length_eq_of_getLast
      rw [hlogged, List.concat_eq_append, List.getLast?_concat]
    have hpublished : last ∈ before ++ [e] := by
      rw [← hlast]
      exact hperm.mem_iff.mp hmem
    rw [List.mem_append, List.mem_singleton] at hpublished
    rcases hpublished with hbefore | rfl
    · -- a frame published before `e` cannot end the log, since `e` lies behind
      have hinOrder := horderly.inOrder
      rw [hlast, List.pairwise_append] at hinOrder
      have hlt := hinOrder.2.2 last hbefore e (List.mem_singleton_self e)
      have hle := hwritten.end_le_of_lt hmem he hlt
      have hfits := (hwritten.end_le e he).2
      have hpos := (hwritten.onWire e he).isFrame.length_pos
      omega
    · exact hend.symm

/-- The offset of an earlier state is not exceeded by that of a later one. -/
theorem latestOffset_mono {tr' : List BrokerEvent}
    (h : broker.Reaches (.init log) tr s) (h' : broker.Reaches s tr' s')
    (hfirst : publishedIn tr ≠ []) (horderly : Orderly (tr ++ tr')) :
    s.latestOffset ≤ s'.latestOffset := by
  have hrun := h.trans h'
  have hwritten := written_run (handlersOk_init log) hrun horderly.whole
  rcases (publishedIn tr).eq_nil_or_concat with hnil | ⟨before, e, hlast⟩
  · exact absurd hnil hfirst
  rw [List.concat_eq_append] at hlast
  rw [latestOffset_run h horderly.left hlast]
  rcases (publishedIn tr').eq_nil_or_concat with hnil | ⟨later, e', hlast'⟩
  · have hsame : publishedIn (tr ++ tr') = before ++ [e] := by
      rw [publishedIn_append, hnil, List.append_nil, hlast]
    exact (latestOffset_run hrun horderly hsame).ge
  · rw [List.concat_eq_append] at hlast'
    have hall : publishedIn (tr ++ tr') =
        (before ++ [e] ++ later) ++ [e'] := by
      rw [publishedIn_append, hlast, hlast', ← List.append_assoc]
    have hinOrder := horderly.inOrder
    rw [hall, List.pairwise_append] at hinOrder
    have hlt := hinOrder.2.2 e (by simp) e' (List.mem_singleton_self e')
    have he : e ∈ loggedIn (tr ++ tr') :=
      mem_loggedIn_of_published hrun (by simp [hall])
    have he' : e' ∈ loggedIn (tr ++ tr') :=
      mem_loggedIn_of_published hrun (by simp [hall])
    rw [latestOffset_run hrun horderly hall]
    exact (hwritten.end_le_of_lt he he' hlt).trans (Nat.le_add_right _ _)

/-- In an orderly run, from the first completed publish on: `latest_offset`
never decreases, is the end of the complete frame of a publish in the log, and
is the size of the log whenever no publish is in flight; and it is what the
metrics task reports. -/
theorem latestOffset_truthful {tr₁ tr₂ : List BrokerEvent}
    {s₁ s₂ : BrokerServer} (h₁ : broker.Reaches (.init log) tr₁ s₁)
    (hfirst : publishedIn tr₁ ≠ []) (h₂ : broker.Reaches s₁ tr₂ s₂)
    (horderly : Orderly (tr₁ ++ tr₂)) :
    s₁.latestOffset ≤ s₂.latestOffset ∧
      (∃ e ∈ loggedIn (tr₁ ++ tr₂), wire.IsFrame e.1.frame ∧
        e.1.frame <+: s₂.log.drop e.2 ∧
          s₂.latestOffset = e.2 + e.1.frame.length) ∧
      ((∀ handler ∈ s₂.handlers, handler.publishing = false) →
        s₂.latestOffset = s₂.log.length) ∧
      (∀ s₃ evs, broker.step s₂ .metricsTick = some (s₃, evs) →
        ∃ seq throughput activeClients,
          .reported seq throughput s₂.latestOffset activeClients ∈ evs) := by
  have hrun := h₁.trans h₂
  have hwritten := written_run (handlersOk_init log) hrun horderly.whole
  have hne : publishedIn (tr₁ ++ tr₂) ≠ [] := by
    rw [publishedIn_append]
    exact List.append_ne_nil_of_left_ne_nil hfirst _
  obtain ⟨before, e, hlast⟩ :=
    (publishedIn (tr₁ ++ tr₂)).eq_nil_or_concat.resolve_left hne
  rw [List.concat_eq_append] at hlast
  have he : e ∈ loggedIn (tr₁ ++ tr₂) :=
    mem_loggedIn_of_published hrun (by simp [hlast])
  have hlatest := latestOffset_run hrun horderly hlast
  refine ⟨latestOffset_mono h₁ h₂ hfirst horderly, ?_, ?_, ?_⟩
  · exact ⟨e, he, (hwritten.onWire e he).isFrame,
      hwritten.isPrefix_drop e he, hlatest⟩
  · intro hidle
    rw [hlatest]
    exact end_eq_length hrun horderly hlast hidle
  · intro s₃ evs hstep
    cases BrokerServer.step_of_eq hstep with
    | metricsTick => exact ⟨_, _, _, List.mem_cons_self ..⟩

/-- Two publishers whose appends overlap, and the second one raises: when both
are through, `latest_offset` is the size of the log. -/
theorem latestOffset_truthful_raised :
    let msg : Message :=
      { command := cmdPublish, topicId := 1, priority := 5, payload := [65] }
    ∃ tr s, broker.Reaches (.init none) tr s ∧
      .appendRaised 1 msg 0 ∈ tr ∧ publishedIn tr = [(msg, 0)] ∧
        s.latestOffset = s.log.length := by
  intro msg
  have hrun : broker.Reaches (.init none)
      [.registered 0, .registered 1, .told 0, .told 1, .appended 0 msg 0 0,
        .appendRaised 1 msg 0, .unregistered 1, .published 0 0 msg 0,
        .router (.enqueued 0 msg)]
      { registry := { clients := [(0, [])] }
        log := msg.frame
        router :=
          { heap := [{ negPriority := -5, seq := 0, message := msg }]
            seq := 1
            event := true
            running := true
            worker := .waiting }
        messagesProcessed := 1
        latestOffset := 11
        handlers := [.reading, .closed]
        shutdown := false } :=
    System.exec_run [.connect, .connect, .receive 0 msg, .receive 1 msg,
      .tell 0, .tell 1, .write 0, .appendRaise 1 0, .resume 0] (by decide)
  have horderly : Orderly [.registered 0, .registered 1, .told 0, .told 1,
      .appended 0 msg 0 0, .appendRaised 1 msg 0, .unregistered 1,
      .published 0 0 msg 0, .router (.enqueued 0 msg)] := by
    refine ⟨noWriteBetween_of_length_le (by decide), by decide, ?_⟩
    intro c m n hmem
    simp only [List.mem_cons, reduceCtorEq, BrokerEvent.appendRaised.injEq,
      List.not_mem_nil, false_or, or_false] at hmem
    exact hmem.2.2
  refine ⟨_, _, hrun, by simp, rfl, ?_⟩
  have htruthful := latestOffset_truthful hrun (by decide)
    (System.Run.nil _) (by rwa [List.append_nil])
  exact htruthful.2.2.1 (by decide)

/-- Two publishers that both read the end of the empty log before either of
them writes: nothing is in flight any more, and `latest_offset` is the end of
the first frame of two. -/
theorem latestOffset_behind :
    ∃ tr s, broker.Reaches (.init none) tr s ∧ publishedIn tr ≠ [] ∧
      (∀ handler ∈ s.handlers, handler.publishing = false) ∧
      s.latestOffset = 11 ∧ s.log.length = 22 := by
  let msg : Message :=
    { command := cmdPublish, topicId := 1, priority := 5, payload := [65] }
  have hrun : broker.Reaches (.init none)
      [.registered 0, .registered 1, .told 0, .told 1, .appended 0 msg 0 0,
        .appended 1 msg 0 11, .published 0 0 msg 0,
        .router (.enqueued 0 msg), .published 1 1 msg 11,
        .router (.enqueued 1 msg)]
      { registry := { clients := [(0, []), (1, [])] }
        log := msg.frame ++ msg.frame
        router :=
          { heap := [{ negPriority := -5, seq := 0, message := msg },
              { negPriority := -5, seq := 1, message := msg }]
            seq := 2
            event := true
            running := true
            worker := .waiting }
        messagesProcessed := 2
        latestOffset := 11
        handlers := [.reading, .reading]
        shutdown := false } :=
    System.exec_run [.connect, .connect, .receive 0 msg, .receive 1 msg,
      .tell 0, .tell 1, .write 0, .write 1, .resume 0, .resume 1] (by decide)
  exact ⟨_, _, hrun, by decide, by decide, rfl, by decide⟩

end SentinelHub.Broker
