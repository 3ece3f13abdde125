import SentinelHub.Broker.Outbound
import SentinelHub.Broker.PublisherOrder

/-!
# The client of a replay

A client that asks for one replay and subscribes to nothing, such as a replay of
the dashboard, is sent frames of the log and nothing else.  Unlike the results
about replays and the router together, this holds whatever the log contains and
whatever becomes of the appends of others.
-/

namespace SentinelHub.Broker

open SentinelHub.Support

variable {s s' : BrokerServer} {a : BrokerAction} {c : ClientId}
  {tr evs : List BrokerEvent} {log : Option Bytes} {log₀ : Bytes} {o : ℕ}
  {msg : Message}

/-! ## What a client asks for -/

/-- Only a request of the client starts a replay. -/
theorem timeTravel_step {topic : ℤ} {offset : ℕ}
    (hstep : BrokerStep s a s' evs)
    (hmem : .timeTravel c topic offset ∈ evs) :
    ∃ msg, a = .receive c msg ∧ msg.command = cmdTimeTravel := by
  cases hstep with
  | timeTravel c' msg offset' hhandler hcommand =>
      cases List.mem_singleton.mp hmem
      exact ⟨msg, rfl, hcommand⟩
  | worker action router revs => simp at hmem
  | _ => simp at hmem

/-- Only a request of the client subscribes it. -/
theorem subscribed_step {topic : ℤ} (hstep : BrokerStep s a s' evs)
    (hmem : .subscribed c topic ∈ evs) :
    ∃ msg, a = .receive c msg ∧ msg.command = cmdSubscribe := by
  cases hstep with
  | subscribe c' msg hhandler hcommand =>
      cases List.mem_singleton.mp hmem
      exact ⟨msg, rfl, hcommand⟩
  | worker action router revs => simp at hmem
  | _ => simp at hmem

/-- A client that asks for no replay gets none. -/
theorem quiet_step (hstep : BrokerStep s a s' evs)
    (hquiet : s.replayOf c = none)
    (hask : ∀ msg, a = .receive c msg → msg.command ≠ cmdTimeTravel) :
    s'.replayOf c = none ∧ replayedTo c evs = [] := by
  have hnever : ∀ topic offset, .timeTravel c topic offset ∉ evs := by
    intro topic offset hmem
    obtain ⟨msg, ha, hcommand⟩ := timeTravel_step hstep hmem
    exact hask msg ha hcommand
  obtain ⟨hquiet', hnone, -⟩ := noReplay_step hquiet hstep hnever
  exact ⟨hquiet', hnone⟩

/-- Only clients that have come are read from. -/
theorem receive_known (hstep : BrokerStep s (.receive c msg) s' evs) :
    c < s.handlers.length := by
  cases hstep <;> exact (List.getElem?_eq_some_iff.mp (by assumption)).1

/-- A client that has not come yet is in no replay. -/
theorem replayOf_of_le (hc : s.handlers.length ≤ c) : s.replayOf c = none := by
  rw [BrokerServer.replayOf, List.getElem?_eq_none hc, Option.bind_none]

/-- The worker writes only to clients that have come. -/
theorem targets_known (h : broker.Reaches (.init log) tr s) :
    ∀ c ∈ s.router.worker.targets, c < s.handlers.length := by
  intro c hc
  refine (knownClients_run h).worker c ?_
  cases hworker : s.router.worker with
  | writing seq frame client remaining dead =>
      rw [hworker] at hc
      exact List.mem_append_left _ hc
  | flushing seq frame client remaining dead =>
      rw [hworker] at hc
      exact List.mem_append_left _ (List.mem_cons_of_mem _ hc)
  | _ =>
      rw [hworker] at hc
      cases hc

/-- A client that has not come yet is subscribed to nothing. -/
theorem unsubscribed_of_le (h : broker.Reaches (.init log) tr s)
    (hc : s.handlers.length ≤ c) : Unsubscribed c s where
  topics := by
    intro topics hmem
    have hknown := (knownClients_run h).entries c
      (ConnectionRegistry.mem_ids_iff.mpr ⟨topics, hmem⟩)
    exact absurd hknown (not_lt.mpr hc)
  targets hmem := absurd (targets_known h c hmem) (not_lt.mpr hc)

/-! ## Who writes to a client -/

theorem chunksTo_singleton (c : ClientId) (e : BrokerEvent) :
    chunksTo c [e] = (replayedTo c [e]).map Prod.fst ++
      (writtenTo c [e]).map Prod.snd := by
  cases e with
  | replayed d frame start =>
      by_cases hd : d = c
      · simp [replayedTo, chunksTo, BrokerEvent.chunkTo, writtenTo, hd]
      · simp [replayedTo, chunksTo, BrokerEvent.chunkTo, writtenTo, hd]
  | router ev =>
      cases ev with
      | wrote seq d frame =>
          by_cases hd : d = c
          · simp [replayedTo, chunksTo, BrokerEvent.chunkTo, writtenTo, hd]
          · simp [replayedTo, chunksTo, BrokerEvent.chunkTo, writtenTo, hd]
      | _ => rfl
  | _ => rfl

/-- What is written to a client that is in no replay, the router writes. -/
theorem chunksTo_eq_writtenTo (h : replayedTo c evs = []) :
    chunksTo c evs = (writtenTo c evs).map Prod.snd := by
  induction evs with
  | nil => rfl
  | cons e evs ih =>
      rw [← List.singleton_append] at h ⊢
      rw [replayedTo_append] at h
      obtain ⟨hone, hrest⟩ := List.append_eq_nil_iff.mp h
      rw [chunksTo_append, writtenTo_append, chunksTo_singleton, hone, ih hrest,
        List.map_append]
      rfl

/-- What is written to a client that is subscribed to nothing, its replay
writes. -/
theorem chunksTo_eq_replayedTo (h : writtenTo c evs = []) :
    chunksTo c evs = (replayedTo c evs).map Prod.fst := by
  induction evs with
  | nil => rfl
  | cons e evs ih =>
      rw [← List.singleton_append] at h ⊢
      rw [writtenTo_append] at h
      obtain ⟨hone, hrest⟩ := List.append_eq_nil_iff.mp h
      rw [chunksTo_append, replayedTo_append, chunksTo_singleton, hone,
        ih hrest, List.map_append, List.map_nil, List.append_nil]

/-! ## A replay from beginning to end -/

/-- A replay that fails is over. -/
theorem replayFailed_step (hstep : BrokerStep s a s' evs)
    (hmem : .replayFailed c ∈ evs) :
    s'.replayOf c = none ∧ replayedTo c evs = [] := by
  cases hstep with
  | replayRaise d replay error hhandler =>
      simp only [List.mem_cons, BrokerEvent.replayFailed.injEq, reduceCtorEq,
        List.not_mem_nil, or_false] at hmem
      subst hmem
      exact ⟨replayOf_set hhandler rfl rfl, rfl⟩
  | replayDrainFailed d replay hhandler =>
      cases List.mem_singleton.mp hmem
      exact ⟨replayOf_set hhandler rfl rfl, rfl⟩
  | worker action router revs => simp at hmem
  | _ => simp at hmem

/-- The client has asked for a replay from `o` on when the log was `log₀`, and
`since` has happened.  It has been sent the first frames of the log from there,
and if its replay is over and has not failed, all that were there at some time
since. -/
structure Served (log₀ : Bytes) (o : ℕ) (c : ClientId)
    (since : List BrokerEvent) (s : BrokerServer) : Prop where
  grown : log₀ <+: s.log
  sent : ∃ yielded stop, replayedTo c since = Framing.locate o yielded ∧
    ReadUpTo s.log o yielded stop
  replay : s.replayOf c = none ∨ ReplayingFrom o c since s
  ended : s.replayOf c = none → .replayFailed c ∈ since ∨
    ∃ content, log₀ <+: content ∧ content <+: s.log ∧
      replayedTo c since = Framing.locate o (wire.parse (content.drop o))

theorem served_start (h : ReplayingFrom o c [] s) : Served s.log o c [] s where
  grown := List.prefix_refl _
  sent := by
    obtain ⟨replay, yielded, -, hinv, hsent⟩ := h
    exact ⟨yielded, _, hsent, hinv.readUpTo⟩
  replay := Or.inr h
  ended hnone := by
    obtain ⟨replay, yielded, hreplay, -, -⟩ := h
    rw [hnone] at hreplay
    cases hreplay

/-- What has been sent are the first frames of the log behind the offset. -/
theorem Served.frames (h : Served log₀ o c tr s) :
    (∀ f ∈ (replayedTo c tr).map Prod.fst, wire.IsFrame f) ∧
      (replayedTo c tr).map Prod.fst <+: wire.parse (s.log.drop o) := by
  obtain ⟨yielded, stop, hsent, hread⟩ := h.sent
  rw [hsent, Framing.map_fst_locate]
  exact ⟨hread.isFrame, hread.isPrefix_parse⟩

theorem Served.step (h : Served log₀ o c tr s) (hok : s.HandlersOk)
    (hstep : BrokerStep s a s' evs)
    (hask : ∀ msg, a = .receive c msg → msg.command ≠ cmdTimeTravel) :
    Served log₀ o c (tr ++ evs) s' := by
  obtain ⟨more, hlog, -⟩ := log_step hok hstep
  have hgrow : s.log <+: s'.log := by
    rw [hlog]
    exact List.prefix_append _ _
  have hgrown := h.grown.trans hgrow
  -- whatever is over stays as it is
  have hover : s'.replayOf c = none → replayedTo c evs = [] →
      (.replayFailed c ∈ tr ++ evs ∨ ∃ content, log₀ <+: content ∧
        content <+: s'.log ∧
          replayedTo c tr = Framing.locate o (wire.parse (content.drop o))) →
      Served log₀ o c (tr ++ evs) s' := by
    intro hnone hquiet hended
    obtain ⟨yielded, stop, hsent, hread⟩ := h.sent
    have hsame : replayedTo c (tr ++ evs) = replayedTo c tr := by
      rw [replayedTo_append, hquiet, List.append_nil]
    refine ⟨hgrown, ⟨yielded, stop, hsame.trans hsent, hread.mono hgrow⟩,
      Or.inl hnone, fun _ => ?_⟩
    rw [hsame]
    exact hended
  rcases h.replay with hnone | hreplaying
  · obtain ⟨hnone', hquiet⟩ := quiet_step hstep hnone hask
    refine hover hnone' hquiet ?_
    rcases h.ended hnone with hfailed | ⟨content, hold, hnow, hsent⟩
    · exact Or.inl (List.mem_append_left _ hfailed)
    · exact Or.inr ⟨content, hold, hnow.trans hgrow, hsent⟩
  · by_cases hfail : .replayFailed c ∈ evs
    · obtain ⟨hnone', hquiet⟩ := replayFailed_step hstep hfail
      exact hover hnone' hquiet (Or.inl (List.mem_append_right _ hfail))
    by_cases hfinish : ∃ stop, .replayFinished c stop ∈ evs
    · obtain ⟨stop, hmem⟩ := hfinish
      obtain ⟨hsent, hnone', hsame, rfl⟩ := hreplaying.finish hstep hmem hfail
      refine hover hnone' rfl (Or.inr ⟨s.log, h.grown, hgrow, hsent⟩)
    · have hnext := hreplaying.step_of_grow hgrow hstep
        (fun stop hmem => hfinish ⟨stop, hmem⟩) hfail
      obtain ⟨replay, yielded, hreplay, hinv, hsent⟩ := hnext
      refine ⟨hgrown, ⟨yielded, _, hsent, hinv.readUpTo⟩,
        Or.inr ⟨replay, yielded, hreplay, hinv, hsent⟩, fun hnone => ?_⟩
      rw [hreplay] at hnone
      cases hnone

end SentinelHub.Broker
