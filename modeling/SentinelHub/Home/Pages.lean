import SentinelHub.Dashboard.PageStream
import SentinelHub.Home.Feed

/-!
# A page and the smart home

A page of the dashboard beside the system that it shows: it opens a connection,
reads what the handler has written in parts of any length, loses the connection
and opens another one, while the system takes its steps.  However often this
happens, the page shows no message twice and none out of order.
-/

namespace SentinelHub.Home

open Support Broker Dashboard EventStream

/-! ## The system -/

/-- How numbers are written and read, how values compare that are no numbers,
and what the clock of the dashboard shows. -/
structure Runtime where
  floatRepr : ℚ → List Char
  toFloat : List Char → PyFloat
  coerced : Json → Json → Bool
  clock : ℕ → ℚ

/-- `float` reads what `repr` writes. -/
structure Runtime.Lawful (r : Runtime) : Prop where
  reread : FloatsReread r.floatRepr r.toFloat
  clock : ∀ n, Rereads r.floatRepr r.toFloat (r.clock n)

/-- A page with its connection: the browser that the dashboard knows it as, and
what it has read over it. -/
structure Visit where
  home : SmartHome
  page : Page
  browser : Option ℕ
  text : List Char

/-- The dashboard accepts the connection; the page takes a step of its own; and
it reads a part of what has been written, each event having been made at a time
that the clock has shown. -/
inductive VisitAction
  | home (a : HomeAction)
  | accept
  | page (a : PageAction)
  | receive (times : List ℕ) (text : List Char)
  deriving Repr

inductive VisitEvent
  | home (event : HomeEvent)
  | page (event : PageEvent)
  deriving Repr

/-- The steps of a page that give up its connection. -/
def hangsUp : PageAction → Bool
  | .onerror => true
  | .connectSSE => true
  | _ => false

/-- What has been written to a browser. -/
def writtenTo (r : Runtime) (times : List ℕ) (b : Browser Event) : List Char :=
  streamText r.floatRepr ((times.map r.clock).zip b.sent)

namespace Visit

def init (log : Option Bytes) : Visit where
  home := .init log
  page := .init
  browser := none
  text := []

variable (v : Visit)

def withHome (p : Option (SmartHome × List HomeEvent)) :
    Option (Visit × List VisitEvent) :=
  p.map fun (home, evs) => ({ v with home }, evs.map .home)

def withPage (p : Option (Page × List PageEvent)) :
    Option (Visit × List VisitEvent) :=
  p.map fun (page, evs) => ({ v with page }, evs.map .page)

end Visit

/-- One step of a page and the system. -/
def visitStep (r : Runtime) (v : Visit) :
    VisitAction → Option (Visit × List VisitEvent)
  | .home a => v.withHome (homeStep (loads r.toFloat) v.home a)
  | .accept =>
      if v.page.connection.source = some .connecting ∧ v.browser = none then
        { v with browser := some v.home.dashboard.browsers.length }.withHome
          (homeStep (loads r.toFloat) v.home (.dashboard .join))
      else none
  | .page (.receive _) => none
  | .page .onopen =>
      if v.browser = none then none
      else
        { v with text := [] }.withPage
          (pageStep r.toFloat r.coerced v.page .onopen)
  | .page a =>
      { v with browser := if hangsUp a then none else v.browser }.withPage
        (pageStep r.toFloat r.coerced v.page a)
  | .receive times text =>
      match v.browser.bind fun i => v.home.dashboard.browsers[i]? with
      | none => none
      | some b =>
          if times.length = b.sent.length ∧
              (v.text ++ text).isPrefixOf (writtenTo r times b) then
            { v with text := v.text ++ text }.withPage
              (pageStep r.toFloat r.coerced v.page (.receive text))
          else none

/-- A page beside the broker and the dashboard. -/
def visit (r : Runtime) : System Visit VisitAction VisitEvent where
  step := visitStep r

/-! ## The parts of a trace -/

def homeIn (tr : List VisitEvent) : List HomeEvent :=
  tr.filterMap fun
    | .home event => some event
    | _ => none

def pageIn (tr : List VisitEvent) : List PageEvent :=
  tr.filterMap fun
    | .page event => some event
    | _ => none

theorem homeIn_append (tr tr' : List VisitEvent) :
    homeIn (tr ++ tr') = homeIn tr ++ homeIn tr' :=
  List.filterMap_append

theorem pageIn_append (tr tr' : List VisitEvent) :
    pageIn (tr ++ tr') = pageIn tr ++ pageIn tr' :=
  List.filterMap_append

@[simp] theorem homeIn_home (evs : List HomeEvent) :
    homeIn (evs.map .home) = evs := by
  rw [homeIn, List.filterMap_map]
  exact List.filterMap_some

@[simp] theorem pageIn_page (evs : List PageEvent) :
    pageIn (evs.map .page) = evs := by
  rw [pageIn, List.filterMap_map]
  exact List.filterMap_some

@[simp] theorem homeIn_page (evs : List PageEvent) :
    homeIn (evs.map .page) = [] :=
  List.filterMap_eq_nil_iff.mpr (by simp)

@[simp] theorem pageIn_home (evs : List HomeEvent) :
    pageIn (evs.map .home) = [] :=
  List.filterMap_eq_nil_iff.mpr (by simp)

variable {r : Runtime} {v v' : Visit} {tr evs : List VisitEvent}
  {log : Option Bytes}

/-! ## What a step can be -/

inductive VisitStep (r : Runtime) (v : Visit) : Visit → List VisitEvent → Prop
  | home (a : HomeAction) (home : SmartHome) (evs : List HomeEvent)
      (hstep : homeStep (loads r.toFloat) v.home a = some (home, evs)) :
      VisitStep r v { v with home } (evs.map .home)
  | accept (home : SmartHome) (evs : List HomeEvent)
      (hsource : v.page.connection.source = some .connecting)
      (hbrowser : v.browser = none)
      (hstep : homeStep (loads r.toFloat) v.home (.dashboard .join) =
        some (home, evs)) :
      VisitStep r v
        { v with home, browser := some v.home.dashboard.browsers.length }
        (evs.map .home)
  | onopen (i : ℕ) (page : Page) (evs : List PageEvent)
      (hbrowser : v.browser = some i)
      (hstep : pageStep r.toFloat r.coerced v.page .onopen =
        some (page, evs)) :
      VisitStep r v { v with page, text := [] } (evs.map .page)
  | hangUp (a : PageAction) (page : Page) (evs : List PageEvent)
      (hhangs : hangsUp a = true)
      (hstep : pageStep r.toFloat r.coerced v.page a = some (page, evs)) :
      VisitStep r v { v with page, browser := none } (evs.map .page)
  | page (a : PageAction) (page : Page) (evs : List PageEvent)
      (hhangs : hangsUp a = false) (hopen : a ≠ .onopen)
      (hreceive : ∀ text, a ≠ .receive text)
      (hstep : pageStep r.toFloat r.coerced v.page a = some (page, evs)) :
      VisitStep r v { v with page } (evs.map .page)
  | receive (i : ℕ) (b : Browser Event) (times : List ℕ) (text : List Char)
      (page : Page) (evs : List PageEvent) (hbrowser : v.browser = some i)
      (hb : v.home.dashboard.browsers[i]? = some b)
      (htimes : times.length = b.sent.length)
      (hbegins : v.text ++ text <+: writtenTo r times b)
      (hstep : pageStep r.toFloat r.coerced v.page (.receive text) =
        some (page, evs)) :
      VisitStep r v { v with page, text := v.text ++ text } (evs.map .page)

theorem Visit.withHome_eq_some {p : Option (SmartHome × List HomeEvent)}
    (h : v.withHome p = some (v', evs)) :
    ∃ home evs', p = some (home, evs') ∧ v' = { v with home } ∧
      evs = evs'.map .home := by
  obtain ⟨⟨home, evs'⟩, hp, heq⟩ := Option.map_eq_some_iff.mp h
  cases heq
  exact ⟨home, evs', hp, rfl, rfl⟩

theorem Visit.withPage_eq_some {p : Option (Page × List PageEvent)}
    (h : v.withPage p = some (v', evs)) :
    ∃ page evs', p = some (page, evs') ∧ v' = { v with page } ∧
      evs = evs'.map .page := by
  obtain ⟨⟨page, evs'⟩, hp, heq⟩ := Option.map_eq_some_iff.mp h
  cases heq
  exact ⟨page, evs', hp, rfl, rfl⟩

/-- A step of the page alone. -/
theorem visitStep_page {a : PageAction} (hopen : a ≠ .onopen)
    (hreceive : ∀ text, a ≠ .receive text)
    (h : visitStep r v (.page a) = some (v', evs)) : VisitStep r v v' evs := by
  have heq : visitStep r v (.page a) =
      { v with browser := if hangsUp a then none else v.browser }.withPage
        (pageStep r.toFloat r.coerced v.page a) := by
    cases a with
    | onopen => exact absurd rfl hopen
    | receive text => exact absurd rfl (hreceive text)
    | _ => rfl
  rw [heq] at h
  obtain ⟨page, evs', hstep, rfl, rfl⟩ := Visit.withPage_eq_some h
  cases hhangs : hangsUp a with
  | true => exact .hangUp a page evs' hhangs hstep
  | false => exact .page a page evs' hhangs hopen hreceive hstep

theorem visitStep_of_eq {a : VisitAction}
    (h : visitStep r v a = some (v', evs)) : VisitStep r v v' evs := by
  cases a with
  | home a =>
      obtain ⟨home, evs', hstep, rfl, rfl⟩ := Visit.withHome_eq_some h
      exact .home a home evs' hstep
  | accept =>
      rw [visitStep] at h
      split at h
      next hcond =>
        obtain ⟨home, evs', hstep, rfl, rfl⟩ := Visit.withHome_eq_some h
        exact .accept home evs' hcond.1 hcond.2 hstep
      · cases h
  | page a =>
      by_cases hreceive : ∃ text, a = .receive text
      · obtain ⟨text, rfl⟩ := hreceive
        cases h
      by_cases hopen : a = .onopen
      · subst hopen
        rw [visitStep] at h
        split at h
        · cases h
        next hbrowser =>
          obtain ⟨i, hi⟩ := Option.ne_none_iff_exists'.mp hbrowser
          obtain ⟨page, evs', hstep, rfl, rfl⟩ := Visit.withPage_eq_some h
          exact .onopen i page evs' hi hstep
      · exact visitStep_page hopen
          (fun text heq => hreceive ⟨text, heq⟩) h
  | receive times text =>
      rw [visitStep] at h
      split at h
      · cases h
      next b hbind =>
        obtain ⟨i, hi, hb⟩ := Option.bind_eq_some_iff.mp hbind
        split at h
        next hcond =>
          obtain ⟨page, evs', hstep, rfl, rfl⟩ := Visit.withPage_eq_some h
          exact .receive i b times text page evs' hi hb hcond.1
            (List.isPrefixOf_iff_prefix.mp hcond.2) hstep
        · cases h

/-! ## Runs -/

theorem home_of_run (h : (visit r).Reaches v tr v') :
    (smartHome (loads r.toFloat)).Reaches v.home (homeIn tr) v'.home := by
  refine h.project (f := Visit.home) rfl homeIn_append ?_
  intro v a v' evs _ h
  cases visitStep_of_eq h with
  | home a home evs hstep =>
      rw [homeIn_home]
      exact Or.inr ⟨a, hstep⟩
  | accept home evs hsource hbrowser hstep =>
      rw [homeIn_home]
      exact Or.inr ⟨.dashboard .join, hstep⟩
  | onopen i page evs hbrowser hstep => exact Or.inl ⟨rfl, homeIn_page evs⟩
  | hangUp a page evs hhangs hstep => exact Or.inl ⟨rfl, homeIn_page evs⟩
  | page a page evs hhangs hopen hreceive hstep =>
      exact Or.inl ⟨rfl, homeIn_page evs⟩
  | receive i b times text page evs hbrowser hb htimes hbegins hstep =>
      exact Or.inl ⟨rfl, homeIn_page evs⟩

theorem page_of_run (h : (visit r).Reaches v tr v') :
    (page r.toFloat r.coerced).Reaches v.page (pageIn tr) v'.page := by
  refine h.project (f := Visit.page) rfl pageIn_append ?_
  intro v a v' evs _ h
  cases visitStep_of_eq h with
  | home a home evs hstep => exact Or.inl ⟨rfl, pageIn_home evs⟩
  | accept home evs hsource hbrowser hstep =>
      exact Or.inl ⟨rfl, pageIn_home evs⟩
  | onopen i page evs hbrowser hstep =>
      rw [pageIn_page]
      exact Or.inr ⟨.onopen, hstep⟩
  | hangUp a page evs hhangs hstep =>
      rw [pageIn_page]
      exact Or.inr ⟨a, hstep⟩
  | page a page evs hhangs hopen hreceive hstep =>
      rw [pageIn_page]
      exact Or.inr ⟨a, hstep⟩
  | receive i b times text page evs hbrowser hb htimes hbegins hstep =>
      rw [pageIn_page]
      exact Or.inr ⟨.receive text, hstep⟩

/-! ## What has been told -/

/-- What the broadcasts say of the messages of the router. -/
def told (hevs : List (SseEvent Event)) : List Report :=
  ((broadcastsIn hevs).filter isLive).filterMap Event.reported

/-- What the page has read of them. -/
def liveReports (evs : List PageEvent) : List Report :=
  (reportsIn evs).filter Report.isLive

theorem told_append (hevs hevs' : List (SseEvent Event)) :
    told (hevs ++ hevs') = told hevs ++ told hevs' := by
  rw [told, broadcastsIn_append, List.filter_append, List.filterMap_append]
  rfl

theorem liveReports_append (evs evs' : List PageEvent) :
    liveReports (evs ++ evs') = liveReports evs ++ liveReports evs' := by
  rw [liveReports, reportsIn_append, List.filter_append]
  rfl

theorem isLive_of_reported {event : Event} {report : Report}
    (hhonest : event.Honest) (h : event.reported = some report) :
    report.isLive = isLive event := by
  cases event with
  | metrics data =>
      rw [reported_metrics hhonest h]
      rfl
  | connectionStatus connected =>
      cases h
      rfl
  | qos topic priority payload hex =>
      obtain ⟨n, -, rfl⟩ := Option.map_eq_some_iff.mp h
      rfl
  | timeTravelLog topic priority payload hex =>
      obtain ⟨n, -, rfl⟩ := Option.map_eq_some_iff.mp h
      rfl
  | timeTravelDone replayed =>
      cases h
      rfl

theorem filter_reported {events : List Event} (h : ∀ e ∈ events, e.Honest) :
    (events.filterMap Event.reported).filter Report.isLive =
      (events.filter isLive).filterMap Event.reported := by
  induction events with
  | nil => rfl
  | cons event events ih =>
      rw [List.forall_mem_cons] at h
      cases hreported : event.reported with
      | none =>
          rw [List.filterMap_cons_none hreported, ih h.2, List.filter_cons]
          split
          · rw [List.filterMap_cons_none hreported]
          · rfl
      | some report =>
          have hsame := isLive_of_reported h.1 hreported
          rw [List.filterMap_cons_some hreported, List.filter_cons, hsame,
            ih h.2, List.filter_cons]
          split
          · rw [List.filterMap_cons_some hreported]
          · rfl

/-! ## What a browser is sent -/

theorem joined_status {home : SmartHome} {past : List HomeEvent} {i : ℕ}
    {initial : Event} {loads : List Char → Option Json}
    (h : (smartHome loads).Reaches (.init log) past home)
    (hmem : .joined i initial ∈ dashboardIn past) : isLive initial = false :=
  (shows_run h).joined i initial hmem

/-- What has been broadcast can be written, and is honest. -/
theorem broadcast_ok {home : SmartHome} {past : List HomeEvent} {event : Event}
    (hlawful : r.Lawful)
    (h : (smartHome (loads r.toFloat)).Reaches (.init log) past home)
    (hevent : isLive event = true → event ∈ broadcastsIn (dashboardIn past)) :
    event.Sendable r.floatRepr r.toFloat ∧ event.Honest := by
  cases event with
  | metrics data =>
      have hmem : .metrics data ∈
          (broadcastsIn (dashboardIn past)).filter isLive :=
        List.mem_filter.mpr ⟨hevent rfl, rfl⟩
      rw [(shows_run h).live] at hmem
      obtain ⟨frame, -, hforward⟩ := List.mem_filterMap.mp hmem
      exact ⟨sendable_of_forward hlawful.reread hforward,
        honest_of_forward hforward⟩
  | connectionStatus connected => exact ⟨trivial, trivial⟩
  | qos topic priority payload hex => exact ⟨trivial, trivial⟩
  | timeTravelLog topic priority payload hex => exact ⟨trivial, trivial⟩
  | timeTravelDone replayed => exact ⟨trivial, trivial⟩

/-- What the handler of a browser has written: an event that is no message of
the router, and broadcasts behind the one that came with it. -/
theorem sent_split {home : SmartHome} {past : List HomeEvent} {i : ℕ}
    {b : Browser Event} {loads : List Char → Option Json}
    (h : (smartHome loads).Reaches (.init log) past home)
    (hb : home.dashboard.browsers[i]? = some b) :
    ∃ earlier initial later taken,
      dashboardIn past = earlier ++ .joined i initial :: later ∧
      (∀ e ∈ earlier, e.browser ≠ some i) ∧ isLive initial = false ∧
      b.sent = initial :: taken ∧ taken.Sublist (broadcastsIn later) := by
  obtain ⟨earlier, initial, later, htr, hearlier, -, hlife⟩ :=
    (lives_of_reaches (sse_reaches_of_run (dashboard_of_run h))).life i b hb
  have hmem : .joined i initial ∈ dashboardIn past := by
    rw [htr]
    exact List.mem_append_right _ (List.mem_cons_self ..)
  refine ⟨earlier, initial, later, _, htr, hearlier, joined_status h hmem,
    hlife.sent, ?_⟩
  have hsub := (DropOldest.taken_append_items_sublist sseCapacity
    (usesOf i later)).trans (feedOf_usesOf_sublist i later)
  exact (List.sublist_append_left _ _).trans hsub

/-- Every event that a browser is sent can be written, and is honest. -/
theorem sent_ok {home : SmartHome} {past : List HomeEvent} {i : ℕ}
    {b : Browser Event} (hlawful : r.Lawful)
    (h : (smartHome (loads r.toFloat)).Reaches (.init log) past home)
    (hb : home.dashboard.browsers[i]? = some b) :
    ∀ e ∈ b.sent, e.Sendable r.floatRepr r.toFloat ∧ e.Honest := by
  obtain ⟨earlier, initial, later, taken, htr, -, hinitial, hsent, hsub⟩ :=
    sent_split h hb
  intro e he
  refine broadcast_ok hlawful h fun hlive => ?_
  rw [hsent, List.mem_cons] at he
  rcases he with rfl | he
  · rw [hinitial] at hlive
    cases hlive
  · rw [htr, broadcastsIn_append]
    exact List.mem_append_right _ (hsub.subset he)

/-- A handler takes nothing back. -/
theorem sent_isPrefix {s s' : List (Browser Event)}
    {hevs : List (SseEvent Event)} {i : ℕ} {b : Browser Event}
    (h : sse.Reaches s hevs s') (hb : s[i]? = some b) :
    ∃ b', s'[i]? = some b' ∧ b.sent <+: b'.sent := by
  induction h with
  | nil => exact ⟨b, hb, List.prefix_rfl⟩
  | @snoc t u hevs evs a _ _ hstep ih =>
      obtain ⟨b₁, hb₁, hbegins⟩ := ih
      rcases sseStep_cases hstep with ⟨initial, rfl, rfl⟩ | hmoves
      · have hlt := (List.getElem?_eq_some_iff.mp hb₁).1
        exact ⟨b₁, by rw [List.getElem?_append_left hlt, hb₁], hbegins⟩
      · obtain ⟨b₂, hb₂, hmove⟩ := hmoves.move i b₁ hb₁
        refine ⟨b₂, hb₂, ?_⟩
        cases hmove with
        | take msg queue hhandler hqueue =>
            exact hbegins.trans (List.prefix_append _ _)
        | broadcast msg hlisted => exact hbegins
        | missed msg hlisted => exact hbegins
        | leave hlisted => exact hbegins
        | other evs handler hevs hclosed => exact hbegins

/-! ## Reading -/

/-- The browser has come behind what has been told of `old`. -/
def Joined (i : ℕ) (old : List Report) (hevs : List (SseEvent Event)) : Prop :=
  ∃ earlier initial later, hevs = earlier ++ .joined i initial :: later ∧
    (∀ e ∈ earlier, e.browser ≠ some i) ∧ old.Sublist (told earlier)

theorem Joined.extend {i : ℕ} {old : List Report}
    {hevs hevs' : List (SseEvent Event)} (h : Joined i old hevs) :
    Joined i old (hevs ++ hevs') := by
  obtain ⟨earlier, initial, later, rfl, hearlier, hold⟩ := h
  exact ⟨earlier, initial, later ++ hevs', by
    rw [List.append_assoc, List.cons_append], hearlier, hold⟩

theorem Joined.sublist {i : ℕ} {old : List Report}
    {hevs : List (SseEvent Event)} (h : Joined i old hevs) :
    old.Sublist (told hevs) := by
  obtain ⟨earlier, initial, later, rfl, -, hold⟩ := h
  rw [told_append]
  exact hold.trans (List.sublist_append_left _ _)

/-- What the page has read over its connection. -/
def readReports (r : Runtime) (text : List Char) : List Report :=
  (State.init.read text).2.filterMap (reportIn r.toFloat)

/-- Where a page stands: without a connection, before its `onopen`, or reading
what has been written to it. -/
inductive Reading (r : Runtime) (tr : List VisitEvent) (v : Visit) : Prop
  | apart (hbrowser : v.browser = none)
      (hsub : (liveReports (pageIn tr)).Sublist
        (told (dashboardIn (homeIn tr))))
  | waiting (i : ℕ) (b : Browser Event) (hbrowser : v.browser = some i)
      (hb : v.home.dashboard.browsers[i]? = some b)
      (hsource : v.page.connection.source = some .connecting)
      (hjoined : Joined i (liveReports (pageIn tr)) (dashboardIn (homeIn tr)))
  | reading (i : ℕ) (b : Browser Event) (old : List Report)
      (stamped : List (ℚ × Event)) (hbrowser : v.browser = some i)
      (hb : v.home.dashboard.browsers[i]? = some b)
      (hsource : v.page.connection.source =
        some (.opened (State.init.read v.text).1))
      (hjoined : Joined i old (dashboardIn (homeIn tr)))
      (hlive : liveReports (pageIn tr) =
        old ++ (readReports r v.text).filter Report.isLive)
      (hlegible : Legible r.floatRepr r.toFloat stamped)
      (hsent : stamped.map Prod.snd <+: b.sent)
      (htext : v.text <+: streamText r.floatRepr stamped)

/-- What has been read over a connection has been broadcast since it was
opened. -/
theorem read_sublist {home : SmartHome} {past : List HomeEvent} {i : ℕ}
    {b : Browser Event} {old : List Report} {text : List Char}
    {stamped : List (ℚ × Event)} (hlawful : r.Lawful)
    (h : (smartHome (loads r.toFloat)).Reaches (.init log) past home)
    (hb : home.dashboard.browsers[i]? = some b)
    (hjoined : Joined i old (dashboardIn past))
    (hlegible : Legible r.floatRepr r.toFloat stamped)
    (hsent : stamped.map Prod.snd <+: b.sent)
    (htext : text <+: streamText r.floatRepr stamped) :
    (old ++ (readReports r text).filter Report.isLive).Sublist
      (told (dashboardIn past)) := by
  obtain ⟨earlier, initial, later, hpast, hearlier, hold⟩ := hjoined
  obtain ⟨earlier', initial', later', taken, hpast', hearlier', hinitial,
    hsplit, htaken⟩ := sent_split h hb
  obtain ⟨rfl, rfl⟩ := split_joined hearlier hearlier' (hpast.symm.trans hpast')
  obtain ⟨n, hread⟩ := reports_of_stream hlegible htext
  have hbegins : (stamped.map Prod.snd).take n <+: b.sent :=
    (List.take_prefix _ _).trans hsent
  have hhonest : ∀ e ∈ (stamped.map Prod.snd).take n, e.Honest :=
    fun e he => (sent_ok hlawful h hb e (hbegins.subset he)).2
  have hlater : (b.sent.filter isLive).Sublist
      ((broadcastsIn later).filter isLive) := by
    rw [hsplit, List.filter_cons_of_neg
      (by rw [hinitial]; exact Bool.false_ne_true)]
    exact htaken.filter _
  rw [readReports, hread, filter_reported hhonest, hpast, told_append]
  exact hold.append
    (((hbegins.sublist.filter isLive).trans hlater).filterMap _)

theorem Reading.sublist (hlawful : r.Lawful)
    (hrun : (visit r).Reaches (.init log) tr v) (h : Reading r tr v) :
    (liveReports (pageIn tr)).Sublist (told (dashboardIn (homeIn tr))) := by
  cases h with
  | apart hbrowser hsub => exact hsub
  | waiting i b hbrowser hb hsource hjoined => exact hjoined.sublist
  | reading i b old stamped hbrowser hb hsource hjoined hlive hlegible hsent
      htext =>
      rw [hlive]
      exact read_sublist hlawful (home_of_run hrun) hb hjoined hlegible hsent
        htext

/-- What the page does alone is nothing that it reads. -/
theorem liveReports_quiet {a : PageAction} {p p' : Page}
    {pevs : List PageEvent}
    (h : pageStep r.toFloat r.coerced p a = some (p', pevs))
    (hreceive : ∀ text, a ≠ .receive text) (earlier : List PageEvent) :
    liveReports (earlier ++ pevs) = liveReports earlier := by
  rw [liveReports_append, liveReports, liveReports,
    reportsIn_of_step h hreceive]
  exact List.append_nil _

/-- Neither is it a matter of its connection. -/
theorem connection_of_step {a : PageAction} {p p' : Page}
    {pevs : List PageEvent}
    (h : pageStep r.toFloat r.coerced p a = some (p', pevs))
    (hreceive : ∀ text, a ≠ .receive text) (hopen : a ≠ .onopen)
    (hhangs : hangsUp a = false) : p'.connection = p.connection := by
  cases a with
  | receive text => exact absurd rfl (hreceive text)
  | onopen => exact absurd rfl hopen
  | onerror => cases hhangs
  | connectSSE => cases hhangs
  | visibility visible =>
      cases h
      rfl
  | updateQueue =>
      obtain ⟨q, hq, heq⟩ := Option.map_eq_some_iff.mp h
      cases heq
      rw [Page.updateQueue] at hq
      split at hq
      · cases hq
        rfl
      · cases hq
  | _ =>
      obtain ⟨c, -, heq⟩ := Option.map_eq_some_iff.mp h
      cases heq
      rfl

/-- A step of the system goes on for a page as it is. -/
theorem Reading.home_step (h : Reading r tr v)
    {home : SmartHome} {hevs : List HomeEvent}
    (hrun : (smartHome (loads r.toFloat)).Reaches v.home hevs home) :
    Reading r (tr ++ hevs.map .home) { v with home } := by
  have hpage : pageIn (tr ++ hevs.map .home) = pageIn tr := by
    rw [pageIn_append, pageIn_home, List.append_nil]
  have hhome : dashboardIn (homeIn (tr ++ hevs.map .home)) =
      dashboardIn (homeIn tr) ++ dashboardIn hevs := by
    rw [homeIn_append, homeIn_home, dashboardIn_append]
  have hsse := sse_reaches_of_run (dashboard_of_run hrun)
  cases h with
  | apart hbrowser hsub =>
      refine .apart hbrowser ?_
      rw [hpage, hhome, told_append]
      exact hsub.trans (List.sublist_append_left _ _)
  | waiting i b hbrowser hb hsource hjoined =>
      obtain ⟨b', hb', -⟩ := sent_isPrefix hsse hb
      refine .waiting i b' hbrowser hb' hsource ?_
      rw [hpage, hhome]
      exact hjoined.extend
  | reading i b old stamped hbrowser hb hsource hjoined hlive hlegible hsent
      htext =>
      obtain ⟨b', hb', hgrown⟩ := sent_isPrefix hsse hb
      refine .reading i b' old stamped hbrowser hb' hsource ?_ ?_ hlegible
        (hsent.trans hgrown) htext
      · rw [hhome]
        exact hjoined.extend
      · rw [hpage]
        exact hlive

/-- The dashboard gives a new browser the next number. -/
theorem joined_of_accept {home home' : SmartHome} {past hevs : List HomeEvent}
    {loads : List Char → Option Json}
    (h : (smartHome loads).Reaches (.init log) past home)
    (hstep : homeStep loads home (.dashboard .join) = some (home', hevs))
    {old : List Report} (hold : old.Sublist (told (dashboardIn past))) :
    Joined home.dashboard.browsers.length old
        (dashboardIn past ++ dashboardIn hevs) ∧
      ∃ b, home'.dashboard.browsers[home.dashboard.browsers.length]? =
        some b := by
  have hwith : home.withDashboard [] (hubStep loads home.dashboard .join) =
      some (home', hevs) := hstep
  obtain ⟨d, devs, hhub, rfl, rfl⟩ := SmartHome.withDashboard_eq_some hwith
  obtain ⟨hsse, -⟩ := Hub.withBrowsers_eq_some hhub
  have hknown := (lives_of_reaches (sse_reaches_of_run
    (dashboard_of_run h))).known
  rw [sseStep, Option.some.injEq, Prod.mk.injEq] at hsse
  obtain ⟨hbrowsers, rfl⟩ := hsse
  refine ⟨⟨dashboardIn past, _, [], rfl, ?_, hold⟩, ?_⟩
  · intro e he hbrowser
    exact Nat.lt_irrefl _ (hknown e he _ hbrowser)
  · change ∃ b, d.browsers[home.dashboard.browsers.length]? = some b
    rw [← hbrowsers, List.getElem?_concat_length]
    exact ⟨_, rfl⟩

theorem Reading.step (hlawful : r.Lawful)
    (hrun : (visit r).Reaches (.init log) tr v) (h : Reading r tr v)
    (hstep : VisitStep r v v' evs) : Reading r (tr ++ evs) v' := by
  have hhome := home_of_run hrun
  have hpast : ∀ pevs : List PageEvent,
      dashboardIn (homeIn (tr ++ pevs.map .page)) =
        dashboardIn (homeIn tr) := by
    intro pevs
    rw [homeIn_append, homeIn_page, List.append_nil]
  have hpage : ∀ pevs : List PageEvent,
      pageIn (tr ++ pevs.map .page) = pageIn tr ++ pevs := by
    intro pevs
    rw [pageIn_append, pageIn_page]
  cases hstep with
  | home a home hevs hstep =>
      exact h.home_step (System.Run.single trivial hstep)
  | accept home hevs hsource hbrowser hstep =>
      cases h with
      | apart _ hsub =>
          obtain ⟨hjoined, b, hb⟩ := joined_of_accept hhome hstep hsub
          refine .waiting _ b rfl hb hsource ?_
          rw [pageIn_append, pageIn_home, List.append_nil, homeIn_append,
            homeIn_home, dashboardIn_append]
          exact hjoined
      | waiting i b hsome => rw [hbrowser] at hsome; cases hsome
      | reading i b old stamped hsome => rw [hbrowser] at hsome; cases hsome
  | onopen i page pevs hbrowser hstep =>
      obtain ⟨hconnecting, hopened, hquiet⟩ := onopen_eq_some hstep
      cases h with
      | apart hnone _ => rw [hbrowser] at hnone; cases hnone
      | reading j b old stamped _ _ hsource =>
          rw [hconnecting] at hsource
          cases hsource
      | waiting j b hsome hb hsource hjoined =>
          refine .reading j b (liveReports (pageIn tr)) [] hsome hb hopened ?_
            ?_ (by simp [Legible]) (List.nil_prefix) (List.nil_prefix)
          · rw [hpast]
            exact hjoined
          · have hnone : liveReports pevs = [] := by
              rw [liveReports, hquiet]
              rfl
            rw [hpage, liveReports_append, hnone]
            rfl
  | hangUp a page pevs hhangs hstep =>
      have hreceive : ∀ text, a ≠ .receive text := by
        rintro text rfl
        cases hhangs
      refine .apart rfl ?_
      rw [hpage, hpast, liveReports_quiet hstep hreceive]
      exact h.sublist hlawful hrun
  | page a page pevs hhangs hopen hreceive hstep =>
      have hsame := connection_of_step hstep hreceive hopen hhangs
      cases h with
      | apart hbrowser hsub =>
          refine .apart hbrowser ?_
          rw [hpage, hpast, liveReports_quiet hstep hreceive]
          exact hsub
      | waiting i b hbrowser hb hsource hjoined =>
          refine .waiting i b hbrowser hb (by rw [hsame]; exact hsource) ?_
          rw [hpage, hpast, liveReports_quiet hstep hreceive]
          exact hjoined
      | reading i b old stamped hbrowser hb hsource hjoined hlive hlegible hsent
          htext =>
          refine .reading i b old stamped hbrowser hb
            (by rw [hsame]; exact hsource) ?_ ?_ hlegible hsent htext
          · rw [hpast]
            exact hjoined
          · rw [hpage, liveReports_quiet hstep hreceive]
            exact hlive
  | receive i b times text page pevs hbrowser hb htimes hbegins hstep =>
      obtain ⟨stream, hopen, hsource', hreports⟩ := receive_eq_some hstep
      cases h with
      | apart hnone _ => rw [hbrowser] at hnone; cases hnone
      | waiting j b' hsome hb' hsource hjoined =>
          rw [hopen] at hsource
          cases hsource
      | reading j b' old stamped hsome hb' hsource hjoined hlive hlegible hsent
          htext =>
          rw [hopen] at hsource
          cases hsource
          rw [hbrowser] at hsome
          cases hsome
          have hread := read_append State.init v.text text
          have hsnd : ((times.map r.clock).zip b.sent).map Prod.snd = b.sent :=
            List.map_snd_zip (by rw [List.length_map, htimes])
          refine .reading i b old ((times.map r.clock).zip b.sent) hbrowser hb
            ?_ ?_ ?_ ?_ ?_ hbegins
          · rw [hsource', hread]
          · rw [hpast]
            exact hjoined
          · rw [hpage, liveReports_append, hlive, List.append_assoc,
              liveReports, hreports, readReports, readReports, hread,
              List.filterMap_append, List.filter_append]
          · intro e he
            have hclock : e.1 ∈ times.map r.clock := (List.of_mem_zip he).1
            obtain ⟨n, -, hn⟩ := List.mem_map.mp hclock
            refine ⟨hn ▸ hlawful.clock n, ?_⟩
            exact (sent_ok hlawful hhome hb e.2 (List.of_mem_zip he).2).1
          · rw [hsnd]

theorem reading_run (hlawful : r.Lawful)
    (h : (visit r).Reaches (.init log) tr v) : Reading r tr v := by
  induction h with
  | nil => exact .apart rfl (List.nil_sublist _)
  | snoc hrun _ hstep ih =>
      exact ih.step hlawful hrun (visitStep_of_eq hstep)

/-! ## What the page counts -/

theorem utf8Bytes_eq (text : String) :
    utf8Bytes text = Utf8.encode text.toList := by
  rw [utf8Bytes, String.toUTF8_eq_toByteArray, ← String.utf8Encode_toList,
    List.utf8Encode, List.data_toByteArray]
  rfl

theorem live_entriesOf (rs : List Report) :
    entriesOf (rs.filter Report.isLive) = live (entriesOf rs) := by
  induction rs with
  | nil => rfl
  | cons report rs ih =>
      cases report with
      | status connected => exact ih
      | metrics throughput offset => exact ih
      | done replayed => exact ih
      | entry e =>
          have hcons : entriesOf (.entry e :: rs) = e :: entriesOf rs := rfl
          rw [hcons, live, List.filter_cons, List.filter_cons, Report.isLive,
            ← live, ← ih]
          cases e.history with
          | true => rfl
          | false => rfl

/-- What the messages of the router say. -/
def reportOfMessage (r : Runtime) (msg : Message) : Option Report :=
  (eventOf (loads r.toFloat) msg).bind Event.reported

/-- An entry shows a message that a client has published. -/
theorem entry_of_handed {home : SmartHome} {past : List HomeEvent}
    (h : (smartHome (loads r.toFloat)).Reaches (.init log) past home)
    {m : ℕ × Message} (hm : m ∈ handedIn (routerEvents (brokerIn past)))
    {e : Entry} (hreport : reportOfMessage r m.2 = some (.entry e)) :
    ∃ p start, .sent p m.2 ∈ observationsIn past ∧
      .published p m.1 m.2 start ∈ brokerIn past ∧
      m.2.topicId = topicHash e.topic ∧ m.2.priority = (e.priority : ℤ) ∧
      e.payload = Utf8.decodeReplace m.2.payload := by
  obtain ⟨event, hevent, hreported⟩ := Option.bind_eq_some_iff.mp hreport
  cases hname : topicName (BrokerFrame.ofFrame m.2.frame).tid with
  | none =>
      rw [eventOf, forward_of_unknown hname] at hevent
      cases hevent
  | some topic =>
      by_cases hmetrics : topic = "broker/metrics"
      · have hhonest := honest_of_forward hevent
        rw [hmetrics] at hname
        rw [eventOf, forward_of_metrics hname, metricsEvent] at hevent
        split at hevent
        · cases hevent
          cases reported_metrics hhonest hreported
        · cases hevent
      · obtain ⟨p, start, hpublished, hsent, -⟩ :=
          published_of_handed h hm hname hmetrics
        have hwire := published_onWire (brokerIn_run h) hpublished
        rw [tid_ofFrame_frame hwire.topicId] at hname
        have hbyte : m.2.priority.toNat ≤ maxExact := by
          have hlt := hwire.priority.2
          rw [maxExact]
          omega
        rw [eventOf_device _ hwire hname hmetrics] at hevent
        cases hevent
        rw [Event.reported, readPriority_of_le hbyte] at hreported
        cases hreported
        obtain ⟨hknown, hhash⟩ := mem_smartHomeTopics_of_topicName hname
        have htopic : (if topic.toList = [] then "unknown" else topic) =
            topic := by
          refine if_neg fun hempty => ?_
          have hall : ∀ t ∈ smartHomeTopics, t.toList ≠ [] := by decide
          exact hall topic hknown hempty
        refine ⟨p, start, hsent, hpublished, ?_,
          (Int.toNat_of_nonneg hwire.priority.1).symm, rfl⟩
        change m.2.topicId = topicHash
          (if topic.toList = [] then "unknown" else topic)
        rw [htopic, hhash]

/-- What has been broadcast is what the messages say that the router has handed
to the proxy. -/
theorem exists_told {home : SmartHome} {past : List HomeEvent}
    (h : (smartHome (loads r.toFloat)).Reaches (.init log) past home) :
    ∃ handed : List (ℕ × Message),
      handed.Sublist (handedIn (routerEvents (brokerIn past))) ∧
      (handed.map Prod.fst).Nodup ∧
      told (dashboardIn past) = handed.filterMap fun m =>
        reportOfMessage r m.2 := by
  obtain ⟨handed, hsub, hreads⟩ := exists_handed h
  refine ⟨handed, hsub, ?_, ?_⟩
  · exact (handed_nodup (brokerIn_run h)).sublist (hsub.map Prod.fst)
  · rw [told, (shows_run h).live, hreads, List.filterMap_map,
      List.filterMap_filterMap]
    refine List.filterMap_congr fun m _ => ?_
    rw [Function.comp_apply]
    rfl

/-- The entry that a message makes. -/
def entryOfMessage (r : Runtime) (msg : Message) : Option Entry :=
  (reportOfMessage r msg).bind Report.shown

theorem reportOfMessage_of_entry {msg : Message} {e : Entry}
    (h : entryOfMessage r msg = some e) :
    reportOfMessage r msg = some (.entry e) := by
  obtain ⟨report, hreport, hshown⟩ := Option.bind_eq_some_iff.mp h
  cases report with
  | entry e' =>
      cases hshown
      exact hreport
  | _ => cases hshown

theorem entriesOf_messages (r : Runtime) (handed : List (ℕ × Message)) :
    entriesOf (handed.filterMap fun m => reportOfMessage r m.2) =
      handed.filterMap fun m => entryOfMessage r m.2 :=
  List.filterMap_filterMap

/-- Messages that the clients have published are not more than these. -/
theorem length_le_published {bevs : List BrokerEvent}
    {shown : List (ℕ × Message)} (hnodup : (shown.map Prod.fst).Nodup)
    (hpublished : ∀ m ∈ shown, ∃ p start,
      .published p m.1 m.2 start ∈ bevs) :
    shown.length ≤ (publishedIn bevs).length := by
  have hsubset : shown.map Prod.fst ⊆ (enqueuedAs bevs).map Prod.fst := by
    intro seq hseq
    obtain ⟨m, hm, rfl⟩ := List.mem_map.mp hseq
    obtain ⟨p, start, hmem⟩ := hpublished m hm
    have hqueued : (m.1, m.2, start) ∈ enqueuedAs bevs :=
      List.mem_filterMap.mpr ⟨_, hmem, rfl⟩
    exact List.mem_map_of_mem (f := Prod.fst) hqueued
  have hle := (List.subperm_of_subset hnodup hsubset).length_le
  rw [List.length_map, List.length_map] at hle
  rw [publishedIn_eq, List.length_map]
  exact hle

/-- The elements that make something, beside what they make. -/
theorem forall₂_filterMap {α β : Type*} {R : α → β → Prop} {f : α → Option β}
    {l : List α} (h : ∀ a ∈ l, ∀ b, f a = some b → R a b) :
    List.Forall₂ R (l.filter fun a => (f a).isSome) (l.filterMap f) := by
  induction l with
  | nil => exact .nil
  | cons a l ih =>
      rw [List.forall_mem_cons] at h
      cases hmade : f a with
      | none =>
          rw [List.filterMap_cons_none hmade,
            List.filter_cons_of_neg (by simp [hmade])]
          exact ih h.2
      | some b =>
          rw [List.filterMap_cons_some hmade,
            List.filter_cons_of_pos (by simp [hmade])]
          exact .cons (h.1 b hmade) (ih h.2)

/-- What the page says of a message. -/
structure Tells (tr : List HomeEvent) (m : ℕ × Message) (e : Entry) : Prop where
  sent : ∃ p start, .sent p m.2 ∈ observationsIn tr ∧
    .published p m.1 m.2 start ∈ brokerIn tr
  topic : m.2.topicId = topicHash e.topic
  priority : m.2.priority = e.priority
  payload : ∀ text : String, m.2.payload = utf8Bytes text →
    e.payload = text.toList

/-- However often a page loses its connection and opens another one, and in
whatever parts it reads the stream, it shows messages that the clients have
published, each of them once and as it was published, in the order in which the
router has handed them over; it counts these messages and no others. -/
theorem page_counts_once (hlawful : r.Lawful)
    (h : (visit r).Reaches (.init log) tr v) :
    ∃ shown : List (ℕ × Message),
      shown.Sublist (handedIn (routerEvents (brokerIn (homeIn tr)))) ∧
      (shown.map Prod.fst).Nodup ∧
      List.Forall₂ (Tells (homeIn tr)) shown
        (live (entriesOf (reportsIn (pageIn tr)))) ∧
      (∀ p q, ((shown.filter (isFrom p q (homeIn tr))).map Prod.snd).Sublist
        ((sentBy p (observationsIn (homeIn tr))).filter fun msg =>
          msg.priority = q)) ∧
      v.page.totalMessages = shown.length ∧
      shown.length ≤ (publishedIn (brokerIn (homeIn tr))).length := by
  have hhome := home_of_run h
  obtain ⟨handed, hhanded, hnodup, htold⟩ := exists_told hhome
  have hread := ((reading_run hlawful h).sublist hlawful h).filterMap
    Report.shown
  rw [htold] at hread
  have hlive : (live (entriesOf (reportsIn (pageIn tr)))).Sublist
      (handed.filterMap fun m => entryOfMessage r m.2) := by
    rw [← live_entriesOf, ← entriesOf_messages]
    exact hread
  obtain ⟨made, hmade, hentries⟩ := List.sublist_filterMap_iff.mp hlive
  have hsub := hmade.trans hhanded
  have htells : ∀ m ∈ made, ∀ e, entryOfMessage r m.2 = some e →
      Tells (homeIn tr) m e := by
    intro m hm e he
    obtain ⟨p, start, hsent, hpublished, htopic, hpriority, hpayload⟩ :=
      entry_of_handed hhome (hsub.subset hm) (reportOfMessage_of_entry he)
    refine ⟨⟨p, start, hsent, hpublished⟩, htopic, hpriority, ?_⟩
    intro text htext
    rw [hpayload, htext, utf8Bytes_eq, Utf8.decodeReplace_encode]
  have hforall := forall₂_filterMap htells
  rw [← hentries] at hforall
  have hshown := List.filter_sublist (l := made)
    (p := fun m => (entryOfMessage r m.2).isSome)
  have honce := hnodup.sublist ((hshown.trans hmade).map Prod.fst)
  have hpublished : ∀ m ∈ made.filter fun m => (entryOfMessage r m.2).isSome,
      ∃ p start, .published p m.1 m.2 start ∈ brokerIn (homeIn tr) := by
    intro m hm
    obtain ⟨hmem, hsome⟩ := List.mem_filter.mp hm
    obtain ⟨e, he⟩ := Option.isSome_iff_exists.mp hsome
    obtain ⟨p, start, -, hmem⟩ := (htells m hmem e he).sent
    exact ⟨p, start, hmem⟩
  refine ⟨_, hshown.trans hsub, honce, hforall, ?_, ?_, ?_⟩
  · intro p q
    have hordered := handed_sublist_publishedWith (brokerIn_run hhome)
      (List.filter_sublist.trans (hshown.trans hsub)) (p := p) (q := q)
      fun e he => of_decide_eq_true
        (List.mem_filter (p := isFrom p q (homeIn tr)).mp he).2
    exact (hordered.map Prod.snd).trans
      (publishedWith_isPrefix_sent p q (broker_of_run hhome)).sublist
  · rw [(displays_run (page_of_run h)).total, hforall.length_eq]
  · exact length_le_published honce hpublished

/-- A clock that stands still. -/
def halfPast : Runtime where
  floatRepr _ := "0.5".toList
  toFloat _ := .finite (1 / 2)
  coerced _ _ := false
  clock _ := 1 / 2

theorem rereads_half :
    Rereads halfPast.floatRepr halfPast.toFloat (1 / 2) where
  oneLine := by decide
  starts := .inl ⟨'0', ['.', '5'], rfl, by decide⟩
  read rest hrest := by
    have hdigit : ∀ c ∈ ['5'], c.isDigit = true :=
      List.forall_mem_singleton.mpr rfl
    have hspan : spanDigits ('5' :: rest) = (['5'], rest) :=
      spanDigits_append hdigit fun c hc => (hrest c hc).1
    have hfraction :
        fractionPart ('.' :: '5' :: rest) = (['.', '5'], rest) := by
      rw [fractionPart, if_pos rfl, hspan]
    have hexponent := exponentPart_of_ends hrest
    change scanUnsigned halfPast.toFloat false ('0' :: '.' :: '5' :: rest) = _
    rw [scanUnsigned, integerPart, if_pos rfl]
    simp only [Option.bind_eq_bind, Option.bind_some, hfraction, hexponent]
    rfl

theorem halfPast_lawful : halfPast.Lawful where
  reread text x h := by
    cases h
    exact rereads_half
  clock _ := rereads_half

/-- What the dashboard writes to the page. -/
def fireStream : List Char :=
  streamText halfPast.floatRepr
    ([.connectionStatus false, .connectionStatus true,
      .qos "home/fire" 3 "FIRE".toList
        "024eec8f19030000000446495245".toList].map fun event =>
          (1 / 2, event))

/-- The page joins as the only browser, and reads of a fire in two parts. -/
def fireVisit : List VisitAction :=
  .accept :: ((fireAlarm ++ fireShown).drop 1).map .home ++
    [.page .onopen, .receive [0, 0, 0] (fireStream.take 90),
      .receive [0, 0, 0] (fireStream.drop 90)]

theorem page_counts_once_fire : ∃ tr v,
    (visit halfPast).Reaches (.init none) tr v ∧ v.page.totalMessages = 1 ∧
    ∃ shown : List (ℕ × Message), (shown.map Prod.fst).Nodup ∧
      List.Forall₂ (Tells (homeIn tr)) shown
        (live (entriesOf (reportsIn (pageIn tr)))) ∧
      shown.length = 1 := by
  have hexec : ((visit halfPast).exec (fun _ _ => True) (.init none)
      fireVisit).any (fun r => r.1.page.totalMessages = 1) = true := by
    decide +kernel
  obtain ⟨⟨v, tr⟩, hrun, hany⟩ := (Option.any_eq_true _ _).mp hexec
  have h := System.exec_run _ hrun
  have htotal := of_decide_eq_true hany
  obtain ⟨shown, -, hnodup, htells, -, hcount, -⟩ :=
    page_counts_once halfPast_lawful h
  exact ⟨tr, v, h, htotal, shown, hnodup, htells, hcount.symm.trans htotal⟩

end SentinelHub.Home
