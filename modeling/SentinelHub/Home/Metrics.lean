import SentinelHub.Broker.Metrics
import SentinelHub.Home.Pages

/-!
# The metrics on a page

What the metrics task counts goes through the heap, over the wire, through the
proxy and the event stream to the chart and the slider of a page, as JSON in
JSON.  On the way nothing of it changes, as long as the log is not longer than
the numbers that a page can tell apart.
-/

namespace SentinelHub.Home

open Support Broker Dashboard EventStream

/-! ## From the task to the page -/

variable {r : Runtime} {v : Visit} {tr : List VisitEvent} {log : Option Bytes}
  {home : SmartHome} {past : List HomeEvent}

/-! ## What a page reads -/

theorem topicId_of_handed
    (h : (smartHome (loads r.toFloat)).Reaches (.init log) past home)
    {m : ℕ × Message} (hm : m ∈ handedIn (routerEvents (brokerIn past))) :
    0 ≤ m.2.topicId ∧ m.2.topicId < 2 ^ 32 := by
  have hbroker := brokerIn_run h
  have henqueued : (m.1, m.2) ∈ enqueuedIn (routerEvents (brokerIn past)) :=
    (orderInv_run (router_run hbroker)).conserved.mem_iff.mpr
      (List.mem_append_left _ hm)
  rcases enqueued_run hbroker henqueued with ⟨p, start, hpublished⟩ |
    ⟨throughput, offset, active, -, heq⟩
  · exact (published_onWire hbroker hpublished).topicId
  · rw [heq]
    exact topicHash_inRange _

end SentinelHub.Home
