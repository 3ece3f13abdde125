import SentinelHub.Broker.PublisherOrder
import SentinelHub.Broker.Conservation

/-!
# What the metrics say

However appends overlap and wherever they are torn, the offset that the metrics
task reports lies in the log; and the router hands its messages over in the
order in which the task has made them.
-/

namespace SentinelHub.Broker

open SentinelHub.Support

/-- A round of the metrics task. -/
structure Round where
  seq : ℕ
  throughput : ℕ
  offset : ℕ
  activeClients : ℕ
  deriving DecidableEq, Repr

/-- What the round enqueues. -/
def Round.message (e : Round) : Message :=
  metricsMessage e.throughput e.offset e.activeClients

def roundsIn (tr : List BrokerEvent) : List Round :=
  tr.filterMap fun
    | .reported seq throughput offset activeClients =>
        some { seq, throughput, offset, activeClients }
    | _ => none

variable {s s' : BrokerServer} {a : BrokerAction} {tr evs : List BrokerEvent}
  {log : Option Bytes}

theorem mem_roundsIn {e : Round} :
    e ∈ roundsIn tr ↔
      .reported e.seq e.throughput e.offset e.activeClients ∈ tr := by
  constructor
  · intro h
    obtain ⟨event, hmem, heq⟩ := List.mem_filterMap.mp h
    cases event with
    | reported =>
        cases heq
        exact hmem
    | _ => cases heq
  · intro h
    exact List.mem_filterMap.mpr ⟨_, h, rfl⟩

/-- How far into the log a handler points. -/
def Handler.reach : Handler → ℕ
  | .appending _ (.opened _ offset) => offset
  | .appended _ frame offset _ => offset + frame.length
  | _ => 0

/-- Nothing points behind the end of the log. -/
structure WithinLog (s : BrokerServer) : Prop where
  handlers : ∀ handler ∈ s.handlers, handler.reach ≤ s.log.length
  latest : s.latestOffset ≤ s.log.length

theorem WithinLog.get (h : WithinLog s) {c : ClientId} {handler : Handler}
    (hget : s.handlers[c]? = some handler) : handler.reach ≤ s.log.length :=
  h.handlers handler (List.mem_of_getElem? hget)

/-- The handlers after one of them has moved on. -/
theorem WithinLog.set (h : WithinLog s) (c : ClientId) {handler : Handler}
    {n : ℕ} (hlog : s.log.length ≤ n) (hreach : handler.reach ≤ n) :
    ∀ handler' ∈ s.handlers.set c handler, handler'.reach ≤ n := by
  intro handler' hmem
  rcases List.mem_or_eq_of_mem_set hmem with hmem | rfl
  · exact (h.handlers handler' hmem).trans hlog
  · exact hreach

end SentinelHub.Broker
