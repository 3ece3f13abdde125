import SentinelHub.Broker.Appends
import SentinelHub.Broker.Digest
import SentinelHub.Broker.Recovery
import SentinelHub.Broker.Replay
import SentinelHub.Broker.Router

/-!
# The broker server

`broker/server.py`: the registry of connections, one handler for each
connected client, the metrics task, the event log and the router.  The state
is what these tasks share and where each handler stands; an action is the next
thing that happens to one of them, so that every interleaving of any number of
clients is a run.

A handler stands still at every `await`.  A publish is three steps of its own:
the append call opens the log and reads its end, it writes, and the handler
resumes with the offset and enqueues.  The transport is left out: a client
sends whole messages that fit the wire, which are those that `read_message`
returns, and takes the frames written to it.
Connections are numbered in the order in which they are accepted, in place of
the random identifiers of the source.
-/

namespace SentinelHub.Broker

open SentinelHub.Support

/-! ## The connection registry -/

/-- The registered clients in the order of registration, each with the topics
it has subscribed to. -/
structure ConnectionRegistry where
  clients : List (ClientId × List ℤ)
  deriving DecidableEq, Repr

namespace ConnectionRegistry

def init : ConnectionRegistry where
  clients := []

def register (registry : ConnectionRegistry) (client : ClientId) :
    ConnectionRegistry :=
  ⟨registry.clients ++ [(client, [])]⟩

def unregister (registry : ConnectionRegistry) (client : ClientId) :
    ConnectionRegistry :=
  ⟨registry.clients.filter fun entry => entry.1 ≠ client⟩

def subscribe (registry : ConnectionRegistry) (client : ClientId)
    (topic : ℤ) : ConnectionRegistry :=
  ⟨registry.clients.map fun entry =>
    if entry.1 = client then (entry.1, entry.2.insert topic) else entry⟩

def getSubscribers (registry : ConnectionRegistry) (topic : ℤ) :
    List ClientId :=
  (registry.clients.filter fun entry => topic ∈ entry.2).map Prod.fst

def count (registry : ConnectionRegistry) : ℕ :=
  registry.clients.length

end ConnectionRegistry

/-! ## Handlers -/

/-- Where `_handle_client` stands for one client: in `read_message`; in the
append of a publish, before and after its frame has been written; in a replay,
at the log or in the drain behind a frame; or done.  Behind an append, `start`
is the position at which the frame was written; the code does not know it, and
only events carry it. -/
inductive Handler
  | reading
  | appending (msg : Message) (call : AppendCall)
  | appended (msg : Message) (frame : Bytes) (offset start : ℕ)
  | replaying (replay : Replay)
  | flushing (replay : Replay)
  | closed
  deriving DecidableEq, Repr

/-- A publish that has been received and not enqueued yet. -/
def Handler.publishing : Handler → Bool
  | .appending .. => true
  | .appended .. => true
  | _ => false

/-! ## The broker -/

structure BrokerServer where
  registry : ConnectionRegistry
  log : Bytes
  router : PriorityRouter
  messagesProcessed : ℕ
  latestOffset : ℕ
  handlers : List Handler
  shutdown : Bool
  deriving DecidableEq, Repr

/-- What can be noted about the broker. -/
inductive BrokerEvent
  | registered (client : ClientId)
  | unregistered (client : ClientId)
  | subscribed (client : ClientId) (topic : ℤ)
  | timeTravel (client : ClientId) (topic : ℤ) (offset : ℕ)
  | told (client : ClientId)
  | appended (client : ClientId) (msg : Message) (offset start : ℕ)
  | appendRaised (client : ClientId) (msg : Message) (n : ℕ)
  | published (client : ClientId) (seq : ℕ) (msg : Message) (start : ℕ)
  | reported (seq throughput offset activeClients : ℕ)
  | replayed (client : ClientId) (frame : Bytes) (start : ℕ)
  | replayFinished (client : ClientId) (offset : ℕ)
  | replayFailed (client : ClientId)
  | router (event : RouterEvent)
  | stopped
  deriving DecidableEq, Repr

inductive BrokerAction
  | connect
  | receive (client : ClientId) (msg : Message)
  | disconnect (client : ClientId)
  | tell (client : ClientId)
  | write (client : ClientId)
  | appendRaise (client : ClientId) (n : ℕ)
  | resume (client : ClientId)
  | readLog (client : ClientId)
  | replayWrite (client : ClientId)
  | replayDrain (client : ClientId) (ok : Bool)
  | worker (action : WorkerAction)
  | metricsTick
  | stop
  | stopRouter
  deriving DecidableEq, Repr

def maxPayloadBytes : ℕ := 5 * 1024 * 1024

/-- `json.dumps(metrics_data).encode("utf-8")`. -/
def metricsPayload (throughput offset activeClients : ℕ) : Bytes :=
  utf8Bytes (s!"\x7b\"throughput\": {throughput}, " ++
    s!"\"current_log_offset\": {offset}, " ++
    s!"\"active_clients\": {activeClients}\x7d")

/-- The message that `_publish_metrics` enqueues. -/
def metricsMessage (throughput offset activeClients : ℕ) : Message where
  command := cmdPublish
  topicId := topicHash "broker/metrics"
  priority := 255
  payload := metricsPayload throughput offset activeClients

namespace BrokerServer

/-- `BrokerServer.__init__` on a log file, and `start`. -/
def init (log : Option Bytes) : BrokerServer where
  registry := .init
  log := EventLog.init log
  router := PriorityRouter.init.start
  messagesProcessed := 0
  latestOffset := 0
  handlers := []
  shutdown := false

variable (s : BrokerServer)

def setHandler (c : ClientId) (handler : Handler) : BrokerServer :=
  { s with handlers := s.handlers.set c handler }

/-- The `finally` branch of `_handle_client`. -/
def close (c : ClientId) : BrokerServer :=
  { s with
    registry := s.registry.unregister c
    handlers := s.handlers.set c .closed }

/-- What a handler does with a message up to its next `await`. -/
def dispatch (c : ClientId) (msg : Message) : BrokerServer × List BrokerEvent :=
  if maxPayloadBytes < msg.payload.length then
    (s.close c, [.unregistered c])
  else if msg.command = cmdSubscribe then
    ({ s with registry := s.registry.subscribe c msg.topicId },
      [.subscribed c msg.topicId])
  else if msg.command = cmdPublish then
    match msg.encoded with
    | .error _ => (s.close c, [.unregistered c])
    | .ok frame => (s.setHandler c (.appending msg (.opening frame)), [])
  else if msg.command = cmdTimeTravel then
    match timeTravelOffset msg.payload with
    | none => (s, [])
    | some offset =>
        (s.setHandler c (.replaying (.batch offset)),
          [.timeTravel c msg.topicId offset])
  else (s, [])

/-- The append call opens the log and reads its end. -/
def tell (c : ClientId) : Option (BrokerServer × List BrokerEvent) :=
  match s.handlers[c]? with
  | some (.appending msg call) =>
      match call.tell s.log with
      | some (call, _) =>
          some (s.setHandler c (.appending msg call), [.told c])
      | none => none
  | _ => none

/-- The append call writes its frame and returns. -/
def write (c : ClientId) : Option (BrokerServer × List BrokerEvent) :=
  match s.handlers[c]? with
  | some (.appending msg call) =>
      match call.write s.log with
      | some (log, frame, offset) =>
          some ({ s with
            log
            handlers :=
              s.handlers.set c (.appended msg frame offset s.log.length) },
            [.appended c msg offset s.log.length])
      | none => none
  | _ => none

/-- The append call raises, and with it the handler ends. -/
def appendRaise (c : ClientId) (n : ℕ) :
    Option (BrokerServer × List BrokerEvent) :=
  match s.handlers[c]? with
  | some (.appending msg call) =>
      match call.fail s.log n with
      | some log =>
          some ({ s.close c with log },
            [.appendRaised c msg n, .unregistered c])
      | none => none
  | _ => none

/-- The handler goes on after its append: `latest_offset`,
`messages_processed` and `enqueue`. -/
def resume (c : ClientId) : Option (BrokerServer × List BrokerEvent) :=
  match s.handlers[c]? with
  | some (.appended msg frame offset start) =>
      some ({ s with
        latestOffset := offset + frame.length
        messagesProcessed := s.messagesProcessed + 1
        router := s.router.enqueue msg
        handlers := s.handlers.set c .reading },
        [.published c s.router.seq msg start,
          .router (.enqueued s.router.seq msg)])
  | _ => none

/-- One access of a replay to the log. -/
def readLog (c : ClientId) : Option (BrokerServer × List BrokerEvent) :=
  match s.handlers[c]? with
  | some (.replaying replay) =>
      match replay.advance s.log with
      | none => none
      | some (.finished offset) =>
          some (s.setHandler c .reading, [.replayFinished c offset])
      | some (.raised _) =>
          some (s.close c, [.replayFailed c, .unregistered c])
      | some replay => some (s.setHandler c (.replaying replay), [])
  | _ => none

/-- A replay writes its next frame to the client. -/
def replayWrite (c : ClientId) : Option (BrokerServer × List BrokerEvent) :=
  match s.handlers[c]? with
  | some (.replaying replay) =>
      match replay.yieldFrame with
      | some (frame, next) =>
          some (s.setHandler c (.flushing next),
            [.replayed c frame replay.offset])
      | none => none
  | _ => none

/-- The drain behind a replayed frame; a failed one ends the replay. -/
def replayDrain (c : ClientId) (ok : Bool) :
    Option (BrokerServer × List BrokerEvent) :=
  match s.handlers[c]? with
  | some (.flushing replay) =>
      if ok then some (s.setHandler c (.replaying replay), [])
      else some (s.setHandler c .reading, [.replayFailed c])
  | _ => none

/-- The registry after some events of the router, which unregisters the
clients it could not reach. -/
def registryAfter (registry : ConnectionRegistry) :
    List RouterEvent → ConnectionRegistry
  | [] => registry
  | .unregistered c :: evs => registryAfter (registry.unregister c) evs
  | _ :: evs => registryAfter registry evs

/-- The subscribers that a look-up of the worker finds are those of the
registry. -/
def looksUp (action : WorkerAction) : Bool :=
  match action, s.router.worker with
  | .lookup subscribers, .fanout _ msg =>
      subscribers = s.registry.getSubscribers msg.topicId
  | _, _ => true

/-- One step of the router's worker. -/
def worker (action : WorkerAction) :
    Option (BrokerServer × List BrokerEvent) :=
  if s.looksUp action then
    match s.router.workerStep action with
    | some (router, evs) =>
        some ({ s with router, registry := registryAfter s.registry evs },
          evs.map .router)
    | none => none
  else none

/-- One round of `_publish_metrics`. -/
def metricsTick : Option (BrokerServer × List BrokerEvent) :=
  if s.shutdown then none
  else
    let throughput := s.messagesProcessed
    let msg := metricsMessage throughput s.latestOffset s.registry.count
    some ({ s with
      messagesProcessed := 0
      router := s.router.enqueue msg },
      [.reported s.router.seq throughput s.latestOffset s.registry.count,
        .router (.enqueued s.router.seq msg)])

end BrokerServer

/-- The broker with any number of clients.  `stop` closes the server to new
clients and ends the metrics task; the router is stopped last. -/
def broker : System BrokerServer BrokerAction BrokerEvent where
  step s
    | .connect =>
        if s.shutdown then none
        else
          some ({ s with
            registry := s.registry.register s.handlers.length
            handlers := s.handlers ++ [.reading] },
            [.registered s.handlers.length])
    | .receive c msg =>
        if s.handlers[c]? = some .reading ∧ msg.OnWire then
          some (s.dispatch c msg)
        else none
    | .disconnect c =>
        if s.handlers[c]? = some .reading then
          some (s.close c, [.unregistered c])
        else none
    | .tell c => s.tell c
    | .write c => s.write c
    | .appendRaise c n => s.appendRaise c n
    | .resume c => s.resume c
    | .readLog c => s.readLog c
    | .replayWrite c => s.replayWrite c
    | .replayDrain c ok => s.replayDrain c ok
    | .worker action => s.worker action
    | .metricsTick => s.metricsTick
    | .stop => some ({ s with shutdown := true }, [.stopped])
    | .stopRouter =>
        if s.shutdown then some ({ s with router := s.router.stop }, [.stopped])
        else none

end SentinelHub.Broker
