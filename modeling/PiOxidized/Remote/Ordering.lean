/-
# The order of a client's messages

One ready connection of a server.  A cancellation is handled where it is received; a request is
handed to a task of its own, which looks its id up, registers it, and joins the queue of the
client only when it is scheduled.  The calls of the queue run one after another.

What came before a message on the wire is therefore not what took effect before it: the tasks
run in any order, and the look-up of an id and its registration are two critical sections.
-/

import PiOxidized.Math.Slots
import PiOxidized.Math.Transition
import PiOxidized.Remote.Message

namespace PiOxidized.Remote

open Math

/-- How far the task of a request has got. -/
inductive RequestTaskPhase
  | spawned
  /-- Its id was not in the table. -/
  | checked
  /-- About to be refused, without ever having had a table entry. -/
  | refusing
  | refused
  /-- In the table, with a context. -/
  | registered
  /-- Taken out of the table for a subscription id that is not UTF-8; about to be refused. -/
  | withdrawn
  /-- In the queue of the client. -/
  | queued
  /-- A session call that has begun. -/
  | executing
  /-- A call of the server's own services that has begun. -/
  | invoking
  /-- With its result; the response is not sent yet. -/
  | executed
  /-- The response is sent and the table entry still there. -/
  | answered
  | removed
  deriving DecidableEq

/-- The task of a request. -/
structure RequestTask where
  id : String
  target : RpcTarget
  /-- Whether the call parses. -/
  valid : Bool
  /-- Whether a request with its id was unanswered when it was received. -/
  rival : Bool
  /-- Whether a cancellation with its id and target was received while it was unanswered. -/
  owed : Bool := false
  /-- Whether its token is cancelled. -/
  cancelled : Bool := false
  phase : RequestTaskPhase := .spawned
  deriving DecidableEq

/-- What the check of a subscription id comes to. -/
inductive SubscriptionCheck
  /-- No subscription, or a new one. -/
  | fine
  | undecodable
  | duplicate
  deriving DecidableEq

/-- A connection past its handshake, with the requests in the order they were received. -/
structure ServerConnection where
  serverId : String
  tasks : List RequestTask := []
  /-- The task whose token and target an id stands for. -/
  activeRequests : String → Option Nat := fun _ => none
  /-- The calls of the client that wait for their turn. -/
  clientOperations : List Nat := []
  running : Option Nat := none
  /-- The session calls that have begun, oldest first. -/
  begun : List Nat := []

inductive ConnectionEvent
  | request (id : String) (target : RpcTarget) (valid : Bool)
  | cancel (id : String) (target : RpcTarget)
  /-- The next section of the task of a request. -/
  | advance (task : Nat) (subscription : SubscriptionCheck)
  deriving DecidableEq

namespace RequestTaskPhase

/-- Whether a request has been answered. -/
def settled : RequestTaskPhase → Bool
  | refused | answered | removed => true
  | _ => false

/-- Whether a request is in the table. -/
def listed : RequestTaskPhase → Bool
  | registered | queued | executing | invoking | executed | answered => true
  | _ => false

/-- Whether a request has been given a context. -/
def hasContext : RequestTaskPhase → Bool
  | spawned | checked | refusing | refused => false
  | _ => true

end RequestTaskPhase

namespace ServerConnection

/-- Move a task on. -/
def put (s : ServerConnection) (index : Nat) (task : RequestTask) (phase : RequestTaskPhase) :
    ServerConnection :=
  { s with tasks := s.tasks.set index { task with phase := phase } }

/-- A message is decoded and handed to a task. -/
def request (s : ServerConnection) (id : String) (target : RpcTarget) (valid : Bool) :
    ServerConnection :=
  { s with
    tasks := s.tasks ++
      [{ id := id, target := target, valid := valid,
         rival := s.tasks.any fun task => task.id = id && !task.phase.settled }] }

/-- What a cancellation should reach. -/
def owe (s : ServerConnection) (id : String) (target : RpcTarget) : ServerConnection := { s with
    tasks := s.tasks.map fun task =>
      if task.id = id ∧ task.target = target ∧ task.phase.settled = false then
        { task with owed := true }
      else task }

/-- Cancel the token in the table. -/
def handleCancel (s : ServerConnection) (id : String) (target : RpcTarget) : ServerConnection :=
  if target.serverId ≠ s.serverId then s
  else
    match s.activeRequests id with
    | none => s
    | some index =>
      match s.tasks[index]? with
      | none => s
      | some task =>
        if task.target = target then
          { s with tasks := s.tasks.set index { task with cancelled := true } }
        else s

/-- Whether a registered call goes into the queue of the client. -/
def joins (s : ServerConnection) (task : RequestTask) (subscription : SubscriptionCheck) : Bool :=
  subscription = .fine && (task.target matches .session _) && task.target.serverId = s.serverId

/-- The next section of the task of a request. -/
def handleRequest (s : ServerConnection) (index : Nat) (task : RequestTask)
    (subscription : SubscriptionCheck) : Option ServerConnection :=
  match task.phase with
  | .spawned =>
    if (s.activeRequests task.id).isSome then some (s.put index task .refusing)
    else some (s.put index task .checked)
  | .checked =>
    if task.valid then
      some ({ s with
        activeRequests := Function.update s.activeRequests task.id (some index) }.put index task
          .registered)
    else some (s.put index task .refusing)
  | .refusing => some (s.put index task .refused)
  | .registered =>
    match subscription with
    | .undecodable =>
      some ({ s with activeRequests := Function.update s.activeRequests task.id none }.put index
        task .withdrawn)
    | .duplicate => some (s.put index task .executed)
    | .fine =>
      if s.joins task subscription then
        some ({ s with clientOperations := s.clientOperations ++ [index] }.put index task .queued)
      else if task.target.serverId = s.serverId then some (s.put index task .invoking)
      else some (s.put index task .executed)
  | .withdrawn => some (s.put index task .refused)
  | .queued =>
    match s.running, s.clientOperations with
    | none, next :: rest =>
      if next = index then
        some ({ s with
          running := some index
          clientOperations := rest
          begun := s.begun ++ [index] }.put index task .executing)
      else none
    | _, _ => none
  | .executing => some ({ s with running := none }.put index task .executed)
  | .invoking => some (s.put index task .executed)
  | .executed => some (s.put index task .answered)
  | .answered =>
    some ({ s with activeRequests := Function.update s.activeRequests task.id none }.put index task
      .removed)
  | .refused => none
  | .removed => none

/-- A message received, or one section of a task. -/
def step (s : ServerConnection) : ConnectionEvent → Option ServerConnection
  | .request id target valid => some (s.request id target valid)
  | .cancel id target => some ((s.owe id target).handleCancel id target)
  | .advance index subscription =>
    match s.tasks[index]? with
    | none => none
    | some task => s.handleRequest index task subscription

/-- A connection that has just become ready. -/
def machine : Machine ServerConnection ConnectionEvent where
  start s := ∃ serverId, s = { serverId := serverId }
  step := step

end ServerConnection

end PiOxidized.Remote
