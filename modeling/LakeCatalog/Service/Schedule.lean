import LakeCatalog.Service.Reply
import LakeCatalog.Sync.Client

/-!
# Requests at one instant

What the service does for a request, as a plan that ends in a reply. Everything about a request that
can be wrong is found out before anything is sent to the catalog.

Requests that arrive at the same instant are started in the order of their arrival. A route that
admits one request at a time lets the next one in when the one before it is answered; requests of
different routes do not wait for each other. A request waits while its batch is emitted, and of
what goes on at the same instant that comes first which was set going first. A request whose batch
is dropped is never answered, and lets the next one into its route at that instant.

What goes on in a service over its life: one after the other, an operation that a caller asks for,
or a group of requests that arrive at the same instant.
-/

namespace LakeCatalog.Service

open Catalog Emission Sync

/-- A plan that ends in a reply, with the bound on the batches that it emits. -/
structure Job where
  size : Nat
  plan : Plan Reply size

def Job.reply (r : Reply) : Job := ⟨0, .finish r⟩

def updateProperties (c : Client) (s : Scope) (r : Request) : Job :=
  if !((r.header? "content-type").any isJsonType) then .reply .wrongContentType
  else if bodyLimit < r.body.size then .reply .tooLarge
  else match PropertiesRequest.parse (bodyText r.body) with
    | .error fault => .reply (.ofBodyFault fault)
    | .ok request =>
      match request.problems with
      | [] => ⟨1, (c.updateProperties request.name request.properties).map
          (Reply.ofResult (Reply.propertiesUpdated s))⟩
      | problems => .reply (ServiceError.invalid problems).reply

def handle (c : Client) (s : Scope) (r : Request) : Route → Job
  | .health => .reply .health
  | .scope => .reply (.scope s)
  | .syncTable => ⟨3, c.syncTable.map (Reply.ofResult (Reply.tableSynced s))⟩
  | .syncSchema => ⟨1, c.syncSchema.map (Reply.ofResult (Reply.schemaSynced s))⟩
  | .updateProperties => updateProperties c s r
  | .syncLastCommit => ⟨1, c.syncLastCommit.map (Reply.ofResult (Reply.lastCommitSynced s))⟩
  | .lastSynced => .reply (ServiceError.notImplemented
      "Reading the last synced commit time from the catalog is not supported").reply

/-- A job for a request, and the route it has to wait for, if that admits one request at a time. -/
structure Admitted where
  lane : Option Route
  job : Job

def admission (c : Client) (s : Scope) (r : Request) : Admitted :=
  match Route.ofPath? r.path with
  | none => ⟨none, .reply .notFound⟩
  | some route =>
    if !route.methods.contains r.method then ⟨none, .reply (.methodNotAllowed route)⟩
    else
      let job := handle c s r route
      ⟨if route.isExclusive then some route else none,
        if r.method = "HEAD" then ⟨job.size, job.plan.map Reply.headOnly⟩ else job⟩

/-- A request that goes on at an instant; without a job if it was dropped then. -/
structure Pending where
  time : Duration
  request : Nat
  lane : Option Route
  job : Option Job

structure Queued where
  request : Nat
  lane : Route
  job : Job

structure Answered where
  time : Duration
  request : Nat
  reply : Reply

structure Agenda where
  log : Log
  /-- In the order in which they were set going. -/
  pending : List Pending
  /-- In the order of their arrival. -/
  queued : List Queued
  answered : List Answered
  /-- The latest instant at which a request was answered or dropped. -/
  now : Duration

/-- The request that goes on first, and the others. -/
def takeFirst : List Pending → Option (Pending × List Pending)
  | [] => none
  | p :: ps =>
    match takeFirst ps with
    | none => some (p, [])
    | some (first, others) =>
      if first.time < p.time then some (first, p :: others) else some (p, ps)

/-- The first request that waits for a route, and the others. -/
def takeQueued (lane : Route) : List Queued → Option (Queued × List Queued)
  | [] => none
  | q :: qs =>
    if q.lane = lane then some (q, qs)
    else (takeQueued lane qs).map fun (first, others) => (first, q :: others)

/-- Lets the next request into a route that has become free. -/
def Agenda.release (s : Agenda) (time : Duration) : Option Route → Agenda
  | none => s
  | some lane =>
    match takeQueued lane s.queued with
    | none => s
    | some (q, queued) =>
      { s with queued, pending := s.pending ++ [⟨time, q.request, some lane, some q.job⟩] }

/-- Lets a request go on up to its next batch or its reply. -/
def Agenda.step (t : Transport) (timeout : Duration) (patience : Patience) (table : History)
    (s : Agenda) (p : Pending) : Agenda :=
  match p.job with
  | none => Agenda.release { s with now := max s.now p.time } p.time p.lane
  | some job =>
    match job.plan.advance (table p.time) with
    | .finished reply =>
      Agenda.release
        { s with
          answered := s.answered ++ [⟨p.time, p.request, reply⟩]
          now := max s.now p.time }
        p.time p.lane
    | .waiting _ batch next =>
      let b := s.log.attempt t timeout patience batch
      let rest : Option Job := if b.completed then some ⟨_, next b.outcomes⟩ else none
      { s with
        log := s.log ++ Log.entriesOf p.time s.log.opens b
        pending := s.pending ++ [⟨p.time + b.duration, p.request, p.lane, rest⟩] }

/-- Lets the requests go on until all are answered or dropped, for at most `fuel` steps. -/
def Agenda.run (t : Transport) (timeout : Duration) (patience : Patience) (table : History) :
    Nat → Agenda → Agenda
  | 0, s => s
  | fuel + 1, s =>
    match takeFirst s.pending with
    | none => s
    | some (first, others) =>
      run t timeout patience table fuel
        (step t timeout patience table { s with pending := others } first)

def Agenda.arrive (time : Duration) (s : Agenda) (request : Nat) (a : Admitted) : Agenda :=
  match a.lane with
  | none => { s with pending := s.pending ++ [⟨time, request, none, some a.job⟩] }
  | some lane =>
    if s.pending.any fun p => p.lane == some lane then
      { s with queued := s.queued ++ [⟨request, lane, a.job⟩] }
    else { s with pending := s.pending ++ [⟨time, request, some lane, some a.job⟩] }

/-- Every step answers a request or starts a batch of one. -/
def stepBound : List Admitted → Nat
  | [] => 0
  | a :: rest => a.job.size + 1 + stepBound rest

/-- The answers to requests that arrive at the instant of a session, in the order of their arrival,
and the session when all are answered or dropped. -/
def serveWithin (c : Client) (t : Transport) (patience : Patience) (table : History) (s : Session)
    (requests : List Request) : List Answered × Session :=
  let jobs := requests.map (admission c (c.scope t))
  let start : Agenda := ⟨s.log, [], [], [], s.now⟩
  let start := jobs.zipIdx.foldl (fun agenda (a, i) => agenda.arrive s.now i a) start
  let done := start.run t c.settings.emitTimeout patience table (stepBound jobs)
  let answers := (List.range requests.length).filterMap fun i =>
    done.answered.find? (·.request == i)
  (answers, ⟨done.now, done.log⟩)

/-- The answers to requests that arrive at the instant of a session when no request is dropped. -/
def serve (c : Client) (t : Transport) (table : History) (s : Session) (requests : List Request) :
    List Answered × Session :=
  serveWithin c t .endless table s requests

/-- What is asked of a service at one instant. -/
inductive Activity where
  | operation (operation : Operation)
  | requests (group : List Request)

/-- What comes of an activity; an operation that is dropped has no result. -/
inductive ActivityResult where
  | operation (result : Option (Except SyncError Answer))
  | answers (answers : List Answered)

def Activity.perform (c : Client) (t : Transport) (patience : Patience) (table : History) :
    Activity → Session → ActivityResult × Session
  | .operation o, s =>
    let (result, s) := (o.plan c).attempt t c.settings.emitTimeout patience table s
    (.operation result, s)
  | .requests group, s =>
    let (answers, s) := serveWithin c t patience table s group
    (.answers answers, s)

def performAll (c : Client) (t : Transport) (patience : Patience) (table : History) :
    List Activity → Session → List ActivityResult × Session
  | [], s => ([], s)
  | a :: rest, s =>
    let (result, s) := a.perform c t patience table s
    let (results, s) := performAll c t patience table rest s
    (result :: results, s)

end LakeCatalog.Service
