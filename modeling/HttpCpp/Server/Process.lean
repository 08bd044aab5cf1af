import HttpCpp.Framework.Multipart
import HttpCpp.Server.FrontEnd

namespace HttpCpp

/-- What `recv` leaves in the identity of a frame. -/
def ZmqIdentity.read (frame : Bytes) : ZmqIdentity := ⟨frame.take 256, by simp⟩

theorem ZmqIdentity.read_identity (id : ZmqIdentity) : ZmqIdentity.read id.identity = id := by
  obtain ⟨identity, bounded⟩ := id
  simp [ZmqIdentity.read, List.take_of_length_le bounded]

/-- The frames of a message on a socket. -/
def Message.frames (m : Message) : List Bytes := m.id.identity :: m.parts

theorem Message.frames_ne_nil (m : Message) : m.frames ≠ [] := List.cons_ne_nil _ _

/-- Where a thread is in `forward_as_req` or `forward_as_stream`: before the identity frame, in the
loop over the parts, or before the frames it still sends, each with its `ZMQ_SNDMORE` flag. -/
inductive Forwarding where
  | identity
  | parts (id : ZmqIdentity) (frame : Bytes)
  | sends (left : List (Bytes × Bool))
  deriving DecidableEq

/-- What a received frame does in these functions; `more` is what `ZMQ_RCVMORE` says after it. -/
def Forwarding.received (frames : ZmqIdentity → Bytes → List (Bytes × Bool)) :
    Forwarding → Bytes → Bool → Option Forwarding
  | .identity, part, _ => some (.parts (ZmqIdentity.read part) [])
  | .parts id frame, part, more =>
    some (if more then .parts id (frame ++ part) else .sends (frames id (frame ++ part)))
  | .sends _, _, _ => none

namespace HttpServer

/-- The frames `forward_as_req` sends. -/
def reqFrames (id : ZmqIdentity) (frame : Bytes) : List (Bytes × Bool) :=
  if frame ≠ [] then [(id.identity, true), (frame, false)] else []

/-- The frames `forward_as_stream` sends. -/
def streamFrames (id : ZmqIdentity) (frame : Bytes) : List (Bytes × Bool) :=
  if frame ≠ [] then [(id.identity, true), (frame, true), (id.identity, true), ([], true)] else []

end HttpServer

/-- Where the thread of `http_server::run` is. -/
inductive ServerPlace where
  /-- Before the start of a worker. -/
  | launching (worker : Nat)
  | announcing
  | polling
  /-- In the first branch of the loop; `replies` is the `ZMQ_POLLIN` flag of the second. -/
  | forwardAsReq (replies : Bool) (pc : Forwarding)
  | forwardAsStream (pc : Forwarding)
  /-- An exception has left the loop. -/
  | failed
  deriving DecidableEq

/-- Where the thread of `http_worker::run` is. -/
inductive WorkerPlace where
  | unstarted
  | connecting
  /-- Before the condition of the loop. -/
  | testing
  | polling
  /-- In the first branch of the loop; `request` is the `ZMQ_POLLIN` flag of the second. -/
  | handleStatus (request : Bool)
  | identity
  | parts (id : ZmqIdentity) (frame : Bytes)
  | answering (id : ZmqIdentity) (frame : Bytes)
  | sends (left : List (Bytes × Bool))
  | finished
  /-- An exception has left the thread, which ends the program. -/
  | terminated
  deriving DecidableEq

structure WorkerThread where
  running : Bool
  place : WorkerPlace
  statuses : List Bytes
  requests : Inlet Bytes
  replies : Outlet Bytes
  deriving DecidableEq

inductive WorkerAction (World : Type) where
  | connect
  | test
  | poll (status request : Bool)
  | pollThrows
  | recvStatus
  | recvRequest
  | answer (world : World)
  | send
  | leave

namespace WorkerThread

variable {World : Type}

def unstarted : WorkerThread := ⟨false, .unstarted, [], .empty, .empty⟩

/-- `class_thread::start`. -/
def start (t : WorkerThread) : WorkerThread := { t with running := true, place := .connecting }

/-- The sockets of the thread are connected. -/
def connected (t : WorkerThread) : Bool :=
  match t.place with
  | .unstarted | .connecting | .finished | .terminated => false
  | _ => true

/-- What is published reaches the thread. -/
def hear (status : Bytes) (t : WorkerThread) : WorkerThread :=
  if t.connected then { t with statuses := t.statuses ++ [status] } else t

def request (message : List Bytes) (t : WorkerThread) : WorkerThread :=
  { t with requests := t.requests.deliver message }

/-- The reading end of the thread's replies, where `left` is left of the one being received. -/
def outgoing (left : List Bytes) (t : WorkerThread) : Inlet Bytes := ⟨t.replies.sent, left⟩

/-- One step of `http_worker::run`; `answer` is what `handle_request` serialises, and `none` where
an exception leaves it. It is computed in one step, as if no other worker were in the handler cache
meanwhile. -/
def step (answer : World → Bytes → Option Bytes) (t : WorkerThread) :
    WorkerAction World → Option WorkerThread
  | .connect => if t.place = .connecting then some { t with place := .testing } else none
  | .test =>
    if t.place = .testing then
      some { t with place := if t.running then .polling else .finished }
    else none
  | .poll status request =>
    if t.place = .polling ∧ (status || request) ∧ (status → t.statuses ≠ []) ∧
        (request → t.requests.ready) then
      some { t with place := if status then .handleStatus request else .identity }
    else none
  | .pollThrows => if t.place = .polling then some { t with place := .testing } else none
  | .recvStatus =>
    match t.place, t.statuses with
    | .handleStatus request, status :: statuses =>
      some { t with
        running := if status = lit "QUIT" then false else t.running
        statuses := statuses
        place := if request then .identity else .testing }
    | _, _ => none
  | .recvRequest =>
    match t.place, t.requests.recv with
    | .identity, some (part, requests) =>
      some { t with requests := requests, place := .parts (ZmqIdentity.read part) [] }
    | .parts id frame, some (part, requests) =>
      some { t with
        requests := requests
        place := if requests.more then .parts id (frame ++ part)
          else .answering id (frame ++ part) }
    | _, _ => none
  | .answer world =>
    match t.place with
    | .answering id frame =>
      some { t with
        place := match answer world frame with
          | some text => .sends [(id.identity, true), (text, false)]
          | none => .terminated }
    | _ => none
  | .send =>
    match t.place with
    | .sends ((frame, more) :: left) =>
      some { t with replies := t.replies.send frame more, place := .sends left }
    | _ => none
  | .leave => if t.place = .sends [] then some { t with place := .testing } else none

variable {answer : World → Bytes → Option Bytes} {t t' : WorkerThread}

theorem step_connect (h : t.step answer .connect = some t') :
    t.place = .connecting ∧ t' = { t with place := .testing } := by
  obtain ⟨hplace, hsame⟩ := Option.ite_none_right_eq_some.mp h
  exact ⟨hplace, (Option.some.inj hsame).symm⟩

theorem step_test (h : t.step answer .test = some t') :
    t.place = .testing ∧ t' = { t with place := if t.running then .polling else .finished } := by
  obtain ⟨hplace, hsame⟩ := Option.ite_none_right_eq_some.mp h
  exact ⟨hplace, (Option.some.inj hsame).symm⟩

theorem step_poll (status request : Bool) (h : t.step answer (.poll status request) = some t') :
    t.place = .polling ∧ (status || request) = true ∧ (status = true → t.statuses ≠ []) ∧
      (request = true → t.requests.ready = true) ∧
      t' = { t with place := if status then .handleStatus request else .identity } := by
  obtain ⟨⟨hplace, hsome, hstatus, hrequest⟩, hsame⟩ := Option.ite_none_right_eq_some.mp h
  exact ⟨hplace, hsome, hstatus, hrequest, (Option.some.inj hsame).symm⟩

theorem step_pollThrows (h : t.step answer .pollThrows = some t') :
    t.place = .polling ∧ t' = { t with place := .testing } := by
  obtain ⟨hplace, hsame⟩ := Option.ite_none_right_eq_some.mp h
  exact ⟨hplace, (Option.some.inj hsame).symm⟩

theorem step_recvStatus (h : t.step answer .recvStatus = some t') :
    ∃ request status statuses, t.place = .handleStatus request ∧
      t.statuses = status :: statuses ∧ t' = { t with
        running := if status = lit "QUIT" then false else t.running
        statuses := statuses
        place := if request then .identity else .testing } := by
  simp only [step] at h
  split at h
  · rename_i request status statuses hplace hstatuses
    exact ⟨request, status, statuses, hplace, hstatuses, (Option.some.inj h).symm⟩
  · simp at h

theorem step_recvRequest (h : t.step answer .recvRequest = some t') :
    ∃ part requests, t.requests.recv = some (part, requests) ∧
      (t.place = .identity ∧
          t' = { t with requests := requests, place := .parts (ZmqIdentity.read part) [] } ∨
        ∃ id frame, t.place = .parts id frame ∧ t' = { t with
          requests := requests
          place := if requests.more then .parts id (frame ++ part)
            else .answering id (frame ++ part) }) := by
  simp only [step] at h
  split at h
  · rename_i part requests hplace hrecv
    exact ⟨part, requests, hrecv, Or.inl ⟨hplace, (Option.some.inj h).symm⟩⟩
  · rename_i id frame part requests hplace hrecv
    exact ⟨part, requests, hrecv, Or.inr ⟨id, frame, hplace, (Option.some.inj h).symm⟩⟩
  · simp at h

theorem step_answer (world : World) (h : t.step answer (.answer world) = some t') :
    ∃ id frame, t.place = .answering id frame ∧
      (answer world frame = none ∧ t' = { t with place := .terminated } ∨
        ∃ text, answer world frame = some text ∧
          t' = { t with place := .sends [(id.identity, true), (text, false)] }) := by
  simp only [step] at h
  split at h
  · rename_i id frame hplace
    obtain rfl := Option.some.inj h
    refine ⟨id, frame, hplace, ?_⟩
    cases hanswer : answer world frame with
    | none => exact Or.inl ⟨rfl, rfl⟩
    | some text => exact Or.inr ⟨text, rfl, rfl⟩
  · simp at h

theorem step_send (h : t.step answer .send = some t') :
    ∃ frame more left, t.place = .sends ((frame, more) :: left) ∧
      t' = { t with replies := t.replies.send frame more, place := .sends left } := by
  simp only [step] at h
  split at h
  · rename_i frame more left hplace
    exact ⟨frame, more, left, hplace, (Option.some.inj h).symm⟩
  · simp at h

theorem step_leave (h : t.step answer .leave = some t') :
    t.place = .sends [] ∧ t' = { t with place := .testing } := by
  obtain ⟨hplace, hsame⟩ := Option.ite_none_right_eq_some.mp h
  exact ⟨hplace, (Option.some.inj hsame).symm⟩

end WorkerThread

/-- The threads of the server and what is in their sockets. -/
structure Process where
  place : ServerPlace
  /-- What waits at `http_socket_`. -/
  http : Inlet Bytes
  /-- What is left of the reply that `inproc_request_socket_` receives. -/
  reply : List Bytes
  /-- What `inproc_request_socket_` was given of the next request. -/
  staged : List Bytes
  /-- The frames given to `http_socket_`, which does not read their flags. -/
  written : List Bytes
  workers : List WorkerThread
  /-- All messages `http_socket_` has got. -/
  received : List Message
  deriving DecidableEq

inductive ProcessAction (World : Type) where
  | deliver (m : Message)
  | launch
  | announce (heard : List Nat)
  | poll (stream replies : Bool)
  | throws
  | recvHttp
  | sendRequest (worker : Nat)
  | recvReply (worker : Nat)
  | sendHttp
  | leave
  | worker (i : Nat) (a : WorkerAction World)

namespace Process

variable {World : Type}

/-- How many workers `run` launches. -/
def workerCount : Nat := 4

def start : Process :=
  ⟨.launching 0, .empty, [], [], [], List.replicate workerCount .unstarted, []⟩

def terminated (p : Process) : Bool := p.workers.any (·.place = .terminated)

/-- The thread of the server is in the `try` block of its loop. -/
def looping (p : Process) : Bool :=
  match p.place with
  | .polling | .forwardAsReq _ _ | .forwardAsStream _ => true
  | _ => false

def set (p : Process) (i : Nat) (t : WorkerThread) : Process :=
  { p with workers := p.workers.set i t }

/-- One step of a thread of the server, or the arrival of a message. -/
def advance (answer : World → Bytes → Option Bytes) (p : Process) :
    ProcessAction World → Option Process
  | .deliver m =>
    if m.parts ≠ [] then
      some { p with http := p.http.deliver m.frames, received := p.received ++ [m] }
    else none
  | .launch =>
    match p.place with
    | .launching i =>
      match p.workers[i]? with
      | some t => some { p.set i t.start with place := .launching (i + 1) }
      | none => some { p with place := .announcing }
    | _ => none
  | .announce heard =>
    if p.place = .announcing then
      some { p with
        workers := p.workers.mapIdx fun i t => if i ∈ heard then t.hear (lit "START") else t
        place := .polling }
    else none
  | .poll stream replies =>
    if p.place = .polling ∧ (stream || replies) ∧ (stream → p.http.ready) ∧
        (replies → p.workers.any fun t => (t.outgoing p.reply).ready) then
      some { p with
        place := if stream then .forwardAsReq replies .identity else .forwardAsStream .identity }
    else none
  | .throws => if p.looping then some { p with place := .failed } else none
  | .recvHttp =>
    match p.place, p.http.recv with
    | .forwardAsReq replies pc, some (part, http) =>
      (pc.received HttpServer.reqFrames part http.more).map fun pc =>
        { p with http := http, place := .forwardAsReq replies pc }
    | _, _ => none
  | .sendRequest i =>
    match p.place with
    | .forwardAsReq replies (.sends ((frame, true) :: left)) =>
      some { p with staged := p.staged ++ [frame], place := .forwardAsReq replies (.sends left) }
    | .forwardAsReq replies (.sends ((frame, false) :: left)) =>
      match p.workers[i]? with
      | some t =>
        if t.connected then
          some { p.set i (t.request (p.staged ++ [frame])) with
            staged := []
            place := .forwardAsReq replies (.sends left) }
        else none
      | none => none
    | _ => none
  | .recvReply i =>
    match p.place, p.workers[i]? with
    | .forwardAsStream pc, some t =>
      match (t.outgoing p.reply).recv with
      | some (part, outgoing) =>
        (pc.received HttpServer.streamFrames part outgoing.more).map fun pc =>
          { p.set i { t with replies := ⟨t.replies.staged, outgoing.waiting⟩ } with
            reply := outgoing.rest
            place := .forwardAsStream pc }
      | none => none
    | _, _ => none
  | .sendHttp =>
    match p.place with
    | .forwardAsStream (.sends ((frame, _) :: left)) =>
      some { p with written := p.written ++ [frame], place := .forwardAsStream (.sends left) }
    | _ => none
  | .leave =>
    match p.place with
    | .forwardAsReq replies (.sends []) =>
      some { p with place := if replies then .forwardAsStream .identity else .polling }
    | .forwardAsStream (.sends []) => some { p with place := .polling }
    | _ => none
  | .worker i a =>
    match p.workers[i]? with
    | some t => (t.step answer a).map (p.set i)
    | none => none

def step (answer : World → Bytes → Option Bytes) (p : Process) (a : ProcessAction World) :
    Option Process :=
  if p.terminated then none else p.advance answer a

def machine (answer : World → Bytes → Option Bytes) : Machine Process (ProcessAction World) where
  Initial := fun p => p = start
  step := step answer

variable {answer : World → Bytes → Option Bytes} {p p' : Process}

theorem step_advance (a : ProcessAction World) (h : p.step answer a = some p') :
    p.terminated = false ∧ p.advance answer a = some p' := by
  obtain ⟨hrunning, hadvance⟩ := Option.ite_none_left_eq_some.mp h
  exact ⟨by simpa using hrunning, hadvance⟩

theorem advance_deliver (m : Message) (h : p.advance answer (.deliver m) = some p') :
    m.parts ≠ [] ∧
      p' = { p with http := p.http.deliver m.frames, received := p.received ++ [m] } := by
  obtain ⟨hparts, hsame⟩ := Option.ite_none_right_eq_some.mp h
  exact ⟨hparts, (Option.some.inj hsame).symm⟩

theorem advance_launch (h : p.advance answer .launch = some p') :
    ∃ i, p.place = .launching i ∧
      ((∃ t, p.workers[i]? = some t ∧ p' = { p.set i t.start with place := .launching (i + 1) }) ∨
        p.workers[i]? = none ∧ p' = { p with place := .announcing }) := by
  simp only [advance] at h
  split at h
  · rename_i i hplace
    refine ⟨i, hplace, ?_⟩
    split at h
    · rename_i t ht
      exact Or.inl ⟨t, ht, (Option.some.inj h).symm⟩
    · rename_i ht
      exact Or.inr ⟨ht, (Option.some.inj h).symm⟩
  · simp at h

theorem advance_announce (heard : List Nat) (h : p.advance answer (.announce heard) = some p') :
    p.place = .announcing ∧ p' = { p with
      workers := p.workers.mapIdx fun i t => if i ∈ heard then t.hear (lit "START") else t
      place := .polling } := by
  obtain ⟨hplace, hsame⟩ := Option.ite_none_right_eq_some.mp h
  exact ⟨hplace, (Option.some.inj hsame).symm⟩

theorem advance_poll (stream replies : Bool)
    (h : p.advance answer (.poll stream replies) = some p') :
    p.place = .polling ∧ (stream || replies) = true ∧ (stream = true → p.http.ready = true) ∧
      (replies = true → (p.workers.any fun t => (t.outgoing p.reply).ready) = true) ∧
      p' = { p with
        place := if stream then .forwardAsReq replies .identity
          else .forwardAsStream .identity } := by
  obtain ⟨⟨hplace, hsome, hstream, hreplies⟩, hsame⟩ := Option.ite_none_right_eq_some.mp h
  exact ⟨hplace, hsome, hstream, hreplies, (Option.some.inj hsame).symm⟩

theorem advance_throws (h : p.advance answer .throws = some p') :
    p.looping = true ∧ p' = { p with place := .failed } := by
  obtain ⟨hlooping, hsame⟩ := Option.ite_none_right_eq_some.mp h
  exact ⟨hlooping, (Option.some.inj hsame).symm⟩

theorem advance_recvHttp (h : p.advance answer .recvHttp = some p') :
    ∃ replies pc part http pc', p.place = .forwardAsReq replies pc ∧
      p.http.recv = some (part, http) ∧
      pc.received HttpServer.reqFrames part http.more = some pc' ∧
      p' = { p with http := http, place := .forwardAsReq replies pc' } := by
  simp only [advance] at h
  split at h
  · rename_i replies pc part http hplace hrecv
    obtain ⟨pc', hpc, hsame⟩ := Option.map_eq_some_iff.mp h
    exact ⟨replies, pc, part, http, pc', hplace, hrecv, hpc, hsame.symm⟩
  · simp at h

theorem advance_sendRequest (i : Nat) (h : p.advance answer (.sendRequest i) = some p') :
    ∃ replies frame more left, p.place = .forwardAsReq replies (.sends ((frame, more) :: left)) ∧
      (more = true ∧ p' = { p with
          staged := p.staged ++ [frame]
          place := .forwardAsReq replies (.sends left) } ∨
        more = false ∧ ∃ t, p.workers[i]? = some t ∧ t.connected = true ∧
          p' = { p.set i (t.request (p.staged ++ [frame])) with
            staged := []
            place := .forwardAsReq replies (.sends left) }) := by
  simp only [advance] at h
  split at h
  · rename_i replies frame left hplace
    exact ⟨replies, frame, true, left, hplace, Or.inl ⟨rfl, (Option.some.inj h).symm⟩⟩
  · rename_i replies frame left hplace
    refine ⟨replies, frame, false, left, hplace, Or.inr ⟨rfl, ?_⟩⟩
    split at h
    · rename_i t ht
      obtain ⟨hconnected, hsame⟩ := Option.ite_none_right_eq_some.mp h
      exact ⟨t, ht, hconnected, (Option.some.inj hsame).symm⟩
    · simp at h
  · simp at h

theorem advance_recvReply (i : Nat) (h : p.advance answer (.recvReply i) = some p') :
    ∃ pc t part outgoing pc', p.place = .forwardAsStream pc ∧ p.workers[i]? = some t ∧
      (t.outgoing p.reply).recv = some (part, outgoing) ∧
      pc.received HttpServer.streamFrames part outgoing.more = some pc' ∧
      p' = { p.set i { t with replies := ⟨t.replies.staged, outgoing.waiting⟩ } with
        reply := outgoing.rest
        place := .forwardAsStream pc' } := by
  simp only [advance] at h
  split at h
  · rename_i pc t hplace ht
    split at h
    · rename_i part outgoing hrecv
      obtain ⟨pc', hpc, hsame⟩ := Option.map_eq_some_iff.mp h
      exact ⟨pc, t, part, outgoing, pc', hplace, ht, hrecv, hpc, hsame.symm⟩
    · simp at h
  · simp at h

theorem advance_sendHttp (h : p.advance answer .sendHttp = some p') :
    ∃ frame more left, p.place = .forwardAsStream (.sends ((frame, more) :: left)) ∧ p' = { p with
      written := p.written ++ [frame]
      place := .forwardAsStream (.sends left) } := by
  simp only [advance] at h
  split at h
  · rename_i frame more left hplace
    exact ⟨frame, more, left, hplace, (Option.some.inj h).symm⟩
  · simp at h

theorem advance_leave (h : p.advance answer .leave = some p') :
    (∃ replies, p.place = .forwardAsReq replies (.sends []) ∧
        p' = { p with place := if replies then .forwardAsStream .identity else .polling }) ∨
      p.place = .forwardAsStream (.sends []) ∧ p' = { p with place := .polling } := by
  simp only [advance] at h
  split at h
  · rename_i replies hplace
    exact Or.inl ⟨replies, hplace, (Option.some.inj h).symm⟩
  · rename_i hplace
    exact Or.inr ⟨hplace, (Option.some.inj h).symm⟩
  · simp at h

theorem advance_worker (i : Nat) (a : WorkerAction World)
    (h : p.advance answer (.worker i a) = some p') :
    ∃ t t', p.workers[i]? = some t ∧ t.step answer a = some t' ∧ p' = p.set i t' := by
  simp only [advance] at h
  split at h
  · rename_i t ht
    obtain ⟨t', hstep, hsame⟩ := Option.map_eq_some_iff.mp h
    exact ⟨t, t', ht, hstep, hsame.symm⟩
  · simp at h

end Process

end HttpCpp
