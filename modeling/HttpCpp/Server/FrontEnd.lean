import HttpCpp.Framework.Bytes
import HttpCpp.Framework.ListSet
import HttpCpp.Framework.Machine

namespace HttpCpp

structure ZmqIdentity where
  identity : Bytes
  bounded : identity.length ≤ 256
  deriving DecidableEq

/-- A message of a socket: the identity frame and the parts that follow it. -/
structure Message where
  id : ZmqIdentity
  parts : List Bytes
  deriving DecidableEq

/-- What a loop over `ZMQ_RCVMORE` appends up. -/
def Message.frame (m : Message) : Bytes := m.parts.flatten

namespace HttpServer

/-- What `forward_as_req` sends to the workers for a message of the stream socket. -/
def forwardAsReq (m : Message) : List Message :=
  if m.frame ≠ [] then [⟨m.id, [m.frame]⟩] else []

/-- What `forward_as_stream` sends to the stream socket for a reply: the response, and the empty
frame that closes the connection. -/
def forwardAsStream (m : Message) : List Message :=
  if m.frame ≠ [] then [⟨m.id, [m.frame]⟩, ⟨m.id, [[]]⟩] else []

end HttpServer

/-- The reply of `handle_request`; `answer` serialises the response to a frame. -/
def HttpWorker.handleRequest (answer : Bytes → Bytes) (m : Message) : Message :=
  ⟨m.id, [answer m.frame]⟩

/-- The queue of a worker's request socket and the message it is working on. -/
structure HttpWorker where
  queue : List Message
  busy : Option Message
  deriving DecidableEq

def HttpWorker.pending (w : HttpWorker) : List Message := w.busy.toList ++ w.queue

structure ServerState where
  httpIn : List Message
  workers : List HttpWorker
  replies : List Message
  /-- All messages the stream socket has delivered. -/
  received : List Message
  /-- The messages `forward_as_req` has taken. -/
  requested : List Message
  /-- The replies `forward_as_stream` has taken. -/
  answered : List Message
  deriving DecidableEq

/-- What can happen next; workers are named by their place. -/
inductive ServerAction where
  | deliver (m : Message)
  | forwardAsReq (worker : Nat)
  | receiveRequest (worker : Nat)
  | sendReply (worker : Nat)
  | forwardAsStream

namespace HttpServer

open HttpWorker

/-- All requests handed to the workers so far. -/
def handed (s : ServerState) : List Message := s.requested.flatMap forwardAsReq

/-- All frames written to the stream socket so far. -/
def sent (s : ServerState) : List Message := s.answered.flatMap forwardAsStream

def step (answer : Bytes → Bytes) (s : ServerState) : ServerAction → Option ServerState
  | .deliver m => some { s with httpIn := s.httpIn ++ [m], received := s.received ++ [m] }
  | .forwardAsReq i =>
    match s.httpIn, s.workers[i]? with
    | m :: rest, some w => some { s with
        httpIn := rest
        requested := s.requested ++ [m]
        workers := s.workers.set i ⟨w.queue ++ forwardAsReq m, w.busy⟩ }
    | _, _ => none
  | .receiveRequest i =>
    match s.workers[i]? with
    | some ⟨m :: rest, none⟩ => some { s with workers := s.workers.set i ⟨rest, some m⟩ }
    | _ => none
  | .sendReply i =>
    match s.workers[i]? with
    | some ⟨queue, some m⟩ => some { s with
        workers := s.workers.set i ⟨queue, none⟩
        replies := s.replies ++ [handleRequest answer m] }
    | _ => none
  | .forwardAsStream =>
    match s.replies with
    | m :: rest => some { s with replies := rest, answered := s.answered ++ [m] }
    | [] => none

/-- A server with any number of idle workers. -/
def start (workers : Nat) : ServerState :=
  ⟨[], List.replicate workers ⟨[], none⟩, [], [], [], []⟩

def machine (answer : Bytes → Bytes) : Machine ServerState ServerAction where
  Initial := fun s => ∃ n, s = start n
  step := step answer

/-- Nothing gets lost or doubled between the stream socket and the workers and back. -/
structure Accounted (answer : Bytes → Bytes) (s : ServerState) : Prop where
  received : s.requested ++ s.httpIn = s.received
  handled : ((handed s).map (handleRequest answer)).Perm (s.answered ++ s.replies ++
    s.workers.flatMap fun w => w.pending.map (handleRequest answer))

theorem start_accounted (answer : Bytes → Bytes) (n : Nat) : Accounted answer (start n) where
  received := rfl
  handled := by
    have hidle : (start n).workers.flatMap
        (fun w => w.pending.map (handleRequest answer)) = [] := by
      simp [start, HttpWorker.pending]
    rw [hidle]
    exact List.Perm.nil

theorem step_forwardAsReq (answer : Bytes → Bytes) (s s' : ServerState) (i : Nat)
    (h : step answer s (.forwardAsReq i) = some s') :
    ∃ m rest w, s.httpIn = m :: rest ∧ s.workers[i]? = some w ∧ s' = { s with
      httpIn := rest
      requested := s.requested ++ [m]
      workers := s.workers.set i ⟨w.queue ++ forwardAsReq m, w.busy⟩ } := by
  simp only [step] at h
  split at h
  · rename_i m rest w hin hworker
    exact ⟨m, rest, w, hin, hworker, (Option.some.inj h).symm⟩
  · simp at h

theorem step_receiveRequest (answer : Bytes → Bytes) (s s' : ServerState) (i : Nat)
    (h : step answer s (.receiveRequest i) = some s') :
    ∃ m rest, s.workers[i]? = some ⟨m :: rest, none⟩ ∧
      s' = { s with workers := s.workers.set i ⟨rest, some m⟩ } := by
  simp only [step] at h
  split at h
  · rename_i m rest hworker
    exact ⟨m, rest, hworker, (Option.some.inj h).symm⟩
  · simp at h

theorem step_sendReply (answer : Bytes → Bytes) (s s' : ServerState) (i : Nat)
    (h : step answer s (.sendReply i) = some s') :
    ∃ queue m, s.workers[i]? = some ⟨queue, some m⟩ ∧ s' = { s with
      workers := s.workers.set i ⟨queue, none⟩
      replies := s.replies ++ [handleRequest answer m] } := by
  simp only [step] at h
  split at h
  · rename_i queue m hworker
    exact ⟨queue, m, hworker, (Option.some.inj h).symm⟩
  · simp at h

theorem step_forwardAsStream (answer : Bytes → Bytes) (s s' : ServerState)
    (h : step answer s .forwardAsStream = some s') :
    ∃ m rest, s.replies = m :: rest ∧
      s' = { s with replies := rest, answered := s.answered ++ [m] } := by
  simp only [step] at h
  split at h
  · rename_i m rest hreplies
    exact ⟨m, rest, hreplies, (Option.some.inj h).symm⟩
  · simp at h

/-- Every action moves messages on and keeps the account. -/
theorem step_accounted (answer : Bytes → Bytes) (s s' : ServerState) (a : ServerAction)
    (h : Accounted answer s) (hstep : step answer s a = some s') : Accounted answer s' := by
  obtain ⟨hreceived, hhandled⟩ := h
  cases a with
  | deliver m =>
    obtain rfl := Option.some.inj hstep
    exact ⟨by simp [← hreceived], hhandled⟩
  | forwardAsReq i =>
    obtain ⟨m, rest, w, hin, hworker, rfl⟩ := step_forwardAsReq answer s s' i hstep
    refine ⟨by simp [← hreceived, hin], ?_⟩
    have hset := flatMap_set_perm (fun w => w.pending.map (handleRequest answer)) s.workers i w
      ⟨w.queue ++ forwardAsReq m, w.busy⟩ [] ((forwardAsReq m).map (handleRequest answer)) hworker
      (by simp [HttpWorker.pending])
    rw [List.append_nil] at hset
    have hhanded := hhandled.append_right ((forwardAsReq m).map (handleRequest answer))
    simp only [handed, List.flatMap_append, List.flatMap_cons, List.flatMap_nil, List.append_nil,
      List.map_append] at hhanded ⊢
    apply hhanded.trans
    rw [List.append_assoc]
    exact hset.symm.append_left _
  | receiveRequest i =>
    obtain ⟨m, rest, hworker, rfl⟩ := step_receiveRequest answer s s' i hstep
    refine ⟨hreceived, hhandled.trans ?_⟩
    have hset := flatMap_set_perm (fun w => w.pending.map (handleRequest answer)) s.workers i
      ⟨m :: rest, none⟩ ⟨rest, some m⟩ [] [] hworker (by simp [HttpWorker.pending])
    simp only [List.append_nil] at hset
    exact hset.symm.append_left _
  | sendReply i =>
    obtain ⟨queue, m, hworker, rfl⟩ := step_sendReply answer s s' i hstep
    refine ⟨hreceived, hhandled.trans ?_⟩
    have hset := flatMap_set_perm (fun w => w.pending.map (handleRequest answer)) s.workers i
      ⟨queue, some m⟩ ⟨queue, none⟩ [handleRequest answer m] [] hworker
      (by simp [HttpWorker.pending])
    rw [List.append_nil] at hset
    simp only [List.append_assoc]
    exact ((List.perm_append_comm.trans hset).symm.append_left _).append_left _
  | forwardAsStream =>
    obtain ⟨m, rest, hreplies, rfl⟩ := step_forwardAsStream answer s s' hstep
    refine ⟨hreceived, ?_⟩
    simpa [hreplies, handed] using hhandled

theorem reachable_accounted (answer : Bytes → Bytes) (s : ServerState)
    (h : (machine answer).Reachable s) : Accounted answer s :=
  (machine answer).invariant (Accounted answer)
    (fun _ ⟨n, hn⟩ => hn ▸ start_accounted answer n)
    (fun s s' a hs hstep => step_accounted answer s s' a hs hstep) s h

def sampleClient : ZmqIdentity := ⟨lit "a", by decide⟩

end HttpServer

end HttpCpp
