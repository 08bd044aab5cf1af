import HttpCpp.Server.FrontEnd

namespace HttpCpp

/-- A message of the stream socket with its place among all that were received. -/
structure Arrival where
  serial : Nat
  message : Message
  deriving DecidableEq

/-- What stays of a message on its way: its place, the identity and the bytes. -/
def Arrival.data (a : Arrival) : Nat × ZmqIdentity × Bytes :=
  (a.serial, a.message.id, a.message.frame)

/-- A reply on its way back: the worker that sent it, the message it handled and what
`handle_request` found outside that message. -/
structure Reply (World : Type) where
  worker : Nat
  source : Arrival
  world : World
  message : Message
  deriving DecidableEq

structure WorkerLine where
  queue : List Arrival
  busy : Option Arrival
  deriving DecidableEq

/-- The messages of a worker without their places. -/
def WorkerLine.messages (w : WorkerLine) : HttpWorker :=
  ⟨w.queue.map (·.message), w.busy.map (·.message)⟩

structure Exchange (World : Type) where
  httpIn : List Arrival
  workers : List WorkerLine
  replies : List (Reply World)
  /-- All messages the stream socket has delivered. -/
  received : List Arrival
  /-- The messages `forward_as_req` has taken. -/
  requested : List Arrival
  /-- The replies `forward_as_stream` has taken. -/
  answered : List (Reply World)
  /-- The messages whose `handle_request` ended with an exception. -/
  abandoned : List Arrival
  deriving DecidableEq

inductive ExchangeAction (World : Type) where
  | deliver (m : Message)
  | forwardAsReq (worker : Nat)
  | receiveRequest (worker : Nat)
  | sendReply (worker : Nat) (world : World)
  | abandon (worker : Nat)
  | forwardAsStream (worker : Nat)

namespace Exchange

open HttpServer HttpWorker

variable {World : Type}

/-- What `forward_as_req` sends to the workers for an arrival. -/
def forwarded (a : Arrival) : List Arrival := (forwardAsReq a.message).map (⟨a.serial, ·⟩)

/-- One step of the proxy or of a worker. The replies of one worker stay in order, those of
different workers do not. -/
def step (answer : World → Bytes → Option Bytes) (s : Exchange World) :
    ExchangeAction World → Option (Exchange World)
  | .deliver m =>
    let a : Arrival := ⟨s.received.length, m⟩
    some { s with httpIn := s.httpIn ++ [a], received := s.received ++ [a] }
  | .forwardAsReq i =>
    match s.httpIn, s.workers[i]? with
    | a :: rest, some w => some { s with
        httpIn := rest
        requested := s.requested ++ [a]
        workers := s.workers.set i ⟨w.queue ++ forwarded a, w.busy⟩ }
    | _, _ => none
  | .receiveRequest i =>
    match s.workers[i]? with
    | some ⟨a :: rest, none⟩ => some { s with workers := s.workers.set i ⟨rest, some a⟩ }
    | _ => none
  | .sendReply i world =>
    match s.workers[i]? with
    | some ⟨queue, some a⟩ =>
      (answer world a.message.frame).map fun text => { s with
        workers := s.workers.set i ⟨queue, none⟩
        replies := s.replies ++ [⟨i, a, world, handleRequest (fun _ => text) a.message⟩] }
    | _ => none
  | .abandon i =>
    match s.workers[i]? with
    | some ⟨queue, some a⟩ => some { s with
        workers := s.workers.set i ⟨queue, none⟩
        abandoned := s.abandoned ++ [a] }
    | _ => none
  | .forwardAsStream i =>
    (s.replies.find? (·.worker = i)).map fun reply => { s with
      replies := s.replies.eraseP (·.worker = i)
      answered := s.answered ++ [reply] }

/-- A server with any number of idle workers. -/
def start (workers : Nat) : Exchange World :=
  ⟨[], List.replicate workers ⟨[], none⟩, [], [], [], [], []⟩

def machine (answer : World → Bytes → Option Bytes) :
    Machine (Exchange World) (ExchangeAction World) where
  Initial := fun s => ∃ n, s = start n
  step := step answer

/-- All frames written to the stream socket so far. -/
def sent (s : Exchange World) : List Message :=
  s.answered.flatMap fun reply => forwardAsStream reply.message

/-- The data messages no worker has taken yet. -/
def waiting (s : Exchange World) : List Arrival :=
  s.httpIn.filter (·.message.frame ≠ []) ++ s.workers.flatMap (·.queue)

def handling (s : Exchange World) : List Arrival := s.workers.flatMap (·.busy.toList)

def returning (s : Exchange World) : List Arrival := s.replies.map (·.source)

def settled (s : Exchange World) : List Arrival := s.answered.map (·.source) ++ s.abandoned

/-- The data messages the stream socket has delivered. -/
def dataReceived (s : Exchange World) : List Arrival :=
  s.received.filter (·.message.frame ≠ [])

/-- The reply is what one call of `handle_request` made of its source. -/
def Computed (answer : World → Bytes → Option Bytes) (reply : Reply World) : Prop :=
  ∃ text, answer reply.world reply.source.message.frame = some text ∧
    reply.message = handleRequest (fun _ => text) reply.source.message

/-- How often some data occurs among arrivals. -/
def tally (d : Nat × ZmqIdentity × Bytes) (l : List Arrival) : Nat := (l.map Arrival.data).count d

theorem tally_append (d : Nat × ZmqIdentity × Bytes) (l l' : List Arrival) :
    tally d (l ++ l') = tally d l + tally d l' := by
  simp [tally]

theorem tally_nil (d : Nat × ZmqIdentity × Bytes) : tally d [] = 0 := rfl

theorem tally_cons (d : Nat × ZmqIdentity × Bytes) (a : Arrival) (l : List Arrival) :
    tally d (a :: l) = tally d [a] + tally d l :=
  tally_append d [a] l

theorem tally_perm (d : Nat × ZmqIdentity × Bytes) (l l' : List Arrival) (h : l.Perm l') :
    tally d l = tally d l' :=
  (h.map Arrival.data).count_eq d

/-- Where every data message is, and where it came from. -/
structure Partitioned (answer : World → Bytes → Option Bytes) (s : Exchange World) : Prop where
  serials : s.received.map Arrival.serial = List.range s.received.length
  parts : ∀ d, tally d (waiting s) + tally d (handling s) + tally d (returning s) +
    tally d (settled s) = tally d (dataReceived s)
  computed : ∀ reply ∈ s.replies ++ s.answered, Computed answer reply

theorem start_partitioned (answer : World → Bytes → Option Bytes) (n : Nat) :
    Partitioned answer (start n : Exchange World) where
  serials := rfl
  parts := by
    intro d
    have hqueue : (start n : Exchange World).workers.flatMap (·.queue) = [] := by simp [start]
    have hbusy : (start n : Exchange World).workers.flatMap (·.busy.toList) = [] := by
      simp [start]
    rw [waiting, handling, hqueue, hbusy]
    rfl
  computed := by
    intro reply hreply
    simp [start] at hreply

/-- Changing one worker changes what is gathered from the workers by as much. -/
theorem tally_set (d : Nat × ZmqIdentity × Bytes) (f : WorkerLine → List Arrival)
    (workers : List WorkerLine) (i : Nat) (w w' : WorkerLine) (hi : workers[i]? = some w) :
    tally d ((workers.set i w').flatMap f) + tally d (f w) =
      tally d (workers.flatMap f) + tally d (f w') := by
  have hset := flatMap_set_perm f workers i w w' (f w) (f w') hi List.perm_append_comm
  have hcount := tally_perm d _ _ hset
  rwa [tally_append, tally_append] at hcount

theorem tally_line (d : Nat × ZmqIdentity × Bytes) (workers : List WorkerLine) (i : Nat)
    (w w' : WorkerLine) (hi : workers[i]? = some w) :
    tally d ((workers.set i w').flatMap (·.queue)) + tally d w.queue =
        tally d (workers.flatMap (·.queue)) + tally d w'.queue ∧
      tally d ((workers.set i w').flatMap (·.busy.toList)) + tally d w.busy.toList =
        tally d (workers.flatMap (·.busy.toList)) + tally d w'.busy.toList :=
  ⟨tally_set d (·.queue) workers i w w' hi, tally_set d (·.busy.toList) workers i w w' hi⟩

/-- What goes on to the workers for an arrival is that arrival when it has data. -/
theorem tally_forwarded (d : Nat × ZmqIdentity × Bytes) (a : Arrival) :
    tally d (forwarded a) = tally d ([a].filter (·.message.frame ≠ [])) := by
  by_cases hframe : a.message.frame = []
  · simp [forwarded, forwardAsReq, hframe]
  · have hsame : Message.frame ⟨a.message.id, [a.message.frame]⟩ = a.message.frame := by
      simp [Message.frame]
    simp [forwarded, forwardAsReq, hframe, tally, Arrival.data, hsame]

theorem step_forwardAsReq (answer : World → Bytes → Option Bytes) (s s' : Exchange World) (i : Nat)
    (h : step answer s (.forwardAsReq i) = some s') :
    ∃ a rest w, s.httpIn = a :: rest ∧ s.workers[i]? = some w ∧ s' = { s with
      httpIn := rest
      requested := s.requested ++ [a]
      workers := s.workers.set i ⟨w.queue ++ forwarded a, w.busy⟩ } := by
  simp only [step] at h
  split at h
  · rename_i a rest w hin hworker
    exact ⟨a, rest, w, hin, hworker, (Option.some.inj h).symm⟩
  · simp at h

theorem step_receiveRequest (answer : World → Bytes → Option Bytes) (s s' : Exchange World)
    (i : Nat) (h : step answer s (.receiveRequest i) = some s') :
    ∃ a rest, s.workers[i]? = some ⟨a :: rest, none⟩ ∧
      s' = { s with workers := s.workers.set i ⟨rest, some a⟩ } := by
  simp only [step] at h
  split at h
  · rename_i a rest hworker
    exact ⟨a, rest, hworker, (Option.some.inj h).symm⟩
  · simp at h

theorem step_sendReply (answer : World → Bytes → Option Bytes) (s s' : Exchange World) (i : Nat)
    (world : World) (h : step answer s (.sendReply i world) = some s') :
    ∃ queue a text, s.workers[i]? = some ⟨queue, some a⟩ ∧
      answer world a.message.frame = some text ∧ s' = { s with
        workers := s.workers.set i ⟨queue, none⟩
        replies := s.replies ++ [⟨i, a, world, handleRequest (fun _ => text) a.message⟩] } := by
  simp only [step] at h
  split at h
  · rename_i queue a hworker
    obtain ⟨text, hanswer, hsame⟩ := Option.map_eq_some_iff.mp h
    exact ⟨queue, a, text, hworker, hanswer, hsame.symm⟩
  · simp at h

theorem step_abandon (answer : World → Bytes → Option Bytes) (s s' : Exchange World) (i : Nat)
    (h : step answer s (.abandon i) = some s') :
    ∃ queue a, s.workers[i]? = some ⟨queue, some a⟩ ∧ s' = { s with
      workers := s.workers.set i ⟨queue, none⟩
      abandoned := s.abandoned ++ [a] } := by
  simp only [step] at h
  split at h
  · rename_i queue a hworker
    exact ⟨queue, a, hworker, (Option.some.inj h).symm⟩
  · simp at h

theorem step_forwardAsStream (answer : World → Bytes → Option Bytes) (s s' : Exchange World)
    (i : Nat) (h : step answer s (.forwardAsStream i) = some s') :
    ∃ reply rest, s.replies.Perm (reply :: rest) ∧
      s' = { s with replies := rest, answered := s.answered ++ [reply] } := by
  obtain ⟨reply, hfind, hsame⟩ := Option.map_eq_some_iff.mp h
  exact ⟨reply, _, perm_cons_eraseP _ _ _ hfind, hsame.symm⟩

/-- Every action moves a message from one place to the next. -/
theorem step_parts (answer : World → Bytes → Option Bytes) (s s' : Exchange World)
    (a : ExchangeAction World) (d : Nat × ZmqIdentity × Bytes)
    (h : tally d (waiting s) + tally d (handling s) + tally d (returning s) +
      tally d (settled s) = tally d (dataReceived s))
    (hstep : step answer s a = some s') :
    tally d (waiting s') + tally d (handling s') + tally d (returning s') +
      tally d (settled s') = tally d (dataReceived s') := by
  cases a with
  | deliver m =>
    obtain rfl := Option.some.inj hstep
    simp only [waiting, handling, returning, settled, dataReceived, List.filter_append,
      tally_append] at h ⊢
    omega
  | forwardAsReq i =>
    obtain ⟨a, rest, w, hin, hworker, rfl⟩ := step_forwardAsReq answer s s' i hstep
    obtain ⟨hqueue, hbusy⟩ := tally_line d s.workers i w ⟨w.queue ++ forwarded a, w.busy⟩ hworker
    have hhead : s.httpIn = [a] ++ rest := hin
    simp only [waiting, handling, returning, settled, dataReceived, hhead, List.filter_append,
      tally_append, tally_forwarded] at h hqueue hbusy ⊢
    omega
  | receiveRequest i =>
    obtain ⟨a, rest, hworker, rfl⟩ := step_receiveRequest answer s s' i hstep
    obtain ⟨hqueue, hbusy⟩ := tally_line d s.workers i ⟨a :: rest, none⟩ ⟨rest, some a⟩ hworker
    simp only [waiting, handling, returning, settled, dataReceived, tally_append,
      tally_cons d a rest, Option.toList_none, Option.toList_some, tally_nil] at h hqueue hbusy ⊢
    omega
  | sendReply i world =>
    obtain ⟨queue, a, text, hworker, -, rfl⟩ := step_sendReply answer s s' i world hstep
    obtain ⟨hqueue, hbusy⟩ := tally_line d s.workers i ⟨queue, some a⟩ ⟨queue, none⟩ hworker
    simp only [waiting, handling, returning, settled, dataReceived, List.map_append,
      List.map_cons, List.map_nil, tally_append, Option.toList_none, Option.toList_some,
      tally_nil] at h hqueue hbusy ⊢
    omega
  | abandon i =>
    obtain ⟨queue, a, hworker, rfl⟩ := step_abandon answer s s' i hstep
    obtain ⟨hqueue, hbusy⟩ := tally_line d s.workers i ⟨queue, some a⟩ ⟨queue, none⟩ hworker
    simp only [waiting, handling, returning, settled, dataReceived, tally_append,
      Option.toList_none, Option.toList_some, tally_nil] at h hqueue hbusy ⊢
    omega
  | forwardAsStream i =>
    obtain ⟨reply, rest, hperm, rfl⟩ := step_forwardAsStream answer s s' i hstep
    have hreplies := tally_perm d _ _ (hperm.map (·.source))
    rw [List.map_cons, tally_cons] at hreplies
    simp only [waiting, handling, returning, settled, dataReceived, List.map_append,
      List.map_cons, List.map_nil, tally_append] at h ⊢
    omega

theorem step_serials (answer : World → Bytes → Option Bytes) (s s' : Exchange World)
    (a : ExchangeAction World)
    (h : s.received.map Arrival.serial = List.range s.received.length)
    (hstep : step answer s a = some s') :
    s'.received.map Arrival.serial = List.range s'.received.length := by
  cases a with
  | deliver m =>
    obtain rfl := Option.some.inj hstep
    simp [h, List.range_succ]
  | forwardAsReq i =>
    obtain ⟨a, rest, w, -, -, rfl⟩ := step_forwardAsReq answer s s' i hstep
    exact h
  | receiveRequest i =>
    obtain ⟨a, rest, -, rfl⟩ := step_receiveRequest answer s s' i hstep
    exact h
  | sendReply i world =>
    obtain ⟨queue, a, text, -, -, rfl⟩ := step_sendReply answer s s' i world hstep
    exact h
  | abandon i =>
    obtain ⟨queue, a, -, rfl⟩ := step_abandon answer s s' i hstep
    exact h
  | forwardAsStream i =>
    obtain ⟨reply, rest, -, rfl⟩ := step_forwardAsStream answer s s' i hstep
    exact h

theorem step_computed (answer : World → Bytes → Option Bytes) (s s' : Exchange World)
    (a : ExchangeAction World) (h : ∀ reply ∈ s.replies ++ s.answered, Computed answer reply)
    (hstep : step answer s a = some s') :
    ∀ reply ∈ s'.replies ++ s'.answered, Computed answer reply := by
  cases a with
  | deliver m =>
    obtain rfl := Option.some.inj hstep
    exact h
  | forwardAsReq i =>
    obtain ⟨a, rest, w, -, -, rfl⟩ := step_forwardAsReq answer s s' i hstep
    exact h
  | receiveRequest i =>
    obtain ⟨a, rest, -, rfl⟩ := step_receiveRequest answer s s' i hstep
    exact h
  | sendReply i world =>
    obtain ⟨queue, a, text, -, hanswer, rfl⟩ := step_sendReply answer s s' i world hstep
    intro reply hreply
    simp only [List.append_assoc, List.mem_append, List.mem_singleton] at hreply
    rcases hreply with hold | rfl | hold
    · exact h reply (List.mem_append_left _ hold)
    · exact ⟨text, hanswer, rfl⟩
    · exact h reply (List.mem_append_right _ hold)
  | abandon i =>
    obtain ⟨queue, a, -, rfl⟩ := step_abandon answer s s' i hstep
    exact h
  | forwardAsStream i =>
    obtain ⟨reply, rest, hperm, rfl⟩ := step_forwardAsStream answer s s' i hstep
    intro reply' hreply
    apply h
    simp only [List.mem_append, hperm.mem_iff, List.mem_cons] at hreply ⊢
    tauto

theorem step_partitioned (answer : World → Bytes → Option Bytes) (s s' : Exchange World)
    (a : ExchangeAction World) (h : Partitioned answer s) (hstep : step answer s a = some s') :
    Partitioned answer s' where
  serials := step_serials answer s s' a h.serials hstep
  parts := fun d => step_parts answer s s' a d (h.parts d) hstep
  computed := step_computed answer s s' a h.computed hstep

theorem reachable_partitioned (answer : World → Bytes → Option Bytes) (s : Exchange World)
    (h : (machine answer).Reachable s) : Partitioned answer s :=
  (machine answer).invariant (Partitioned answer)
    (fun _ ⟨n, hn⟩ => hn ▸ start_partitioned answer n)
    (fun s s' a hs hstep => step_partitioned answer s s' a hs hstep) s h

/-- The replies with a response, as `forward_as_stream` has sent them on. -/
def responses (s : Exchange World) : List (Reply World) :=
  s.answered.filter (·.message.frame ≠ [])

/-- Every response goes to the client whose data it was computed from, each message has at most
one, and every message is in one place. -/
structure Faithful (answer : World → Bytes → Option Bytes) (s : Exchange World) : Prop where
  partition : ((waiting s ++ handling s ++ returning s ++ settled s).map Arrival.data).Perm
    ((dataReceived s).map Arrival.data)
  distinct : (s.received.map Arrival.serial).Nodup
  written : (sent s).filter (·.frame ≠ []) =
    (responses s).map fun reply => ⟨reply.message.id, [reply.message.frame]⟩
  once : ((responses s).map (·.source.serial)).Nodup
  own : ∀ reply ∈ responses s, ∃ a ∈ dataReceived s, a.serial = reply.source.serial ∧
    reply.message.id = a.message.id ∧
    answer reply.world a.message.frame = some reply.message.frame

theorem sent_responses (s : Exchange World) : (sent s).filter (·.frame ≠ []) =
    (responses s).map fun reply => ⟨reply.message.id, [reply.message.frame]⟩ := by
  simp only [sent, responses]
  induction s.answered with
  | nil => rfl
  | cons reply answered ih =>
    have hclose : Message.frame ⟨reply.message.id, [[]]⟩ = [] := rfl
    have hwire : Message.frame ⟨reply.message.id, [reply.message.frame]⟩ = reply.message.frame := by
      simp [Message.frame]
    rw [List.flatMap_cons, List.filter_append, ih]
    by_cases hframe : reply.message.frame = []
    · simp [forwardAsStream, hframe]
    · simp [forwardAsStream, hframe, hclose, hwire]

theorem partition_perm (answer : World → Bytes → Option Bytes) (s : Exchange World)
    (h : Partitioned answer s) :
    ((waiting s ++ handling s ++ returning s ++ settled s).map Arrival.data).Perm
      ((dataReceived s).map Arrival.data) := by
  apply List.perm_iff_count.mpr
  intro d
  have hd := h.parts d
  simp only [← tally_append] at hd
  exact hd

theorem response_own (answer : World → Bytes → Option Bytes) (s : Exchange World)
    (h : Partitioned answer s) (reply : Reply World) (hreply : reply ∈ responses s) :
    ∃ a ∈ dataReceived s, a.serial = reply.source.serial ∧
      reply.message.id = a.message.id ∧
      answer reply.world a.message.frame = some reply.message.frame := by
  obtain ⟨hanswered, -⟩ := List.mem_filter.mp hreply
  obtain ⟨text, htext, hmessage⟩ := h.computed reply (List.mem_append_right _ hanswered)
  have hin : reply.source.data ∈
      (waiting s ++ handling s ++ returning s ++ settled s).map Arrival.data := by
    apply List.mem_map_of_mem
    simp only [settled, List.mem_append]
    exact Or.inr (Or.inl (List.mem_map_of_mem hanswered))
  obtain ⟨a, ha, hdata⟩ := List.mem_map.mp ((partition_perm answer s h).mem_iff.mp hin)
  simp only [Arrival.data, Prod.mk.injEq] at hdata
  obtain ⟨hserial, hid, hframe⟩ := hdata
  have hsent : reply.message.frame = text := by rw [hmessage]; simp [handleRequest, Message.frame]
  refine ⟨a, ha, hserial, ?_, ?_⟩
  · rw [hmessage, hid]
    rfl
  · rw [hframe, hsent, htext]

theorem reachable_faithful (answer : World → Bytes → Option Bytes) (s : Exchange World)
    (h : (machine answer).Reachable s) : Faithful answer s := by
  have hpartitioned := reachable_partitioned answer s h
  have hpartition := partition_perm answer s hpartitioned
  have hdistinct : (s.received.map Arrival.serial).Nodup := by
    rw [hpartitioned.serials]
    exact List.nodup_range
  refine ⟨hpartition, hdistinct, sent_responses s, ?_, response_own answer s hpartitioned⟩
  have hdata : ((dataReceived s).map Arrival.serial).Nodup :=
    hdistinct.sublist (List.filter_sublist.map _)
  have hall := (hpartition.map Prod.fst).nodup_iff.mpr (by
    rw [List.map_map]
    exact hdata)
  rw [List.map_map] at hall
  have hsub : ((responses s).map (·.source)).Sublist
      (waiting s ++ handling s ++ returning s ++ settled s) := by
    apply List.Sublist.trans (List.filter_sublist.map _)
    apply List.Sublist.trans (List.sublist_append_left _ s.abandoned)
    exact List.sublist_append_right _ _
  have honce := hall.sublist (hsub.map _)
  rwa [List.map_map] at honce

section FrontEnd

/-- What the front end's own states show of an exchange. -/
def erase (s : Exchange Unit) : ServerState where
  httpIn := s.httpIn.map (·.message)
  workers := s.workers.map WorkerLine.messages
  replies := s.replies.map (·.message)
  received := s.received.map (·.message)
  requested := s.requested.map (·.message)
  answered := s.answered.map (·.message)

theorem erase_worker (s : Exchange Unit) (i : Nat) (w : HttpWorker)
    (h : (erase s).workers[i]? = some w) :
    ∃ line, s.workers[i]? = some line ∧ line.messages = w := by
  simpa [erase, List.getElem?_map, Option.map_eq_some_iff] using h

/-- What the front end does next, the exchange can do. -/
theorem step_simulated (answer : Bytes → Bytes) (t : Exchange Unit) (s' : ServerState)
    (a : ServerAction) (hstep : HttpServer.step answer (erase t) a = some s') :
    ∃ b t', step (fun _ frame => some (answer frame)) t b = some t' ∧ erase t' = s' := by
  cases a with
  | deliver m =>
    obtain rfl := Option.some.inj hstep
    exact ⟨.deliver m, _, rfl, by simp [erase]⟩
  | forwardAsReq i =>
    obtain ⟨m, rest, w, hin, hworker, rfl⟩ := HttpServer.step_forwardAsReq answer _ s' i hstep
    obtain ⟨a, rest', hhead, rfl, rfl⟩ := List.map_eq_cons_iff.mp hin
    obtain ⟨line, hline, rfl⟩ := erase_worker t i w hworker
    refine ⟨.forwardAsReq i, { t with
      httpIn := rest'
      requested := t.requested ++ [a]
      workers := t.workers.set i ⟨line.queue ++ forwarded a, line.busy⟩ },
      by simp [step, hhead, hline], ?_⟩
    simp [erase, WorkerLine.messages, forwarded, List.map_set, Function.comp_def]
  | receiveRequest i =>
    obtain ⟨m, rest, hworker, rfl⟩ := HttpServer.step_receiveRequest answer _ s' i hstep
    obtain ⟨⟨queue, busy⟩, hline, hmessages⟩ := erase_worker t i _ hworker
    simp only [WorkerLine.messages, HttpWorker.mk.injEq, Option.map_eq_none_iff] at hmessages
    obtain ⟨hqueue, rfl⟩ := hmessages
    obtain ⟨a, rest', rfl, rfl, rfl⟩ := List.map_eq_cons_iff.mp hqueue
    refine ⟨.receiveRequest i, { t with workers := t.workers.set i ⟨rest', some a⟩ },
      by simp [step, hline], ?_⟩
    simp [erase, WorkerLine.messages, List.map_set]
  | sendReply i =>
    obtain ⟨queue', m, hworker, rfl⟩ := HttpServer.step_sendReply answer _ s' i hstep
    obtain ⟨⟨queue, busy⟩, hline, hmessages⟩ := erase_worker t i _ hworker
    simp only [WorkerLine.messages, HttpWorker.mk.injEq, Option.map_eq_some_iff] at hmessages
    obtain ⟨rfl, a, rfl, rfl⟩ := hmessages
    refine ⟨.sendReply i (), { t with
      workers := t.workers.set i ⟨queue, none⟩
      replies := t.replies ++
        [⟨i, a, (), handleRequest (fun _ => answer a.message.frame) a.message⟩] },
      by simp [step, hline], ?_⟩
    simp [erase, WorkerLine.messages, List.map_set, handleRequest]
  | forwardAsStream =>
    obtain ⟨m, rest, hreplies, rfl⟩ := HttpServer.step_forwardAsStream answer _ s' hstep
    obtain ⟨reply, rest', hhead, rfl, rfl⟩ := List.map_eq_cons_iff.mp hreplies
    refine ⟨.forwardAsStream reply.worker, { t with
      replies := rest'
      answered := t.answered ++ [reply] }, by simp [step, hhead], ?_⟩
    simp [erase]

/-- Every run of the front end is a run of the exchange in which workers do not fail and replies
come back in the order in which they were sent. -/
theorem frontEnd_simulated (answer : Bytes → Bytes) (s : ServerState)
    (h : (HttpServer.machine answer).Reachable s) :
    ∃ t, (machine fun _ frame => some (answer frame)).Reachable t ∧ erase t = s := by
  induction h with
  | initial s h =>
    obtain ⟨n, rfl⟩ := h
    exact ⟨start n, .initial _ ⟨n, rfl⟩, by simp [erase, start, HttpServer.start,
      WorkerLine.messages]⟩
  | step s s' a _ hstep ih =>
    obtain ⟨t, ht, rfl⟩ := ih
    obtain ⟨b, t', hb, ht'⟩ := step_simulated answer t s' a hstep
    exact ⟨t', .step t t' b ht hb, ht'⟩

end FrontEnd

def secondClient : ZmqIdentity := ⟨lit "b", by decide⟩

/-- Two clients whose requests are answered by two workers, the later one first. -/
def crossing : List (ExchangeAction Unit) :=
  [.deliver ⟨HttpServer.sampleClient, []⟩, .deliver ⟨HttpServer.sampleClient, [lit "GET /a"]⟩,
    .deliver ⟨secondClient, [lit "GET /b"]⟩, .forwardAsReq 0, .forwardAsReq 0, .forwardAsReq 1,
    .receiveRequest 1, .receiveRequest 0, .sendReply 1 (), .sendReply 0 (),
    .forwardAsStream 1]

/-- The server after that run. -/
def crossed : Exchange Unit :=
  ((machine fun _ frame => some frame).run (start 2) crossing).getD (start 0)

theorem reachable_faithful_crossing :
    (responses crossed).length = 1 ∧ Faithful (fun _ frame => some frame) crossed :=
  ⟨by decide, reachable_faithful _ crossed ((machine _).reachable_run (start 2) crossed
    crossing (.initial _ ⟨2, rfl⟩) (by decide))⟩

end Exchange

end HttpCpp
