import HttpCpp.Server.Pipelining
import HttpCpp.Server.ProcessProgress
import HttpCpp.Server.ProcessPrompt

namespace HttpCpp

/-- A response that was sent back, with what it was computed from. -/
structure Answer (World : Type) where
  id : ZmqIdentity
  frame : Bytes
  world : World
  text : Bytes

/-- Its frames on the stream socket: the response, and the empty frame that closes the
connection. -/
def Answer.wire {World : Type} (a : Answer World) : List Bytes :=
  [a.id.identity, a.text, a.id.identity, []]

namespace Process

open HttpServer HttpWorker Exchange

variable {World : Type} {answer : World → Bytes → Option Bytes}

section Sample

/-- The server starts, and its first worker answers one message; the other workers come last. -/
def oneRequest (m : Message) (world : World) : List (ProcessAction World) :=
  [.launch, .launch, .launch, .launch, .launch, .worker 0 .connect, .worker 0 .test,
    .announce [0], .deliver m, .poll true false, .recvHttp, .recvHttp, .sendRequest 0,
    .sendRequest 0, .leave, .worker 0 (.poll true true), .worker 0 .recvStatus,
    .worker 0 .recvRequest, .worker 0 .recvRequest, .worker 0 (.answer world), .worker 0 .send,
    .worker 0 .send, .poll false true, .recvReply 0, .recvReply 0, .sendHttp, .sendHttp,
    .sendHttp, .sendHttp, .leave, .worker 0 .leave, .worker 0 .test, .worker 1 .connect,
    .worker 1 .test, .worker 2 .connect, .worker 2 .test, .worker 3 .connect, .worker 3 .test]

/-- The state after some of these actions. -/
def afterActions (answer : World → Bytes → Option Bytes) (m : Message) (world : World) (n : Nat) :
    Process :=
  ((machine answer).run start ((oneRequest m world).take n)).getD start

theorem afterActions_reachable (answer : World → Bytes → Option Bytes) (m : Message)
    (world : World) (n : Nat) : (machine answer).Reachable (afterActions answer m world n) :=
  (machine answer).reachable_getD start start _ (.initial _ rfl) (.initial _ rfl)

/-- Another message comes, and the second worker answers it. -/
def nextRequest (m : Message) (world : World) : List (ProcessAction World) :=
  [.deliver m, .poll true false, .recvHttp, .recvHttp, .sendRequest 1, .sendRequest 1, .leave,
    .worker 1 (.poll false true), .worker 1 .recvRequest, .worker 1 .recvRequest,
    .worker 1 (.answer world), .worker 1 .send, .worker 1 .send, .poll false true, .recvReply 1,
    .recvReply 1, .sendHttp, .sendHttp, .sendHttp, .sendHttp, .leave, .worker 1 .leave,
    .worker 1 .test]

/-- The state after two messages, one after the other. -/
def afterBoth (answer : World → Bytes → Option Bytes) (m m' : Message) (world : World) : Process :=
  ((machine answer).run (afterActions answer m world 38) (nextRequest m' world)).getD start

theorem afterBoth_reachable (answer : World → Bytes → Option Bytes) (m m' : Message)
    (world : World) : (machine answer).Reachable (afterBoth answer m m' world) :=
  (machine answer).reachable_getD _ start _ (afterActions_reachable answer m world 38)
    (.initial _ rfl)

def sampleProcess : Nat → Process :=
  afterActions (HttpWorker.answer plainBuild sampleWebsites)
    ⟨sampleClient, [sampleRequestTo (lit "/1")]⟩ sampleWorld

end Sample

/-- The data the stream socket has got, with the identities it came from. -/
def data (p : Process) : List (ZmqIdentity × Bytes) :=
  (p.received.map fun m => (m.id, m.frame)).filter (·.2 ≠ [])

/-- The responses of an exchange. -/
def answers (e : Exchange World) : List (Answer World) :=
  (responses e).map fun reply =>
    ⟨reply.source.message.id, reply.source.message.frame, reply.world, reply.message.frame⟩

theorem answers_computed (e : Exchange World) (h : Partitioned answer e) :
    ∀ a ∈ answers e, answer a.world a.frame = some a.text := by
  intro a ha
  obtain ⟨reply, hreply, rfl⟩ := List.mem_map.mp ha
  obtain ⟨hanswered, -⟩ := List.mem_filter.mp hreply
  obtain ⟨text, htext, hmessage⟩ := h.computed reply (List.mem_append_right _ hanswered)
  have hframe : reply.message.frame = text := by rw [hmessage]; simp [handleRequest, Message.frame]
  rw [hframe]
  exact htext

theorem answers_wire (e : Exchange World) (h : Partitioned answer e) :
    wire e = (answers e).flatMap Answer.wire := by
  have hone : ∀ reply ∈ e.answered, (forwardAsStream reply.message).flatMap Message.frames =
      if reply.message.frame ≠ [] then Answer.wire ⟨reply.source.message.id,
        reply.source.message.frame, reply.world, reply.message.frame⟩ else [] := by
    intro reply hreply
    obtain ⟨text, -, hmessage⟩ := h.computed reply (List.mem_append_right _ hreply)
    have hid : reply.message.id = reply.source.message.id := by rw [hmessage]; rfl
    rw [forwardAsStream_frames, hid]
    by_cases hframe : reply.message.frame = []
    · simp [streamFrames, hframe]
    · simp [streamFrames, hframe, Answer.wire]
  simp only [wire, Exchange.sent, answers, responses, List.flatMap_assoc]
  generalize e.answered = answered at hone ⊢
  induction answered with
  | nil => rfl
  | cons reply answered ih =>
    have hfirst := hone reply (by simp)
    have hrest := ih (fun r hr => hone r (List.mem_cons_of_mem _ hr))
    rw [List.flatMap_cons, hfirst, hrest]
    by_cases hframe : reply.message.frame = []
    · simp [hframe]
    · simp [hframe]

theorem shown_data {p : Process} {e : Exchange World} (h : Shows answer p e) :
    (dataReceived e).map (fun a => (a.message.id, a.message.frame)) = p.data := by
  simp only [data, dataReceived, ← h.received, List.map_map, List.filter_map]
  rfl

/-- Each response belongs to a message of its own. -/
theorem answers_subperm {p : Process} {e : Exchange World} (h : Shows answer p e)
    (hpartitioned : Partitioned answer e) :
    ((answers e).map fun a => (a.id, a.frame)).Subperm p.data := by
  have hsub : ((responses e).map (·.source)).Sublist
      (waiting e ++ handling e ++ returning e ++ settled e) := by
    apply List.Sublist.trans (List.filter_sublist.map _)
    apply List.Sublist.trans (List.sublist_append_left _ e.abandoned)
    exact List.sublist_append_right _ _
  have hperm := (partition_perm answer e hpartitioned).map Prod.snd
  rw [List.map_map, List.map_map] at hperm
  rw [← shown_data h, answers, List.map_map]
  have hall := (hsub.map (Prod.snd ∘ Arrival.data)).subperm.trans hperm.subperm
  rw [List.map_map] at hall
  exact hall

/-- Whatever the interleaving, what was written to the stream socket are responses each followed by
a close, the last one perhaps not yet in full; each answers a message of its own, and goes to the
identity that message came from. -/
theorem written_answers (answer : World → Bytes → Option Bytes) (p : Process)
    (h : (machine answer).Reachable p) :
    ∃ answers : List (Answer World), p.written <+: answers.flatMap Answer.wire ∧
      (answers.map fun a => (a.id, a.frame)).Subperm p.data ∧
      ∀ a ∈ answers, answer a.world a.frame = some a.text := by
  obtain ⟨e, -, hshows, hpartitioned⟩ := reachable_shows answer p h
  refine ⟨answers e, ?_, answers_subperm hshows hpartitioned, answers_computed e hpartitioned⟩
  rw [← answers_wire e hpartitioned]
  exact hshows.gives.written_prefix

/-- Within the first frames of the response. -/
theorem written_answers_sample : (sampleProcess 27).written.length = 2 ∧
    ∃ answers : List (Answer (Surroundings HttpResourceFactory)),
      (sampleProcess 27).written <+: answers.flatMap Answer.wire ∧
      (answers.map fun a => (a.id, a.frame)).Subperm (sampleProcess 27).data ∧
      ∀ a ∈ answers,
        HttpWorker.answer plainBuild sampleWebsites a.world a.frame = some a.text :=
  ⟨by decide, written_answers _ _ (afterActions_reachable _ _ _ 27)⟩

theorem Shows.returning_ready {p : Process} {e : Exchange World} (h : Shows answer p e)
    (hprompt : p.Prompt) (hplace : p.place = .forwardAsStream .identity) :
    ∃ t ∈ p.workers, (t.outgoing p.reply).ready = true := by
  obtain ⟨-, -, hreply, -⟩ := h.at_place _ hplace
  obtain ⟨i, t, ht, hsent⟩ := hprompt.replies (Or.inl hplace)
  obtain ⟨w, -, hworker⟩ := h.workers.get i t ht
  have hwhole : ∀ m ∈ t.replies.sent, m ≠ [] := by
    rw [hworker.replies]
    intro m hm
    obtain ⟨reply, -, rfl⟩ := List.mem_map.mp hm
    exact reply.message.frames_ne_nil
  exact ⟨t, List.mem_of_getElem? ht, (Inlet.ready_waiting _ hwhole hreply).mpr hsent⟩

/-- A thread waits in its poll only: what a call of `recv` asks for is always there. -/
theorem reachable_recv (answer : World → Bytes → Option Bytes) (p : Process)
    (h : (machine answer).Reachable p) :
    (∀ (i : Nat) (t : WorkerThread), p.workers[i]? = some t →
        ((∃ request, t.place = .handleStatus request) → t.statuses ≠ []) ∧
        (t.place = .identity ∨ (∃ id frame, t.place = .parts id frame) →
          t.requests.ready = true) ∧ t.place ≠ .finished) ∧
      (∀ replies pc, p.place = .forwardAsReq replies pc → (∀ left, pc ≠ .sends left) →
        p.http.ready = true) ∧
      ∀ pc, p.place = .forwardAsStream pc → (∀ left, pc ≠ .sends left) →
        ∃ t ∈ p.workers, (t.outgoing p.reply).ready = true := by
  obtain ⟨hprompt, e, -, hshows, -⟩ := reachable_sound p h
  refine ⟨?_, ?_, ?_⟩
  · intro i t ht
    obtain ⟨w, -, hworker⟩ := hshows.workers.get i t ht
    have hown := hprompt.workers i t ht
    refine ⟨fun ⟨request, hplace⟩ => hown.status request hplace, ?_, hown.unfinished⟩
    rintro (hplace | ⟨id, frame, hplace⟩)
    · exact hown.request (Or.inl hplace)
    · have hhandles := hworker.handles
      rw [hplace] at hhandles
      exact Inlet.ready_within _ hhandles.1
  · intro replies pc hplace hsends
    obtain ⟨-, htakes, -⟩ := hshows.at_place _ hplace
    cases pc with
    | identity => exact hprompt.stream replies hplace
    | parts id frame => exact Inlet.ready_within _ htakes.1
    | sends left => exact absurd rfl (hsends left)
  · intro pc hplace hsends
    cases pc with
    | identity => exact hshows.returning_ready hprompt hplace
    | parts id frame =>
      obtain ⟨-, -, hgives⟩ := hshows.at_place _ hplace
      obtain ⟨t, w, ht, -, -⟩ := hshows.first_worker
      exact ⟨t, List.mem_of_getElem? ht, Inlet.ready_within _ hgives.1⟩
    | sends left => exact absurd rfl (hsends left)

theorem reachable_recv_sample :
    ∃ t ∈ (sampleProcess 23).workers, (t.outgoing (sampleProcess 23).reply).ready = true :=
  (reachable_recv _ _ (afterActions_reachable _ _ _ 23)).2.2 .identity (by decide) (by simp)

section Stuck

variable {p : Process} {e : Exchange World}

/-- Where nothing more can happen by itself, a thread of a worker is in its poll with nothing to
receive. -/
theorem stuck_worker [Nonempty World] (hprompt : p.Prompt) (hshows : Shows answer p e)
    (hstuck : (machine answer).Stuck ProcessAction.Internal p) (hrunning : p.terminated = false)
    (i : Nat) (t : WorkerThread) (ht : p.workers[i]? = some t) :
    t.place = .polling ∧ t.requests.ready = false := by
  have hnone : ∀ a, a ≠ .pollThrows → t.step answer a = none := by
    intro a ha
    have hin : (ProcessAction.worker i a).Internal := by
      cases a <;> simp_all [ProcessAction.Internal]
    have hno := hstuck _ hin
    simpa [machine, step, hrunning, advance, ht] using hno
  obtain ⟨w, -, hworker⟩ := hshows.workers.get i t ht
  have hhandles := hworker.handles
  have hown := hprompt.workers i t ht
  cases hplace : t.place with
  | unstarted =>
    obtain ⟨k, hk, hlaunching⟩ := (hshows.launched i t ht).mp hplace
    have hno := hstuck .launch trivial
    simp only [machine, step, hrunning, Bool.false_eq_true, if_false, advance, hlaunching] at hno
    split at hno <;> simp at hno
  | connecting => simpa [WorkerThread.step, hplace] using hnone .connect (by simp)
  | testing => simpa [WorkerThread.step, hplace] using hnone .test (by simp)
  | polling =>
    refine ⟨rfl, ?_⟩
    have hno := hnone (.poll false true) (by simp)
    simpa [WorkerThread.step, hplace] using hno
  | handleStatus request =>
    obtain ⟨status, statuses, hstatuses⟩ :=
      List.exists_cons_of_ne_nil (hown.status request hplace)
    simpa [WorkerThread.step, hplace, hstatuses] using hnone .recvStatus (by simp)
  | identity =>
    obtain ⟨part, requests, hrecv⟩ := Inlet.recv_ready _ (hown.request (Or.inl hplace))
    simpa [WorkerThread.step, hplace, hrecv] using hnone .recvRequest (by simp)
  | parts id frame =>
    rw [hplace] at hhandles
    obtain ⟨part, requests, hrecv⟩ := Inlet.recv_ready _ (Inlet.ready_within _ hhandles.1)
    simpa [WorkerThread.step, hplace, hrecv] using hnone .recvRequest (by simp)
  | answering id frame =>
    obtain ⟨world⟩ := (inferInstance : Nonempty World)
    simpa [WorkerThread.step, hplace] using hnone (.answer world) (by simp)
  | sends left =>
    cases left with
    | nil => simpa [WorkerThread.step, hplace] using hnone .leave (by simp)
    | cons first left => simpa [WorkerThread.step, hplace] using hnone .send (by simp)
  | finished => exact absurd hplace hown.unfinished
  | terminated =>
    have hend : p.terminated = true := by
      refine List.any_eq_true.mpr ⟨t, List.mem_of_getElem? ht, by simp [hplace]⟩
    simp [hend] at hrunning

theorem stuck_server [Nonempty World] (hprompt : p.Prompt) (hshows : Shows answer p e)
    (hstuck : (machine answer).Stuck ProcessAction.Internal p) (hrunning : p.terminated = false)
    (hfailed : p.place ≠ .failed) :
    p.place = .polling ∧ p.http.ready = false ∧
      ∀ t ∈ p.workers, (t.outgoing p.reply).ready = false := by
  have hnone : ∀ a : ProcessAction World, a.Internal → p.advance answer a = none := by
    intro a ha
    simpa [machine, step, hrunning] using hstuck a ha
  obtain ⟨t, w, ht, -, -⟩ := hshows.first_worker
  cases hplace : p.place with
  | launching i =>
    have hno := hnone .launch trivial
    simp only [advance, hplace] at hno
    split at hno <;> simp at hno
  | announcing => simpa [advance, hplace] using hnone (.announce []) trivial
  | polling =>
    have hstream := hnone (.poll true false) trivial
    have hreplies := hnone (.poll false true) trivial
    simp only [advance, hplace] at hstream hreplies
    exact ⟨rfl, by simpa using hstream, by simpa using hreplies⟩
  | forwardAsReq replies pc =>
    obtain ⟨-, htakes, -⟩ := hshows.at_place _ hplace
    cases pc with
    | identity =>
      obtain ⟨part, http, hrecv⟩ := Inlet.recv_ready _ (hprompt.stream replies hplace)
      simpa [advance, hplace, hrecv, Forwarding.received] using hnone .recvHttp trivial
    | parts id frame =>
      obtain ⟨part, http, hrecv⟩ := Inlet.recv_ready _ (Inlet.ready_within _ htakes.1)
      simpa [advance, hplace, hrecv, Forwarding.received] using hnone .recvHttp trivial
    | sends left =>
      rcases left with _ | ⟨⟨frame, more⟩, left⟩
      · simpa [advance, hplace] using hnone .leave trivial
      · obtain ⟨hpolling, -⟩ := stuck_worker hprompt hshows hstuck hrunning 0 t ht
        have hconnected : t.connected = true := by simp [WorkerThread.connected, hpolling]
        cases more with
        | true => simpa [advance, hplace] using hnone (.sendRequest 0) trivial
        | false => simpa [advance, hplace, ht, hconnected] using hnone (.sendRequest 0) trivial
  | forwardAsStream pc =>
    obtain ⟨-, -, hgives⟩ := hshows.at_place _ hplace
    cases pc with
    | identity =>
      obtain ⟨s, hmem, hready⟩ := hshows.returning_ready hprompt hplace
      obtain ⟨i, hs⟩ := List.mem_iff_getElem?.mp hmem
      obtain ⟨part, outgoing, hrecv⟩ := Inlet.recv_ready _ hready
      simpa [advance, hplace, hs, hrecv, Forwarding.received] using hnone (.recvReply i) trivial
    | parts id frame =>
      have hready := Inlet.ready_within (t.outgoing p.reply) hgives.1
      obtain ⟨part, outgoing, hrecv⟩ := Inlet.recv_ready _ hready
      simpa [advance, hplace, ht, hrecv, Forwarding.received] using hnone (.recvReply 0) trivial
    | sends left =>
      cases left with
      | nil => simpa [advance, hplace] using hnone .leave trivial
      | cons first left => simpa [advance, hplace] using hnone .sendHttp trivial
  | failed => exact absurd hplace hfailed

/-- A socket with nothing to receive has no messages. -/
theorem not_ready_nil (s : Inlet Bytes) (l : List Message) (hwaiting : s.waiting = l.map (·.frames))
    (hrest : s.rest = []) (h : s.ready = false) : l = [] := by
  have hwhole : ∀ m ∈ s.waiting, m ≠ [] := by
    rw [hwaiting]
    intro m hm
    obtain ⟨a, -, rfl⟩ := List.mem_map.mp hm
    exact a.frames_ne_nil
  by_contra hne
  have hsome : s.waiting ≠ [] := by simpa [hwaiting] using hne
  rw [(s.ready_waiting hwhole hrest).mpr hsome] at h
  simp at h

/-- Where nothing more can happen by itself, nothing is on its way. -/
theorem stuck_settled [Nonempty World] (hprompt : p.Prompt) (hshows : Shows answer p e)
    (hstuck : (machine answer).Stuck ProcessAction.Internal p) (hrunning : p.terminated = false)
    (hfailed : p.place ≠ .failed) :
    p.written = wire e ∧ waiting e = [] ∧ handling e = [] ∧ returning e = [] := by
  obtain ⟨hplace, hhttp, houtgoing⟩ := stuck_server hprompt hshows hstuck hrunning hfailed
  obtain ⟨-, ⟨hrest, -, hwaiting⟩, hreply, hwritten⟩ := hshows.at_place _ hplace
  have hin : e.httpIn = [] := by
    have hnil := not_ready_nil p.http (e.httpIn.map (·.message)) (by simp [hwaiting]) hrest hhttp
    simpa using hnil
  have hlines : ∀ w ∈ e.workers, w.queue = [] ∧ w.busy = none := by
    intro w hw
    obtain ⟨i, hi⟩ := List.mem_iff_getElem?.mp hw
    obtain ⟨hlt, -⟩ := List.getElem?_eq_some_iff.mp hi
    have ht := List.getElem?_eq_getElem (hshows.workers.1 ▸ hlt)
    have hworker := hshows.workers.2 i _ w ht hi
    obtain ⟨hpolling, hready⟩ := stuck_worker hprompt hshows hstuck hrunning i _ ht
    have hhandles := hworker.handles
    rw [hpolling] at hhandles
    obtain ⟨hrequest, -, hbusy⟩ := hhandles
    have hnil := not_ready_nil _ (w.queue.map (·.message)) (by simp [hworker.queue]) hrequest hready
    exact ⟨by simpa using hnil, hbusy⟩
  have hreplies : e.replies = [] := by
    by_contra hne
    obtain ⟨reply, hmem⟩ := List.exists_mem_of_ne_nil _ hne
    have hlt : reply.worker < p.workers.length := hshows.count ▸ hshows.owners reply hmem
    have ht := List.getElem?_eq_getElem hlt
    obtain ⟨w, -, hworker⟩ := hshows.workers.get _ _ ht
    have hready := houtgoing _ (List.mem_of_getElem? ht)
    have hnil := not_ready_nil _ ((e.replies.filter (·.worker = reply.worker)).map (·.message))
      (by simp [WorkerThread.outgoing, hworker.replies]) hreply hready
    have hin : reply ∈ e.replies.filter (·.worker = reply.worker) :=
      List.mem_filter.mpr ⟨hmem, by simp⟩
    simp only [List.map_eq_nil_iff] at hnil
    simp [hnil] at hin
  refine ⟨hwritten, ?_, ?_, by simp [returning, hreplies]⟩
  · simpa [waiting, hin, List.flatMap_eq_nil_iff] using fun w hw => (hlines w hw).1
  · simpa [handling, List.flatMap_eq_nil_iff] using fun w hw => (hlines w hw).2

/-- All threads are in their polls, with nothing to receive. -/
def Idle (p : Process) : Prop :=
  p.place = .polling ∧ p.http.ready = false ∧ ∀ t ∈ p.workers,
    t.place = .polling ∧ t.statuses = [] ∧ t.requests.ready = false ∧
      (t.outgoing p.reply).ready = false

instance (p : Process) : Decidable p.Idle := inferInstanceAs (Decidable (_ ∧ _))

theorem Idle.unfailed (h : p.Idle) : p.place ≠ .failed := by
  rw [h.1]
  simp

theorem idle_stuck (h : p.Idle) : (machine answer).Stuck ProcessAction.Internal p := by
  obtain ⟨hplace, hhttp, hworkers⟩ := h
  intro a ha
  have hnone : p.advance answer a = none := by
    cases a with
    | deliver m => exact ha.elim
    | throws => exact ha.elim
    | launch | announce _ | recvHttp | sendRequest _ | recvReply _ | sendHttp | leave =>
      simp [advance, hplace]
    | poll stream replies =>
      have hreplies : (p.workers.any fun t => (t.outgoing p.reply).ready) = false := by
        simp only [List.any_eq_false, Bool.not_eq_true]
        exact fun t ht => (hworkers t ht).2.2.2
      cases stream <;> cases replies <;> simp [advance, hplace, hhttp, hreplies]
    | worker i a =>
      cases ht : p.workers[i]? with
      | none => simp [advance, ht]
      | some t =>
        obtain ⟨hpolling, hstatuses, hrequests, -⟩ := hworkers t (List.mem_of_getElem? ht)
        have hno : t.step answer a = none := by
          cases a with
          | pollThrows => exact ha.elim
          | poll status request =>
            cases status <;> cases request <;>
              simp [WorkerThread.step, hpolling, hstatuses, hrequests]
          | connect | test | recvStatus | recvRequest | answer _ | send | leave =>
            simp [WorkerThread.step, hpolling]
        simp [advance, ht, hno]
  simp [machine, step, hnone]

end Stuck

/-- All data was answered once, to the identity it came from, and all of it was written. -/
def Answered (answer : World → Bytes → Option Bytes) (p : Process) : Prop :=
  ∃ answers : List (Answer World), p.written = answers.flatMap Answer.wire ∧
    (answers.map fun a => (a.id, a.frame)).Perm p.data ∧
    ∀ a ∈ answers, answer a.world a.frame = some a.text

theorem settled_answered (hanswer : ∀ world frame, answer world frame ≠ some []) (p : Process)
    (e : Exchange World) (hshows : Shows answer p e) (hpartitioned : Partitioned answer e)
    (hwritten : p.written = wire e) (hwaiting : waiting e = []) (hhandling : handling e = [])
    (hreturning : returning e = []) : Answered answer p := by
  have hall : responses e = e.answered := by
    apply List.filter_eq_self.mpr
    intro reply hreply
    obtain ⟨text, htext, hmessage⟩ := hpartitioned.computed reply (List.mem_append_right _ hreply)
    have hframe : reply.message.frame = text := by
      rw [hmessage]
      simp [handleRequest, Message.frame]
    have hne : text ≠ [] := fun hnil => hanswer _ _ (hnil ▸ htext)
    simpa [hframe] using hne
  have hperm := (partition_perm answer e hpartitioned).map Prod.snd
  simp only [hwaiting, hhandling, hreturning, settled, hshows.abandoned, List.append_nil,
    List.nil_append, List.map_map] at hperm
  refine ⟨answers e, hwritten.trans (answers_wire e hpartitioned), ?_,
    answers_computed e hpartitioned⟩
  rw [← shown_data hshows, answers, hall, List.map_map]
  exact hperm

/-- A server whose threads have come to rest without a failure has answered all data. -/
theorem Sound.answered [Nonempty World] {p : Process} (h : Sound answer p)
    (hanswer : ∀ world frame, answer world frame ≠ some [])
    (hstuck : (machine answer).Stuck ProcessAction.Internal p) (hrunning : p.terminated = false)
    (hfailed : p.place ≠ .failed) : Answered answer p := by
  obtain ⟨hprompt, e, -, hshows, hpartitioned⟩ := h
  obtain ⟨hwritten, hwaiting, hhandling, hreturning⟩ :=
    stuck_settled hprompt hshows hstuck hrunning hfailed
  exact settled_answered hanswer p e hshows hpartitioned hwritten hwaiting hhandling hreturning

/-- The threads have come to rest: none failed, and none ended the program. -/
structure Rests (answer : World → Bytes → Option Bytes) (p : Process) : Prop where
  reachable : (machine answer).Reachable p
  stuck : (machine answer).Stuck ProcessAction.Internal p
  running : p.terminated = false
  unfailed : p.place ≠ .failed

theorem Rests.answered [Nonempty World] {p : Process} (h : Rests answer p)
    (hanswer : ∀ world frame, answer world frame ≠ some []) : Answered answer p :=
  (reachable_sound p h.reachable).answered hanswer h.stuck h.running h.unfailed

variable {Site : Type}

instance : Nonempty (Surroundings Site) :=
  ⟨⟨.mGet, .httpUnknown, fun _ _ => .error (.fault (.httpInvalidRequest []))⟩⟩

/-- Where the threads can do no more by themselves, and no exception has left one of them, every
message with data has got its one response, followed by the close of its connection. -/
theorem stuck_answered (bld : Build) (websites : Websites Site) (p : Process)
    (h : (machine (HttpWorker.answer bld websites)).Reachable p)
    (hstuck : (machine (HttpWorker.answer bld websites)).Stuck ProcessAction.Internal p)
    (hrunning : p.terminated = false) (hfailed : p.place ≠ .failed) :
    Answered (HttpWorker.answer bld websites) p :=
  (reachable_sound p h).answered (answer_ne_nil bld websites) hstuck hrunning hfailed

theorem stuck_answered_sample : (sampleProcess 38).data.length = 1 ∧
    Answered (HttpWorker.answer plainBuild sampleWebsites) (sampleProcess 38) := by
  obtain ⟨hdata, hidle, hrunning⟩ : (sampleProcess 38).data.length = 1 ∧
      (sampleProcess 38).Idle ∧ (sampleProcess 38).terminated = false := by
    decide
  exact ⟨hdata, stuck_answered _ _ _ (afterActions_reachable _ _ _ 38) (idle_stuck hidle) hrunning
    hidle.unfailed⟩

/-- The threads never go on for ever by themselves: each action leaves less to do, and what they end
in is a failure of one of them or a state with all data answered. -/
theorem reachable_settles (bld : Build) (websites : Websites Site) (p : Process)
    (h : (machine (HttpWorker.answer bld websites)).Reachable p) :
    (∀ actions p', (∀ a ∈ actions, ProcessAction.Internal a) →
        (machine (HttpWorker.answer bld websites)).run p actions = some p' →
        actions.length + p'.rank ≤ p.rank) ∧
      ∃ actions p', (∀ a ∈ actions, ProcessAction.Internal a) ∧
        (machine (HttpWorker.answer bld websites)).run p actions = some p' ∧
        (p'.place = .failed ∨ p'.terminated = true ∨
          Answered (HttpWorker.answer bld websites) p') := by
  let M := machine (HttpWorker.answer bld websites)
  have hinv : ∀ s s' a, M.Reachable s → M.step s a = some s' → M.Reachable s' :=
    fun s s' a hs hstep => .step s s' a hs hstep
  have hrank : ∀ s s' a, M.Reachable s → ProcessAction.Internal a → M.step s a = some s' →
      s'.rank < s.rank := by
    intro s s' a hs ha hstep
    obtain ⟨-, e, -, hshows, -⟩ := reachable_sound s hs
    exact hshows.rank_lt a ha hstep
  refine ⟨?_, ?_⟩
  · intro actions p' hall hrun
    exact M.length_le_rank M.Reachable _ rank hinv hrank p p' actions h hall hrun
  · obtain ⟨actions, p', hall, hrun, hstuck⟩ :=
      M.exists_stuck M.Reachable ProcessAction.Internal rank hinv hrank p h
    have hreachable := M.reachable_run p p' actions h hrun
    refine ⟨actions, p', hall, hrun, ?_⟩
    by_cases hfailed : p'.place = .failed
    · exact Or.inl hfailed
    · by_cases hterminated : p'.terminated = true
      · exact Or.inr (Or.inl hterminated)
      · exact Or.inr (Or.inr ((reachable_sound p' hreachable).answered
          (answer_ne_nil bld websites) hstuck (by simpa using hterminated) hfailed))

theorem reachable_settles_sample :
    ∃ actions p', (∀ a ∈ actions, ProcessAction.Internal a) ∧
      (machine (HttpWorker.answer plainBuild sampleWebsites)).run (sampleProcess 9) actions =
        some p' ∧
      (p'.place = .failed ∨ p'.terminated = true ∨
        Answered (HttpWorker.answer plainBuild sampleWebsites) p') :=
  (reachable_settles _ _ _ (afterActions_reachable _ _ _ 9)).2

end Process
end HttpCpp
