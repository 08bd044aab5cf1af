import HttpCpp.Server.Exchange
import HttpCpp.Server.Process

namespace HttpCpp
namespace Process

open HttpServer HttpWorker Exchange

variable {World : Type}

/-- The identity and a frame on their way to a socket: both before it, or the identity in it. -/
def Outgoing (staged : List Bytes) (left : List (Bytes × Bool)) (id : ZmqIdentity)
    (frame : Bytes) : Prop :=
  staged = [] ∧ left = [(id.identity, true), (frame, false)] ∨
    staged = [id.identity] ∧ left = [(frame, false)]

theorem Outgoing.send {staged : List Bytes} {left : List (Bytes × Bool)} {id : ZmqIdentity}
    {frame part : Bytes} {more : Bool} (h : Outgoing staged ((part, more) :: left) id frame) :
    more = true ∧ Outgoing (staged ++ [part]) left id frame ∨
      more = false ∧ left = [] ∧ staged ++ [part] = [id.identity, frame] := by
  rcases h with ⟨rfl, hleft⟩ | ⟨rfl, hleft⟩
  · obtain ⟨⟨rfl, rfl⟩, rfl⟩ := by simpa using hleft
    exact Or.inl ⟨rfl, Or.inr ⟨rfl, rfl⟩⟩
  · obtain ⟨⟨rfl, rfl⟩, rfl⟩ := by simpa using hleft
    exact Or.inr ⟨rfl, rfl, rfl⟩

theorem Outgoing.left_ne_nil {staged : List Bytes} {left : List (Bytes × Bool)} {id : ZmqIdentity}
    {frame : Bytes} (h : Outgoing staged left id frame) : left ≠ [] := by
  rcases h with ⟨-, rfl⟩ | ⟨-, rfl⟩
  · simp
  · simp

/-- What a worker in some place of its loop has done of the message it works on: the frames left of
it, and those already given of the reply. -/
def Handles (answer : World → Bytes → Option Bytes) (place : WorkerPlace)
    (rest staged : List Bytes) (busy : Option Arrival) : Prop :=
  match place with
  | .parts id frame => rest ≠ [] ∧ staged = [] ∧
      ∃ a, busy = some a ∧ a.message.id = id ∧ frame ++ rest.flatten = a.message.frame
  | .answering id frame => rest = [] ∧ staged = [] ∧
      ∃ a, busy = some a ∧ a.message.id = id ∧ frame = a.message.frame
  | .sends left => rest = [] ∧ (left = [] ∧ staged = [] ∧ busy = none ∨
      ∃ a world text, busy = some a ∧ answer world a.message.frame = some text ∧
        Outgoing staged left a.message.id text)
  | .terminated => True
  | _ => rest = [] ∧ staged = [] ∧ busy = none

/-- A thread of a worker shows a line of the exchange, and the replies that left it. -/
structure ShowsWorker (answer : World → Bytes → Option Bytes) (t : WorkerThread) (w : WorkerLine)
    (replies : List (Reply World)) : Prop where
  queue : t.requests.waiting = w.queue.map (·.message.frames)
  whole : ∀ a ∈ w.queue, a.message.parts ≠ []
  replies : t.replies.sent = replies.map (·.message.frames)
  handles : Handles answer t.place t.requests.rest t.replies.staged w.busy

variable {answer : World → Bytes → Option Bytes}

/-- A step that only moves a thread between places where it works on no message. -/
theorem ShowsWorker.move {t : WorkerThread} {w : WorkerLine} {replies : List (Reply World)}
    (h : ShowsWorker answer t w replies) (running : Bool) (statuses : List Bytes)
    (place : WorkerPlace)
    (hmove : Handles answer t.place t.requests.rest t.replies.staged w.busy →
      Handles answer place t.requests.rest t.replies.staged w.busy) :
    ShowsWorker answer { t with running := running, statuses := statuses, place := place } w
      replies :=
  ⟨h.queue, h.whole, h.replies, hmove h.handles⟩

/-- Receiving the first frame of a request takes the request from the line. -/
theorem ShowsWorker.take {t : WorkerThread} {w : WorkerLine} {replies : List (Reply World)}
    (h : ShowsWorker answer t w replies) (hplace : t.place = .identity) (part : Bytes)
    (requests : Inlet Bytes) (hrecv : t.requests.recv = some (part, requests)) :
    ∃ a rest, w = ⟨a :: rest, none⟩ ∧ ShowsWorker answer
      { t with requests := requests, place := .parts (ZmqIdentity.read part) [] } ⟨rest, some a⟩
      replies := by
  obtain ⟨queue, busy⟩ := w
  have hhandles := h.handles
  rw [hplace] at hhandles
  obtain ⟨hrest, hstaged, rfl⟩ := hhandles
  have hwaiting := Inlet.recv_between _ _ _ hrecv hrest
  rw [h.queue] at hwaiting
  obtain ⟨a, rest, rfl, hframes, hqueue⟩ := List.map_eq_cons_iff.mp hwaiting
  have hparts : requests.rest = a.message.parts := (List.cons.inj hframes).2.symm
  have hpart : part = a.message.id.identity := (List.cons.inj hframes).1.symm
  refine ⟨a, rest, rfl, hqueue.symm, ?_, h.replies, ?_⟩
  · intro b hb
    exact h.whole b (List.mem_cons_of_mem _ hb)
  · refine ⟨?_, hstaged, a, rfl, ?_, ?_⟩
    · rw [hparts]
      exact h.whole a (List.mem_cons_self ..)
    · rw [hpart, ZmqIdentity.read_identity]
    · rw [hparts]
      rfl

/-- The loop over the parts gathers the frame of the message. -/
theorem ShowsWorker.gather {t : WorkerThread} {w : WorkerLine} {replies : List (Reply World)}
    (h : ShowsWorker answer t w replies) (id : ZmqIdentity) (frame part : Bytes)
    (hplace : t.place = .parts id frame) (requests : Inlet Bytes)
    (hrecv : t.requests.recv = some (part, requests)) :
    ShowsWorker answer { t with
      requests := requests
      place := if requests.more then .parts id (frame ++ part)
        else .answering id (frame ++ part) } w replies := by
  have hhandles := h.handles
  rw [hplace] at hhandles
  obtain ⟨hrest, hstaged, a, hbusy, hid, hframe⟩ := hhandles
  obtain ⟨hcons, hwaiting⟩ := Inlet.recv_within _ _ _ hrecv hrest
  rw [hcons, List.flatten_cons, ← List.append_assoc] at hframe
  refine ⟨hwaiting ▸ h.queue, h.whole, h.replies, ?_⟩
  cases hmore : requests.more with
  | true => exact ⟨(Inlet.more_iff _).mp hmore, hstaged, a, hbusy, hid, hframe⟩
  | false =>
    have hlast := (Inlet.more_false_iff _).mp hmore
    rw [hlast, List.flatten_nil, List.append_nil] at hframe
    exact ⟨hlast, hstaged, a, hbusy, hid, hframe⟩

/-- A step of a worker changes nothing of the line it shows, or takes a request from its queue, or
ends the work on it with a reply. -/
theorem ShowsWorker.step {t t' : WorkerThread} {w : WorkerLine} {replies : List (Reply World)}
    (h : ShowsWorker answer t w replies) (a : WorkerAction World)
    (hstep : t.step answer a = some t') :
    ShowsWorker answer t' w replies ∨
      (∃ b rest, w = ⟨b :: rest, none⟩ ∧ ShowsWorker answer t' ⟨rest, some b⟩ replies) ∨
      ∃ b world text, w.busy = some b ∧ answer world b.message.frame = some text ∧
        ∀ reply : Reply World, reply.message = handleRequest (fun _ => text) b.message →
          ShowsWorker answer t' ⟨w.queue, none⟩ (replies ++ [reply]) := by
  cases a with
  | connect =>
    obtain ⟨hplace, rfl⟩ := WorkerThread.step_connect hstep
    refine Or.inl (h.move t.running t.statuses .testing ?_)
    rw [hplace]
    exact id
  | test =>
    obtain ⟨hplace, rfl⟩ := WorkerThread.step_test hstep
    refine Or.inl (h.move t.running t.statuses _ ?_)
    rw [hplace]
    cases t.running <;> exact id
  | poll status request =>
    obtain ⟨hplace, -, -, -, rfl⟩ := WorkerThread.step_poll status request hstep
    refine Or.inl (h.move t.running t.statuses _ ?_)
    rw [hplace]
    cases status <;> exact id
  | pollThrows =>
    obtain ⟨hplace, rfl⟩ := WorkerThread.step_pollThrows hstep
    refine Or.inl (h.move t.running t.statuses .testing ?_)
    rw [hplace]
    exact id
  | recvStatus =>
    obtain ⟨request, status, statuses, hplace, -, rfl⟩ := WorkerThread.step_recvStatus hstep
    refine Or.inl (h.move _ statuses _ ?_)
    rw [hplace]
    cases request <;> exact id
  | recvRequest =>
    obtain ⟨part, requests, hrecv, ⟨hplace, rfl⟩ | ⟨id, frame, hplace, rfl⟩⟩ :=
      WorkerThread.step_recvRequest hstep
    · exact Or.inr (Or.inl (h.take hplace part requests hrecv))
    · exact Or.inl (h.gather id frame part hplace requests hrecv)
  | answer world =>
    obtain ⟨id, frame, hplace, hanswer⟩ := WorkerThread.step_answer world hstep
    have hhandles := h.handles
    rw [hplace] at hhandles
    obtain ⟨hrest, hstaged, b, hbusy, rfl, rfl⟩ := hhandles
    rcases hanswer with ⟨-, rfl⟩ | ⟨text, htext, rfl⟩
    · exact Or.inl ⟨h.queue, h.whole, h.replies, trivial⟩
    · exact Or.inl ⟨h.queue, h.whole, h.replies, hrest,
        Or.inr ⟨b, world, text, hbusy, htext, Or.inl ⟨hstaged, rfl⟩⟩⟩
  | send =>
    obtain ⟨frame, more, left, hplace, rfl⟩ := WorkerThread.step_send hstep
    have hhandles := h.handles
    rw [hplace] at hhandles
    obtain ⟨hrest, ⟨hnil, -⟩ | ⟨b, world, text, hbusy, htext, hout⟩⟩ := hhandles
    · simp at hnil
    · rcases hout.send with ⟨rfl, hnext⟩ | ⟨rfl, rfl, hframes⟩
      · exact Or.inl ⟨h.queue, h.whole, h.replies, hrest,
          Or.inr ⟨b, world, text, hbusy, htext, hnext⟩⟩
      · refine Or.inr (Or.inr ⟨b, world, text, hbusy, htext, ?_⟩)
        intro reply hreply
        refine ⟨h.queue, h.whole, ?_, hrest, Or.inl ⟨rfl, rfl, rfl⟩⟩
        rw [Outlet.send_last, hframes, h.replies, List.map_append, List.map_singleton, hreply]
        rfl
  | leave =>
    obtain ⟨hplace, rfl⟩ := WorkerThread.step_leave hstep
    refine Or.inl (h.move t.running t.statuses .testing ?_)
    rw [hplace]
    rintro ⟨hrest, ⟨-, hstaged, hbusy⟩ | ⟨b, world, text, -, -, hout⟩⟩
    · exact ⟨hrest, hstaged, hbusy⟩
    · exact absurd rfl hout.left_ne_nil

/-- What the thread of the server, in some place of its loop, has done of the messages that wait:
the frames left of the first one, and those already given of the request. -/
def Takes (place : ServerPlace) (http : Inlet Bytes) (staged : List Bytes)
    (httpIn : List Arrival) : Prop :=
  match place with
  | .forwardAsReq _ (.parts id frame) => http.rest ≠ [] ∧ staged = [] ∧
      ∃ a rest, httpIn = a :: rest ∧ http.waiting = rest.map (·.message.frames) ∧
        a.message.id = id ∧ frame ++ http.rest.flatten = a.message.frame
  | .forwardAsReq _ (.sends left) => http.rest = [] ∧
      (left = [] ∧ staged = [] ∧ http.waiting = httpIn.map (·.message.frames) ∨
        ∃ a rest, httpIn = a :: rest ∧ http.waiting = rest.map (·.message.frames) ∧
          a.message.frame ≠ [] ∧ Outgoing staged left a.message.id a.message.frame)
  | .failed => True
  | _ => http.rest = [] ∧ staged = [] ∧ http.waiting = httpIn.map (·.message.frames)

/-- What it has done of the replies it took, whose frames on the wire are given. -/
def Gives (place : ServerPlace) (reply written wire : List Bytes) : Prop :=
  match place with
  | .forwardAsStream (.parts id frame) => reply ≠ [] ∧
      written ++ (streamFrames id (frame ++ reply.flatten)).map Prod.fst = wire
  | .forwardAsStream (.sends left) => reply = [] ∧ written ++ left.map Prod.fst = wire
  | .failed => written <+: wire
  | _ => reply = [] ∧ written = wire

/-- The workers not yet launched have not started, and no others. -/
def Launched (place : ServerPlace) (workers : List WorkerThread) : Prop :=
  ∀ i t, workers[i]? = some t → (t.place = .unstarted ↔ ∃ k ≤ i, place = .launching k)

def ShowsWorkers (answer : World → Bytes → Option Bytes) (threads : List WorkerThread)
    (lines : List WorkerLine) (replies : List (Reply World)) : Prop :=
  threads.length = lines.length ∧ ∀ i t w, threads[i]? = some t → lines[i]? = some w →
    ShowsWorker answer t w (replies.filter (·.worker = i))

/-- The frames of everything the exchange has sent to the stream socket. -/
def wire (e : Exchange World) : List Bytes := e.sent.flatMap Message.frames

/-- The threads and sockets show a state of the exchange. -/
structure Shows (answer : World → Bytes → Option Bytes) (p : Process) (e : Exchange World) :
    Prop where
  count : p.workers.length = workerCount
  workers : ShowsWorkers answer p.workers e.workers e.replies
  launched : Launched p.place p.workers
  whole : ∀ a ∈ e.httpIn, a.message.parts ≠ []
  takes : Takes p.place p.http p.staged e.httpIn
  gives : Gives p.place p.reply p.written (wire e)
  received : e.received.map (·.message) = p.received
  abandoned : e.abandoned = []
  owners : ∀ reply ∈ e.replies, reply.worker < workerCount

theorem Launched.move {place place' : ServerPlace} {workers : List WorkerThread}
    (h : Launched place workers) (hplace : ∀ k, place ≠ .launching k)
    (hplace' : ∀ k, place' ≠ .launching k) : Launched place' workers := by
  intro i t ht
  rw [h i t ht]
  constructor
  · rintro ⟨k, -, hk⟩
    exact absurd hk (hplace k)
  · rintro ⟨k, -, hk⟩
    exact absurd hk (hplace' k)

theorem Takes.deliver {place : ServerPlace} {http : Inlet Bytes} {staged : List Bytes}
    {httpIn : List Arrival} (h : Takes place http staged httpIn) (a : Arrival) :
    Takes place (http.deliver a.message.frames) staged (httpIn ++ [a]) := by
  have hidle : http.rest = [] ∧ staged = [] ∧ http.waiting = httpIn.map (·.message.frames) →
      (http.deliver a.message.frames).rest = [] ∧ staged = [] ∧
        (http.deliver a.message.frames).waiting = (httpIn ++ [a]).map (·.message.frames) := by
    rintro ⟨hrest, hstaged, hwaiting⟩
    exact ⟨hrest, hstaged, by simp [hwaiting]⟩
  cases place with
  | forwardAsReq replies pc =>
    cases pc with
    | identity => exact hidle h
    | parts id frame =>
      obtain ⟨hrest, hstaged, b, rest, rfl, hwaiting, hid, hframe⟩ := h
      exact ⟨hrest, hstaged, b, rest ++ [a], rfl, by simp [hwaiting], hid, hframe⟩
    | sends left =>
      obtain ⟨hrest, ⟨hleft, hstaged, hwaiting⟩ | ⟨b, rest, rfl, hwaiting, hframe, hout⟩⟩ := h
      · exact ⟨hrest, Or.inl ⟨hleft, hstaged, by simp [hwaiting]⟩⟩
      · exact ⟨hrest, Or.inr ⟨b, rest ++ [a], rfl, by simp [hwaiting], hframe, hout⟩⟩
  | failed => trivial
  | launching _ | announcing | polling | forwardAsStream _ => exact hidle h

theorem Gives.written_prefix {place : ServerPlace} {reply written wire : List Bytes}
    (h : Gives place reply written wire) : written <+: wire := by
  cases place with
  | forwardAsStream pc =>
    cases pc with
    | identity => exact h.2 ▸ List.prefix_rfl
    | parts _ _ | sends _ => exact ⟨_, h.2⟩
  | failed => exact h
  | launching _ | announcing | polling | forwardAsReq _ _ => exact h.2 ▸ List.prefix_rfl

theorem ShowsWorkers.get {threads : List WorkerThread} {lines : List WorkerLine}
    {replies : List (Reply World)} (h : ShowsWorkers answer threads lines replies) (i : Nat)
    (t : WorkerThread) (ht : threads[i]? = some t) :
    ∃ w, lines[i]? = some w ∧ ShowsWorker answer t w (replies.filter (·.worker = i)) := by
  obtain ⟨hlen, hall⟩ := h
  obtain ⟨hi, -⟩ := List.getElem?_eq_some_iff.mp ht
  have hw := List.getElem?_eq_getElem (hlen ▸ hi)
  exact ⟨_, hw, hall i t _ ht hw⟩

/-- A change of one thread and its line, which may change the replies of that worker. -/
theorem ShowsWorkers.set {threads : List WorkerThread} {lines : List WorkerLine}
    {replies replies' : List (Reply World)} (h : ShowsWorkers answer threads lines replies)
    (i : Nat) (t : WorkerThread) (w : WorkerLine)
    (hsame : ∀ j ≠ i, replies'.filter (·.worker = j) = replies.filter (·.worker = j))
    (hset : ShowsWorker answer t w (replies'.filter (·.worker = i))) :
    ShowsWorkers answer (threads.set i t) (lines.set i w) replies' := by
  obtain ⟨hlen, hall⟩ := h
  refine ⟨by simp [hlen], ?_⟩
  intro j t' w' ht hw
  rcases getElem?_set_cases _ _ _ _ _ ht with ⟨rfl, rfl⟩ | ⟨hj, ht⟩
  · rcases getElem?_set_cases _ _ _ _ _ hw with ⟨-, rfl⟩ | ⟨hj, -⟩
    · exact hset
    · exact absurd rfl hj
  · rw [List.getElem?_set_ne (Ne.symm hj)] at hw
    rw [hsame j hj]
    exact hall j t' w' ht hw

/-- A change of one thread that shows the same line as before. -/
theorem ShowsWorkers.set_thread {threads : List WorkerThread} {lines : List WorkerLine}
    {replies : List (Reply World)} (h : ShowsWorkers answer threads lines replies) (i : Nat)
    (t : WorkerThread) (w : WorkerLine) (hw : lines[i]? = some w)
    (hset : ShowsWorker answer t w (replies.filter (·.worker = i))) :
    ShowsWorkers answer (threads.set i t) lines replies := by
  have hchanged := h.set i t w (fun _ _ => rfl) hset
  obtain ⟨hi, rfl⟩ := List.getElem?_eq_some_iff.mp hw
  rwa [List.set_getElem_self] at hchanged

theorem Launched.set {place : ServerPlace} {workers : List WorkerThread}
    (h : Launched place workers) (i : Nat) (t t' : WorkerThread) (ht : workers[i]? = some t)
    (hsame : t'.place = .unstarted ↔ t.place = .unstarted) : Launched place (workers.set i t') := by
  intro j s hs
  rcases getElem?_set_cases _ _ _ _ _ hs with ⟨rfl, rfl⟩ | ⟨-, hj⟩
  · rw [hsame]
    exact h j t ht
  · exact h j s hj

end Process
end HttpCpp
