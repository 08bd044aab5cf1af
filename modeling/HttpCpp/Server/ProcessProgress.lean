import HttpCpp.Server.ProcessRefinement

namespace HttpCpp

/-- The actions after which a thread has got further; what comes from outside is not among them:
messages, and exceptions of a poll. -/
def ProcessAction.Internal {World : Type} : ProcessAction World → Prop
  | .deliver _ | .throws | .worker _ .pollThrows => False
  | _ => True

namespace WorkerPlace

/-- How many steps are left up to the next poll, at most; the frames to receive are not counted. -/
def rank : WorkerPlace → Nat
  | .unstarted | .finished | .terminated => 0
  | .identity => 1
  | .handleStatus _ => 2
  | .polling => 3
  | .testing => 4
  | .connecting => 5
  | .sends left => 5 + 10 * left.length
  | .answering _ _ | .parts _ _ => 26

end WorkerPlace

namespace WorkerThread

/-- A request weighs more than the reply to it. -/
def rank (t : WorkerThread) : Nat :=
  t.place.rank + 3 * t.statuses.length + t.requests.weight 25 + t.replies.staged.length +
    (t.replies.sent.map fun m => m.length + 7).sum

theorem rank_start (t : WorkerThread) : t.start.rank ≤ t.rank + 5 := by
  simp only [rank, start, WorkerPlace.rank]
  omega

theorem rank_hear (t : WorkerThread) (status : Bytes) : (t.hear status).rank ≤ t.rank + 3 := by
  by_cases h : t.connected = true
  · simp only [hear, h, if_true, rank, List.length_append, List.length_singleton]
    omega
  · simp [hear, h]

theorem rank_request (t : WorkerThread) (message : List Bytes) :
    (t.request message).rank = t.rank + message.length + 25 := by
  simp only [rank, request, Inlet.weight_deliver]
  omega

end WorkerThread

namespace ServerPlace

def rank : ServerPlace → Nat
  | .failed => 0
  | .forwardAsStream .identity => 1
  | .forwardAsReq _ .identity => 2
  | .polling => 3
  | .forwardAsStream (.sends left) => 4 + left.length
  | .forwardAsStream (.parts _ _) => 8
  | .forwardAsReq _ (.sends left) => 4 + 27 * left.length
  | .forwardAsReq _ (.parts _ _) => 58
  | .announcing => 3 * Process.workerCount + 4
  | .launching i => 3 * Process.workerCount + 5 + 6 * (Process.workerCount - i)

end ServerPlace

namespace Process

open HttpServer

variable {World : Type} {answer : World → Bytes → Option Bytes}

/-- A message from outside weighs more than the request that is made of it. -/
def rank (p : Process) : Nat :=
  p.place.rank + p.http.weight 56 + p.reply.length + p.staged.length +
    (p.workers.map WorkerThread.rank).sum

/-- Every step of a worker but the exception of a poll lowers its rank. -/
theorem ShowsWorker.rank_lt {t t' : WorkerThread} {w : WorkerLine} {replies : List (Reply World)}
    (h : ShowsWorker answer t w replies) (a : WorkerAction World) (ha : a ≠ .pollThrows)
    (hstep : t.step answer a = some t') : t'.rank < t.rank := by
  have hhandles := h.handles
  cases a with
  | connect =>
    obtain ⟨hplace, rfl⟩ := WorkerThread.step_connect hstep
    simp only [WorkerThread.rank, hplace, WorkerPlace.rank]
    omega
  | test =>
    obtain ⟨hplace, rfl⟩ := WorkerThread.step_test hstep
    cases hrunning : t.running with
    | true =>
      simp only [WorkerThread.rank, hplace, if_true, WorkerPlace.rank]
      omega
    | false =>
      simp only [WorkerThread.rank, hplace, Bool.false_eq_true, if_false, WorkerPlace.rank]
      omega
  | poll status request =>
    obtain ⟨hplace, -, -, -, rfl⟩ := WorkerThread.step_poll status request hstep
    cases status with
    | true =>
      simp only [WorkerThread.rank, hplace, if_true, WorkerPlace.rank]
      omega
    | false =>
      simp only [WorkerThread.rank, hplace, Bool.false_eq_true, if_false, WorkerPlace.rank]
      omega
  | pollThrows => exact absurd rfl ha
  | recvStatus =>
    obtain ⟨request, status, statuses, hplace, hstatuses, rfl⟩ := WorkerThread.step_recvStatus hstep
    cases request with
    | true =>
      simp only [WorkerThread.rank, hplace, hstatuses, if_true, WorkerPlace.rank, List.length_cons]
      omega
    | false =>
      simp only [WorkerThread.rank, hplace, hstatuses, Bool.false_eq_true, if_false,
        WorkerPlace.rank, List.length_cons]
      omega
  | recvRequest =>
    obtain ⟨part, requests, hrecv, ⟨hplace, rfl⟩ | ⟨id, frame, hplace, rfl⟩⟩ :=
      WorkerThread.step_recvRequest hstep
    · rw [hplace] at hhandles
      have hweight := Inlet.weight_between 25 _ _ _ hrecv hhandles.1
      simp only [WorkerThread.rank, hplace, WorkerPlace.rank]
      omega
    · rw [hplace] at hhandles
      have hweight := Inlet.weight_within 25 _ _ _ hrecv hhandles.1
      have hrank : (if requests.more then WorkerPlace.parts id (frame ++ part)
          else .answering id (frame ++ part)).rank = 26 := by
        cases requests.more <;> rfl
      simp only [WorkerThread.rank, hplace, hrank]
      simp only [WorkerPlace.rank]
      omega
  | answer world =>
    obtain ⟨id, frame, hplace, ⟨-, rfl⟩ | ⟨text, -, rfl⟩⟩ := WorkerThread.step_answer world hstep
    · simp only [WorkerThread.rank, hplace, WorkerPlace.rank]
      omega
    · simp only [WorkerThread.rank, hplace, WorkerPlace.rank, List.length_cons, List.length_nil]
      omega
  | send =>
    obtain ⟨frame, more, left, hplace, rfl⟩ := WorkerThread.step_send hstep
    cases more with
    | true =>
      simp only [WorkerThread.rank, hplace, WorkerPlace.rank, Outlet.send_more, List.length_append,
        List.length_cons, List.length_nil]
      omega
    | false =>
      simp only [WorkerThread.rank, hplace, WorkerPlace.rank, Outlet.send_last, List.length_append,
        List.length_cons, List.length_nil, List.map_append, List.map_cons, List.map_nil,
        List.sum_append, List.sum_cons, List.sum_nil]
      omega
  | leave =>
    obtain ⟨hplace, rfl⟩ := WorkerThread.step_leave hstep
    simp only [WorkerThread.rank, hplace, WorkerPlace.rank]
    omega

theorem reqFrames_length (id : ZmqIdentity) (frame : Bytes) : (reqFrames id frame).length ≤ 2 := by
  by_cases h : frame = [] <;> simp [reqFrames, h]

theorem streamFrames_length (id : ZmqIdentity) (frame : Bytes) :
    (streamFrames id frame).length ≤ 4 := by
  by_cases h : frame = [] <;> simp [streamFrames, h]

section Rank

variable {p p' : Process} {e : Exchange World}

theorem Shows.rank_launch (h : Shows answer p e) (hstep : p.advance answer .launch = some p') :
    p'.rank < p.rank := by
  obtain ⟨i, hplace, ⟨t, ht, rfl⟩ | ⟨-, rfl⟩⟩ := advance_launch hstep
  · obtain ⟨hi, -⟩ : ∃ hi : i < p.workers.length, p.workers[i] = t :=
      List.getElem?_eq_some_iff.mp ht
    have hcount := h.count
    have hsum := sum_set WorkerThread.rank p.workers i t t.start ht
    have hstart := t.rank_start
    simp only [rank, hplace, Process.set, ServerPlace.rank]
    omega
  · simp only [rank, hplace, ServerPlace.rank]
    omega

theorem Shows.rank_announce (h : Shows answer p e) (heard : List Nat)
    (hstep : p.advance answer (.announce heard) = some p') : p'.rank < p.rank := by
  obtain ⟨hplace, rfl⟩ := advance_announce heard hstep
  have hsum := sum_mapIdx_le WorkerThread.rank
    (fun i t => if i ∈ heard then t.hear (lit "START") else t) 3 (by
      intro i t
      by_cases hi : i ∈ heard
      · simpa [hi] using t.rank_hear (lit "START")
      · simp [hi]) p.workers
  have hcount := h.count
  simp only [rank, hplace, ServerPlace.rank]
  omega

theorem Shows.rank_recvHttp (h : Shows answer p e) (hstep : p.advance answer .recvHttp = some p') :
    p'.rank < p.rank := by
  obtain ⟨replies, pc, part, http, pc', hplace, hrecv, hpc, rfl⟩ := advance_recvHttp hstep
  obtain ⟨-, htakes, -⟩ := h.at_place _ hplace
  cases pc with
  | identity =>
    have hweight := Inlet.weight_between 56 _ _ _ hrecv htakes.1
    obtain rfl := Option.some.inj hpc
    simp only [rank, hplace, ServerPlace.rank]
    omega
  | parts id frame =>
    have hweight := Inlet.weight_within 56 _ _ _ hrecv htakes.1
    obtain rfl := Option.some.inj hpc
    cases http.more with
    | true =>
      simp only [rank, hplace, if_true, ServerPlace.rank]
      omega
    | false =>
      have hlength := reqFrames_length id (frame ++ part)
      simp only [rank, hplace, Bool.false_eq_true, if_false, ServerPlace.rank]
      omega
  | sends left => simp [Forwarding.received] at hpc

theorem rank_sendRequest (i : Nat) (hstep : p.advance answer (.sendRequest i) = some p') :
    p'.rank < p.rank := by
  obtain ⟨replies, part, more, left, hplace, ⟨-, rfl⟩ | ⟨-, t, ht, -, rfl⟩⟩ :=
    advance_sendRequest i hstep
  · simp only [rank, hplace, ServerPlace.rank, List.length_append, List.length_cons,
      List.length_nil]
    omega
  · have hsum := sum_set WorkerThread.rank p.workers i t (t.request (p.staged ++ [part])) ht
    rw [WorkerThread.rank_request, List.length_append] at hsum
    simp only [rank, hplace, Process.set, ServerPlace.rank, List.length_cons,
      List.length_nil] at hsum ⊢
    omega

/-- What the thread has sent, the frames left of the reply being received included. -/
theorem rank_outgoing (t : WorkerThread) (reply : List Bytes) (outgoing : Inlet Bytes) :
    ({ t with replies := ⟨t.replies.staged, outgoing.waiting⟩ } : WorkerThread).rank +
        outgoing.rest.length + (t.outgoing reply).weight 7 =
      t.rank + reply.length + outgoing.weight 7 := by
  simp only [WorkerThread.rank, WorkerThread.outgoing, Inlet.weight]
  omega

theorem Shows.rank_recvReply (h : Shows answer p e) (i : Nat)
    (hstep : p.advance answer (.recvReply i) = some p') : p'.rank < p.rank := by
  obtain ⟨pc, t, part, outgoing, pc', hplace, ht, hrecv, hpc, rfl⟩ := advance_recvReply i hstep
  obtain ⟨-, -, hgives⟩ := h.at_place _ hplace
  have hsum := sum_set WorkerThread.rank p.workers i t
    { t with replies := ⟨t.replies.staged, outgoing.waiting⟩ } ht
  have hmoved := rank_outgoing t p.reply outgoing
  cases pc with
  | identity =>
    have hweight := Inlet.weight_between 7 _ _ _ hrecv hgives.1
    obtain rfl := Option.some.inj hpc
    simp only [rank, hplace, Process.set, ServerPlace.rank]
    omega
  | parts id frame =>
    have hweight := Inlet.weight_within 7 _ _ _ hrecv hgives.1
    obtain rfl := Option.some.inj hpc
    cases outgoing.more with
    | true =>
      simp only [rank, hplace, if_true, Process.set, ServerPlace.rank]
      omega
    | false =>
      have hlength := streamFrames_length id (frame ++ part)
      simp only [rank, hplace, Bool.false_eq_true, if_false, Process.set, ServerPlace.rank]
      omega
  | sends left => simp [Forwarding.received] at hpc

theorem Shows.rank_worker (h : Shows answer p e) (i : Nat) (a : WorkerAction World)
    (ha : a ≠ .pollThrows) (hstep : p.advance answer (.worker i a) = some p') :
    p'.rank < p.rank := by
  obtain ⟨t, t', ht, hmove, rfl⟩ := advance_worker i a hstep
  obtain ⟨w, -, hshows⟩ := h.workers.get i t ht
  have hlower := hshows.rank_lt a ha hmove
  have hsum := sum_set WorkerThread.rank p.workers i t t' ht
  simp only [rank, Process.set]
  omega

/-- Every step of a thread leaves less to do. -/
theorem Shows.rank_lt (h : Shows answer p e) (a : ProcessAction World) (ha : a.Internal)
    (hstep : p.step answer a = some p') : p'.rank < p.rank := by
  obtain ⟨-, hadvance⟩ := step_advance a hstep
  cases a with
  | deliver m => exact ha.elim
  | launch => exact h.rank_launch hadvance
  | announce heard => exact h.rank_announce heard hadvance
  | poll stream replies =>
    obtain ⟨hplace, -, -, -, rfl⟩ := advance_poll stream replies hadvance
    cases stream with
    | true =>
      simp only [rank, hplace, if_true, ServerPlace.rank]
      omega
    | false =>
      simp only [rank, hplace, Bool.false_eq_true, if_false, ServerPlace.rank]
      omega
  | throws => exact ha.elim
  | recvHttp => exact h.rank_recvHttp hadvance
  | sendRequest i => exact rank_sendRequest i hadvance
  | recvReply i => exact h.rank_recvReply i hadvance
  | sendHttp =>
    obtain ⟨frame, more, left, hplace, rfl⟩ := advance_sendHttp hadvance
    simp only [rank, hplace, ServerPlace.rank, List.length_cons]
    omega
  | leave =>
    obtain ⟨replies, hplace, rfl⟩ | ⟨hplace, rfl⟩ := advance_leave hadvance
    · cases replies with
      | true =>
        simp only [rank, hplace, if_true, ServerPlace.rank]
        omega
      | false =>
        simp only [rank, hplace, Bool.false_eq_true, if_false, ServerPlace.rank]
        omega
    · simp only [rank, hplace, ServerPlace.rank]
      omega
  | worker i a =>
    refine h.rank_worker i a ?_ hadvance
    rintro rfl
    exact ha

end Rank

end Process
end HttpCpp
