import HttpCpp.Server.ProcessRefinement

namespace HttpCpp

namespace WorkerThread

variable {World : Type} {answer : World → Bytes → Option Bytes}

/-- The thread runs on, and what a flag of its poll has promised is there. -/
structure Prompt (t : WorkerThread) : Prop where
  heard : ∀ status ∈ t.statuses, status = lit "START"
  running : t.place ≠ .unstarted → t.running = true
  unfinished : t.place ≠ .finished
  status : ∀ request, t.place = .handleStatus request → t.statuses ≠ []
  request : t.place = .identity ∨ t.place = .handleStatus true → t.requests.ready = true

theorem unstarted_prompt : unstarted.Prompt where
  heard := by simp [unstarted]
  running := fun h => absurd rfl h
  unfinished := by simp [unstarted]
  status := by simp [unstarted]
  request := by simp [unstarted]

theorem Prompt.start {t : WorkerThread} (h : t.Prompt) : t.start.Prompt where
  heard := h.heard
  running := fun _ => rfl
  unfinished := by simp [WorkerThread.start]
  status := by simp [WorkerThread.start]
  request := by simp [WorkerThread.start]

theorem Prompt.hear {t : WorkerThread} (h : t.Prompt) : (t.hear (lit "START")).Prompt := by
  by_cases hconnected : t.connected = true
  · simp only [WorkerThread.hear, hconnected, if_true]
    refine ⟨?_, h.running, h.unfinished, by simp, h.request⟩
    intro status hstatus
    rcases List.mem_append.mp hstatus with hold | hnew
    · exact h.heard status hold
    · exact List.mem_singleton.mp hnew
  · simpa [WorkerThread.hear, hconnected] using h

/-- A place after which nothing is received yet. -/
theorem Prompt.move {t : WorkerThread} (h : t.Prompt) (place : WorkerPlace)
    (hstarted : t.place ≠ .unstarted) (hfinished : place ≠ .finished)
    (hstatus : ∀ request, place ≠ .handleStatus request) (hidentity : place ≠ .identity) :
    Prompt { t with place := place } where
  heard := h.heard
  running := fun _ => h.running hstarted
  unfinished := hfinished
  status := fun request hplace => absurd hplace (hstatus request)
  request := by
    rintro (hplace | hplace)
    · exact absurd hplace hidentity
    · exact absurd hplace (hstatus true)

theorem Prompt.recvStatus {t t' : WorkerThread} (h : t.Prompt)
    (hstep : t.step answer .recvStatus = some t') : t'.Prompt := by
  obtain ⟨request, status, statuses, hplace, hstatuses, rfl⟩ := step_recvStatus hstep
  have hstart : status = lit "START" := h.heard status (by simp [hstatuses])
  have hgoes : (if status = lit "QUIT" then false else t.running) = true := by
    rw [hstart, if_neg (by decide)]
    exact h.running (by simp [hplace])
  refine ⟨?_, fun _ => hgoes, ?_, ?_, ?_⟩
  · intro s hs
    exact h.heard s (by simp [hstatuses, hs])
  · cases request <;> simp
  · cases request <;> simp
  · cases request with
    | true => exact fun _ => h.request (Or.inr hplace)
    | false => simp

theorem Prompt.step {t t' : WorkerThread} (h : t.Prompt) (a : WorkerAction World)
    (hstep : t.step answer a = some t') : t'.Prompt := by
  cases a with
  | connect =>
    obtain ⟨hplace, rfl⟩ := step_connect hstep
    exact h.move .testing (by simp [hplace]) (by simp) (by simp) (by simp)
  | test =>
    obtain ⟨hplace, rfl⟩ := step_test hstep
    rw [if_pos (h.running (by simp [hplace]))]
    exact h.move .polling (by simp [hplace]) (by simp) (by simp) (by simp)
  | poll status request =>
    obtain ⟨hplace, hsome, hstatus, hrequest, rfl⟩ := step_poll status request hstep
    refine ⟨h.heard, fun _ => h.running (by simp [hplace]), ?_, ?_, ?_⟩
    · cases status <;> simp
    · intro _ hin
      apply hstatus
      by_contra hno
      simp [hno] at hin
    · intro hin
      apply hrequest
      cases status with
      | true => simpa using hin
      | false => simpa using hsome
  | pollThrows =>
    obtain ⟨hplace, rfl⟩ := step_pollThrows hstep
    exact h.move .testing (by simp [hplace]) (by simp) (by simp) (by simp)
  | recvStatus => exact h.recvStatus hstep
  | recvRequest =>
    obtain ⟨part, requests, -, ⟨hplace, rfl⟩ | ⟨id, frame, hplace, rfl⟩⟩ := step_recvRequest hstep
    · have hrunning : t.running = true := h.running (by simp [hplace])
      exact ⟨h.heard, fun _ => hrunning, by simp, by simp, by simp⟩
    · have hrunning : t.running = true := h.running (by simp [hplace])
      cases requests.more with
      | true => exact ⟨h.heard, fun _ => hrunning, by simp, by simp, by simp⟩
      | false => exact ⟨h.heard, fun _ => hrunning, by simp, by simp, by simp⟩
  | answer world =>
    obtain ⟨id, frame, hplace, ⟨-, rfl⟩ | ⟨text, -, rfl⟩⟩ := step_answer world hstep
    · exact h.move _ (by simp [hplace]) (by simp) (by simp) (by simp)
    · exact h.move _ (by simp [hplace]) (by simp) (by simp) (by simp)
  | send =>
    obtain ⟨frame, more, left, hplace, rfl⟩ := step_send hstep
    exact ⟨h.heard, fun _ => h.running (by simp [hplace]), by simp, by simp, by simp⟩
  | leave =>
    obtain ⟨hplace, rfl⟩ := step_leave hstep
    exact h.move .testing (by simp [hplace]) (by simp) (by simp) (by simp)

/-- A worker never takes back a reply. -/
theorem step_sent {t t' : WorkerThread} (a : WorkerAction World)
    (hstep : t.step answer a = some t') : t.replies.sent <+: t'.replies.sent := by
  cases a with
  | connect =>
    obtain ⟨-, rfl⟩ := step_connect hstep
    exact List.prefix_rfl
  | test =>
    obtain ⟨-, rfl⟩ := step_test hstep
    exact List.prefix_rfl
  | poll status request =>
    obtain ⟨-, -, -, -, rfl⟩ := step_poll status request hstep
    exact List.prefix_rfl
  | pollThrows =>
    obtain ⟨-, rfl⟩ := step_pollThrows hstep
    exact List.prefix_rfl
  | recvStatus =>
    obtain ⟨request, status, statuses, -, -, rfl⟩ := step_recvStatus hstep
    exact List.prefix_rfl
  | recvRequest =>
    obtain ⟨part, requests, -, ⟨-, rfl⟩ | ⟨id, frame, -, rfl⟩⟩ := step_recvRequest hstep
    · exact List.prefix_rfl
    · exact List.prefix_rfl
  | answer world =>
    obtain ⟨id, frame, -, ⟨-, rfl⟩ | ⟨text, -, rfl⟩⟩ := step_answer world hstep
    · exact List.prefix_rfl
    · exact List.prefix_rfl
  | send =>
    obtain ⟨frame, more, left, -, rfl⟩ := step_send hstep
    cases more with
    | true => exact List.prefix_rfl
    | false => exact List.prefix_append _ _
  | leave =>
    obtain ⟨-, rfl⟩ := step_leave hstep
    exact List.prefix_rfl

end WorkerThread

namespace Process

variable {World : Type} {answer : World → Bytes → Option Bytes}

/-- Some worker has sent a reply that is still on its way. -/
def Returning (workers : List WorkerThread) : Prop :=
  ∃ (i : Nat) (t : WorkerThread), workers[i]? = some t ∧ t.replies.sent ≠ []

theorem Returning.set {workers : List WorkerThread} (h : Returning workers) (i : Nat)
    (t t' : WorkerThread) (ht : workers[i]? = some t)
    (hkept : t.replies.sent ≠ [] → t'.replies.sent ≠ []) : Returning (workers.set i t') := by
  obtain ⟨j, s, hs, hsent⟩ := h
  by_cases hj : i = j
  · subst hj
    obtain rfl : t = s := Option.some.inj (ht.symm.trans hs)
    obtain ⟨hi, -⟩ := List.getElem?_eq_some_iff.mp ht
    exact ⟨i, t', List.getElem?_set_self hi, hkept hsent⟩
  · exact ⟨j, s, by rw [List.getElem?_set_ne hj, hs], hsent⟩

/-- What a flag of a poll has promised is there. -/
structure Prompt (p : Process) : Prop where
  workers : ∀ (i : Nat) (t : WorkerThread), p.workers[i]? = some t → t.Prompt
  stream : ∀ replies, p.place = .forwardAsReq replies .identity → p.http.ready = true
  replies : p.place = .forwardAsStream .identity ∨ (∃ pc, p.place = .forwardAsReq true pc) →
    Returning p.workers

theorem start_prompt : start.Prompt where
  workers := by
    intro i t ht
    obtain rfl := List.eq_of_mem_replicate (List.mem_of_getElem? ht)
    exact WorkerThread.unstarted_prompt
  stream := by simp [start]
  replies := by simp [start]

section Step

variable {p p' : Process} {e : Exchange World}

theorem Prompt.set_worker (h : p.Prompt) (i : Nat) (t : WorkerThread) (ht : t.Prompt) :
    ∀ (j : Nat) (s : WorkerThread), (p.workers.set i t)[j]? = some s → s.Prompt := by
  intro j s hs
  rcases getElem?_set_cases _ _ _ _ _ hs with ⟨-, rfl⟩ | ⟨-, hold⟩
  · exact ht
  · exact h.workers j s hold

theorem Prompt.launch (h : p.Prompt) (hstep : p.advance answer .launch = some p') :
    p'.Prompt := by
  obtain ⟨i, hplace, ⟨t, ht, rfl⟩ | ⟨-, rfl⟩⟩ := advance_launch hstep
  · exact ⟨h.set_worker i _ (h.workers i t ht).start, by simp, by simp⟩
  · exact ⟨h.workers, by simp, by simp⟩

theorem Prompt.announce (h : p.Prompt) (heard : List Nat)
    (hstep : p.advance answer (.announce heard) = some p') : p'.Prompt := by
  obtain ⟨hplace, rfl⟩ := advance_announce heard hstep
  refine ⟨?_, by simp, by simp⟩
  intro i t ht
  rw [List.getElem?_mapIdx, Option.map_eq_some_iff] at ht
  obtain ⟨s, hs, rfl⟩ := ht
  by_cases hi : i ∈ heard
  · simpa [hi] using (h.workers i s hs).hear
  · simpa [hi] using h.workers i s hs

theorem Prompt.poll (h : p.Prompt) (hshows : Shows answer p e) (stream replies : Bool)
    (hstep : p.advance answer (.poll stream replies) = some p') : p'.Prompt := by
  obtain ⟨hplace, hsome, hstream, hreplies, rfl⟩ := advance_poll stream replies hstep
  obtain ⟨-, -, hnone, -⟩ := hshows.at_place _ hplace
  have hreturning : replies = true → Returning p.workers := by
    intro hflag
    obtain ⟨t, ht, hready⟩ := List.any_eq_true.mp (hreplies hflag)
    obtain ⟨i, hi⟩ := List.mem_iff_getElem?.mp ht
    refine ⟨i, t, hi, ?_⟩
    intro hsent
    simp [WorkerThread.outgoing, hnone, hsent, Inlet.ready, Inlet.recv] at hready
  refine ⟨h.workers, ?_, ?_⟩
  · intro _ hin
    apply hstream
    by_contra hno
    simp [hno] at hin
  · intro hin
    apply hreturning
    cases stream with
    | true => simpa using hin
    | false => simpa using hsome

theorem Prompt.recvHttp (h : p.Prompt) (hstep : p.advance answer .recvHttp = some p') :
    p'.Prompt := by
  obtain ⟨replies, pc, part, http, pc', hplace, -, hpc, rfl⟩ := advance_recvHttp hstep
  have hmoved : pc' ≠ .identity := by
    cases pc with
    | identity =>
      obtain rfl := Option.some.inj hpc
      simp
    | parts id frame =>
      obtain rfl := Option.some.inj hpc
      cases http.more <;> simp
    | sends left => simp [Forwarding.received] at hpc
  refine ⟨h.workers, ?_, ?_⟩
  · intro _ hin
    simp only [ServerPlace.forwardAsReq.injEq] at hin
    exact absurd hin.2 hmoved
  · rintro (hin | ⟨pc'', hin⟩)
    · simp at hin
    · simp only [ServerPlace.forwardAsReq.injEq] at hin
      exact h.replies (Or.inr ⟨pc, hin.1 ▸ hplace⟩)

theorem Prompt.sendRequest (h : p.Prompt) (i : Nat)
    (hstep : p.advance answer (.sendRequest i) = some p') : p'.Prompt := by
  obtain ⟨replies, part, more, left, hplace, hsend⟩ := advance_sendRequest i hstep
  have hflag : (∃ pc, ServerPlace.forwardAsReq replies (.sends left) = .forwardAsReq true pc) →
      Returning p.workers := by
    rintro ⟨pc, hin⟩
    simp only [ServerPlace.forwardAsReq.injEq] at hin
    exact h.replies (Or.inr ⟨_, hin.1 ▸ hplace⟩)
  obtain ⟨-, rfl⟩ | ⟨-, t, ht, -, rfl⟩ := hsend
  · refine ⟨h.workers, by simp, ?_⟩
    rintro (hin | hin)
    · simp at hin
    · exact hflag hin
  · obtain ⟨heard, running, unfinished, hstatus, hrequest⟩ := h.workers i t ht
    refine ⟨h.set_worker i _ ⟨heard, running, unfinished, hstatus, ?_⟩, by simp, ?_⟩
    · exact fun hin => Inlet.ready_deliver _ _ (hrequest hin)
    · rintro (hin | hin)
      · simp at hin
      · exact (hflag hin).set i t _ ht id

theorem Prompt.recvReply (h : p.Prompt) (i : Nat)
    (hstep : p.advance answer (.recvReply i) = some p') : p'.Prompt := by
  obtain ⟨pc, t, part, outgoing, pc', hplace, ht, -, hpc, rfl⟩ := advance_recvReply i hstep
  obtain ⟨heard, running, unfinished, hstatus, hrequest⟩ := h.workers i t ht
  refine ⟨h.set_worker i _ ⟨heard, running, unfinished, hstatus, hrequest⟩, by simp, ?_⟩
  rintro (hin | ⟨_, hin⟩)
  · simp only [ServerPlace.forwardAsStream.injEq] at hin
    subst hin
    cases pc with
    | identity => simp [Forwarding.received] at hpc
    | parts id frame => cases hmore : outgoing.more <;> simp [Forwarding.received, hmore] at hpc
    | sends left => simp [Forwarding.received] at hpc
  · simp at hin

theorem Prompt.leave (h : p.Prompt) (hstep : p.advance answer .leave = some p') : p'.Prompt := by
  obtain ⟨replies, hplace, rfl⟩ | ⟨hplace, rfl⟩ := advance_leave hstep
  · cases replies with
    | true => exact ⟨h.workers, by simp, fun _ => h.replies (Or.inr ⟨_, hplace⟩)⟩
    | false => exact ⟨h.workers, by simp, by simp⟩
  · exact ⟨h.workers, by simp, by simp⟩

theorem Prompt.worker (h : p.Prompt) (i : Nat) (a : WorkerAction World)
    (hstep : p.advance answer (.worker i a) = some p') : p'.Prompt := by
  obtain ⟨t, t', ht, hmove, rfl⟩ := advance_worker i a hstep
  refine ⟨h.set_worker i t' ((h.workers i t ht).step a hmove), h.stream, ?_⟩
  intro hin
  refine (h.replies hin).set i t t' ht ?_
  intro hsent hnil
  have hprefix := WorkerThread.step_sent a hmove
  rw [hnil] at hprefix
  exact hsent (List.prefix_nil.mp hprefix)

/-- No step takes away what a flag has promised. -/
theorem Prompt.step (h : p.Prompt) (hshows : Shows answer p e) (a : ProcessAction World)
    (hstep : p.step answer a = some p') : p'.Prompt := by
  obtain ⟨-, hadvance⟩ := step_advance a hstep
  cases a with
  | deliver m =>
    obtain ⟨-, rfl⟩ := advance_deliver m hadvance
    exact ⟨h.workers, fun replies hin => Inlet.ready_deliver _ _ (h.stream replies hin), h.replies⟩
  | launch => exact h.launch hadvance
  | announce heard => exact h.announce heard hadvance
  | poll stream replies => exact h.poll hshows stream replies hadvance
  | throws =>
    obtain ⟨-, rfl⟩ := advance_throws hadvance
    exact ⟨h.workers, by simp, by simp⟩
  | recvHttp => exact h.recvHttp hadvance
  | sendRequest i => exact h.sendRequest i hadvance
  | recvReply i => exact h.recvReply i hadvance
  | sendHttp =>
    obtain ⟨frame, more, left, -, rfl⟩ := advance_sendHttp hadvance
    exact ⟨h.workers, by simp, by simp⟩
  | leave => exact h.leave hadvance
  | worker i a => exact h.worker i a hadvance

end Step

/-- A state with all that is known of a reachable one. -/
structure Sound (answer : World → Bytes → Option Bytes) (p : Process) : Prop where
  prompt : p.Prompt
  shown : ∃ e, (Exchange.machine answer).Reachable e ∧ Shows answer p e ∧
    Exchange.Partitioned answer e

theorem reachable_sound (p : Process) (h : (machine answer).Reachable p) : Sound answer p := by
  refine ⟨?_, reachable_shows answer p h⟩
  induction h with
  | initial p hp =>
    obtain rfl : p = start := hp
    exact start_prompt
  | step p p' a hp hstep ih =>
    obtain ⟨e, -, hshows, -⟩ := reachable_shows answer p hp
    exact ih.step hshows a hstep

end Process

end HttpCpp
