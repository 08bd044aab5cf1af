import HttpCpp.Server.ProcessAnswers

namespace HttpCpp

/-- A thread ends the program while it computes a response only. -/
theorem WorkerThread.step_ends {World : Type} {answer : World → Bytes → Option Bytes}
    {t t' : WorkerThread} (a : WorkerAction World) (hstep : t.step answer a = some t')
    (hend : t'.place = .terminated) :
    ∃ world id frame, a = .answer world ∧ t.place = .answering id frame ∧
      answer world frame = none := by
  cases a with
  | connect =>
    obtain ⟨-, rfl⟩ := step_connect hstep
    simp at hend
  | test =>
    obtain ⟨-, rfl⟩ := step_test hstep
    cases hrunning : t.running <;> simp [hrunning] at hend
  | poll status request =>
    obtain ⟨-, -, -, -, rfl⟩ := step_poll status request hstep
    cases status <;> simp at hend
  | pollThrows =>
    obtain ⟨-, rfl⟩ := step_pollThrows hstep
    simp at hend
  | recvStatus =>
    obtain ⟨request, status, statuses, -, -, rfl⟩ := step_recvStatus hstep
    cases request <;> simp at hend
  | recvRequest =>
    obtain ⟨part, requests, -, ⟨-, rfl⟩ | ⟨id, frame, -, rfl⟩⟩ := step_recvRequest hstep
    · simp at hend
    · cases hmore : requests.more <;> simp [hmore] at hend
  | answer world =>
    obtain ⟨id, frame, hplace, ⟨hnone, -⟩ | ⟨text, -, rfl⟩⟩ := step_answer world hstep
    · exact ⟨world, id, frame, rfl, hplace, hnone⟩
    · simp at hend
  | send =>
    obtain ⟨frame, more, left, -, rfl⟩ := step_send hstep
    simp at hend
  | leave =>
    obtain ⟨-, rfl⟩ := step_leave hstep
    simp at hend

namespace Process

open HttpWorker Exchange

variable {World : Type} {answer : World → Bytes → Option Bytes} {p p' : Process}
  {e : Exchange World}

theorem terminated_false : p.terminated = false ↔ ∀ t ∈ p.workers, t.place ≠ .terminated := by
  simp [terminated]

theorem places_set {workers : List WorkerThread} (h : ∀ t ∈ workers, t.place ≠ .terminated)
    (i : Nat) (t : WorkerThread) (ht : t.place ≠ .terminated) :
    ∀ s ∈ workers.set i t, s.place ≠ .terminated := by
  intro s hs
  rcases List.mem_or_eq_of_mem_set hs with hold | rfl
  · exact h s hold
  · exact ht

/-- The step that ends the program is one of a worker that computes a response. -/
theorem advance_ends (a : ProcessAction World) (hrunning : p.terminated = false)
    (hstep : p.advance answer a = some p') (hend : p'.terminated = true) :
    ∃ i world t id frame, a = .worker i (.answer world) ∧ p.workers[i]? = some t ∧
      t.place = .answering id frame ∧ answer world frame = none ∧ p'.received = p.received := by
  have hplaces := terminated_false.mp hrunning
  have hkept : ∀ workers, (∀ t ∈ workers, t.place ≠ .terminated) → p'.workers = workers →
      False := by
    rintro workers hworkers rfl
    rw [terminated_false.mpr hworkers] at hend
    simp at hend
  have hsame : ∀ (i : Nat) (t s : WorkerThread), p.workers[i]? = some t → s.place = t.place →
      ∀ r ∈ p.workers.set i s, r.place ≠ .terminated := by
    intro i t s ht hplace
    exact places_set hplaces i s (hplace ▸ hplaces t (List.mem_of_getElem? ht))
  cases a with
  | deliver m =>
    obtain ⟨-, rfl⟩ := advance_deliver m hstep
    exact (hkept _ hplaces rfl).elim
  | launch =>
    obtain ⟨i, -, ⟨t, -, rfl⟩ | ⟨-, rfl⟩⟩ := advance_launch hstep
    · exact (hkept _ (places_set hplaces i t.start (by simp [WorkerThread.start])) rfl).elim
    · exact (hkept _ hplaces rfl).elim
  | announce heard =>
    obtain ⟨-, rfl⟩ := advance_announce heard hstep
    refine (hkept _ ?_ rfl).elim
    intro s hs
    obtain ⟨i, hi, rfl⟩ := List.mem_mapIdx.mp hs
    have hold := hplaces _ (List.getElem_mem hi)
    split_ifs
    · rw [WorkerThread.hear]
      split_ifs <;> exact hold
    · exact hold
  | poll stream replies =>
    obtain ⟨-, -, -, -, rfl⟩ := advance_poll stream replies hstep
    exact (hkept _ hplaces rfl).elim
  | throws =>
    obtain ⟨-, rfl⟩ := advance_throws hstep
    exact (hkept _ hplaces rfl).elim
  | recvHttp =>
    obtain ⟨replies, pc, part, http, pc', -, -, -, rfl⟩ := advance_recvHttp hstep
    exact (hkept _ hplaces rfl).elim
  | sendRequest i =>
    obtain ⟨replies, part, more, left, -, ⟨-, rfl⟩ | ⟨-, t, ht, -, rfl⟩⟩ :=
      advance_sendRequest i hstep
    · exact (hkept _ hplaces rfl).elim
    · exact (hkept _ (hsame i t (t.request _) ht rfl) rfl).elim
  | recvReply i =>
    obtain ⟨pc, t, part, outgoing, pc', -, ht, -, -, rfl⟩ := advance_recvReply i hstep
    exact (hkept _ (hsame i t { t with replies := ⟨t.replies.staged, outgoing.waiting⟩ } ht rfl)
      rfl).elim
  | sendHttp =>
    obtain ⟨frame, more, left, -, rfl⟩ := advance_sendHttp hstep
    exact (hkept _ hplaces rfl).elim
  | leave =>
    obtain ⟨replies, -, rfl⟩ | ⟨-, rfl⟩ := advance_leave hstep
    · exact (hkept _ hplaces rfl).elim
    · exact (hkept _ hplaces rfl).elim
  | worker i a =>
    obtain ⟨t, t', ht, hmove, rfl⟩ := advance_worker i a hstep
    by_cases hplace : t'.place = .terminated
    · obtain ⟨world, id, frame, rfl, hanswering, hnone⟩ :=
        WorkerThread.step_ends a hmove hplace
      exact ⟨i, world, t, id, frame, rfl, ht, hanswering, hnone, rfl⟩
    · exact (hkept _ (places_set hplaces i t' hplace) rfl).elim

/-- What a worker computes a response for is data that was received. -/
theorem Shows.answering_data (h : Shows answer p e) (hpartitioned : Partitioned answer e)
    (i : Nat) (t : WorkerThread) (ht : p.workers[i]? = some t) (id : ZmqIdentity) (frame : Bytes)
    (hplace : t.place = .answering id frame) : (id, frame) ∈ p.data := by
  obtain ⟨w, hw, hworker⟩ := h.workers.get i t ht
  have hhandles := hworker.handles
  rw [hplace] at hhandles
  obtain ⟨-, -, a, hbusy, rfl, rfl⟩ := hhandles
  have hin : a ∈ handling e :=
    List.mem_flatMap.mpr ⟨w, List.mem_of_getElem? hw, by simp [hbusy]⟩
  have hperm := (partition_perm answer e hpartitioned).map Prod.snd
  rw [List.map_map, List.map_map] at hperm
  rw [← shown_data h]
  apply hperm.mem_iff.mp
  refine List.mem_map.mpr ⟨a, ?_, rfl⟩
  simp only [List.mem_append]
  tauto

/-- The program has ended only if some client sent data on which computing the response fails. -/
theorem reachable_ended (answer : World → Bytes → Option Bytes) (p : Process)
    (h : (machine answer).Reachable p) (hend : p.terminated = true) :
    ∃ d ∈ p.data, ∃ world, answer world d.2 = none := by
  cases h with
  | initial p hp =>
    obtain rfl : p = start := hp
    simp [terminated, start, WorkerThread.unstarted] at hend
  | step s p a hs hstep =>
    obtain ⟨e, -, hshows, hpartitioned⟩ := reachable_shows answer s hs
    obtain ⟨hrunning, hadvance⟩ := step_advance a hstep
    obtain ⟨i, world, t, id, frame, -, ht, hplace, hnone, hreceived⟩ :=
      advance_ends a hrunning hadvance hend
    refine ⟨(id, frame), ?_, world, hnone⟩
    rw [data, hreceived]
    exact hshows.answering_data hpartitioned i t ht id frame hplace

/-- What is received stays so. -/
theorem advance_received (a : ProcessAction World) (hstep : p.advance answer a = some p') :
    p.received <+: p'.received := by
  cases a with
  | deliver m =>
    obtain ⟨-, rfl⟩ := advance_deliver m hstep
    exact List.prefix_append _ _
  | launch =>
    obtain ⟨i, -, ⟨t, -, rfl⟩ | ⟨-, rfl⟩⟩ := advance_launch hstep <;> exact List.prefix_rfl
  | announce heard =>
    obtain ⟨-, rfl⟩ := advance_announce heard hstep
    exact List.prefix_rfl
  | poll stream replies =>
    obtain ⟨-, -, -, -, rfl⟩ := advance_poll stream replies hstep
    exact List.prefix_rfl
  | throws =>
    obtain ⟨-, rfl⟩ := advance_throws hstep
    exact List.prefix_rfl
  | recvHttp =>
    obtain ⟨replies, pc, part, http, pc', -, -, -, rfl⟩ := advance_recvHttp hstep
    exact List.prefix_rfl
  | sendRequest i =>
    obtain ⟨replies, part, more, left, -, ⟨-, rfl⟩ | ⟨-, t, -, -, rfl⟩⟩ :=
      advance_sendRequest i hstep <;> exact List.prefix_rfl
  | recvReply i =>
    obtain ⟨pc, t, part, outgoing, pc', -, -, -, -, rfl⟩ := advance_recvReply i hstep
    exact List.prefix_rfl
  | sendHttp =>
    obtain ⟨frame, more, left, -, rfl⟩ := advance_sendHttp hstep
    exact List.prefix_rfl
  | leave =>
    obtain ⟨replies, -, rfl⟩ | ⟨-, rfl⟩ := advance_leave hstep <;> exact List.prefix_rfl
  | worker i a =>
    obtain ⟨t, t', -, -, rfl⟩ := advance_worker i a hstep
    exact List.prefix_rfl

theorem data_subset (h : p.received <+: p'.received) : p.data ⊆ p'.data := by
  obtain ⟨rest, hreceived⟩ := h
  intro d hd
  rw [data, ← hreceived, List.map_append, List.filter_append]
  exact List.mem_append_left _ hd

/-- A step asks for nothing but the response to what a worker is at. -/
theorem advance_congr (answer' : World → Bytes → Option Bytes) (a : ProcessAction World)
    (hsame : ∀ (i : Nat) (t : WorkerThread) (id : ZmqIdentity) (frame : Bytes),
      p.workers[i]? = some t → t.place = .answering id frame →
        ∀ world, answer world frame = answer' world frame) :
    p.advance answer a = p.advance answer' a := by
  cases a with
  | worker i a =>
    simp only [advance]
    cases ht : p.workers[i]? with
    | none => rfl
    | some t =>
      cases a with
      | answer world =>
        cases hplace : t.place with
        | answering id frame =>
          simp only [WorkerThread.step, hplace, hsame i t id frame ht hplace world]
        | _ => simp only [WorkerThread.step, hplace]
      | _ => rfl
  | _ => rfl

/-- What can come about depends on the responses to the data that was received, and on no others. -/
theorem reachable_congr (answer' : World → Bytes → Option Bytes)
    (h : (machine answer).Reachable p)
    (hsame : ∀ d ∈ p.data, ∀ world, answer world d.2 = answer' world d.2) :
    (machine answer').Reachable p := by
  induction h with
  | initial p hp => exact .initial p hp
  | step s p a hs hstep ih =>
    obtain ⟨e, -, hshows, hpartitioned⟩ := reachable_shows answer s hs
    obtain ⟨hrunning, hadvance⟩ := step_advance a hstep
    have hdata := data_subset (advance_received a hadvance)
    refine .step s p a (ih fun d hd => hsame d (hdata hd)) ?_
    have hcongr := advance_congr answer' a fun i t id frame ht hplace =>
      hsame (id, frame) (hdata (hshows.answering_data hpartitioned i t ht id frame hplace))
    simpa [machine, step, hrunning, ← hcongr] using hadvance

theorem terminated_stuck (h : p.terminated = true) :
    (machine answer).Stuck ProcessAction.Internal p := by
  intro a _
  simp [machine, step, h]

end Process
end HttpCpp
