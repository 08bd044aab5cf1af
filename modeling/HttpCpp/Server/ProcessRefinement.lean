import HttpCpp.Server.ProcessRelation

namespace HttpCpp
namespace Process

open HttpServer HttpWorker Exchange

variable {World : Type} {answer : World → Bytes → Option Bytes}

section Step

variable {p p' : Process} {e : Exchange World}

/-- What the exchange can do to show a state again. -/
def Matched (answer : World → Bytes → Option Bytes) (p' : Process) (e : Exchange World) : Prop :=
  ∃ actions e', (Exchange.machine answer).run e actions = some e' ∧ Shows answer p' e'

theorem Shows.stutter (h : Shows answer p' e) : Matched answer p' e := ⟨[], e, rfl, h⟩

theorem Shows.after {e' : Exchange World} (h : Shows answer p' e') (a : ExchangeAction World)
    (ha : Exchange.step answer e a = some e') : Matched answer p' e :=
  ⟨[a], e', by simp [Machine.run, Exchange.machine, ha], h⟩

theorem Shows.at_place (h : Shows answer p e) (place : ServerPlace) (hplace : p.place = place) :
    Launched place p.workers ∧ Takes place p.http p.staged e.httpIn ∧
      Gives place p.reply p.written (wire e) :=
  hplace ▸ ⟨h.launched, h.takes, h.gives⟩

theorem Shows.deliver (h : Shows answer p e) (m : Message)
    (hstep : p.advance answer (.deliver m) = some p') : Matched answer p' e := by
  obtain ⟨hparts, rfl⟩ := advance_deliver m hstep
  refine Shows.after ?_ (.deliver m) rfl
  refine { h with whole := ?_, takes := ?_, received := ?_ }
  · intro a ha
    rcases List.mem_append.mp ha with hold | hnew
    · exact h.whole a hold
    · obtain rfl := List.mem_singleton.mp hnew
      exact hparts
  · exact h.takes.deliver _
  · simp [h.received]

theorem Shows.launch (h : Shows answer p e) (hstep : p.advance answer .launch = some p') :
    Matched answer p' e := by
  obtain ⟨i, hplace, hnext⟩ := advance_launch hstep
  obtain ⟨hlaunched, htakes, hgives⟩ := h.at_place _ hplace
  rcases hnext with ⟨t, ht, rfl⟩ | ⟨ht, rfl⟩
  · have hunstarted := (hlaunched i t ht).mpr ⟨i, le_rfl, rfl⟩
    obtain ⟨w, hw, hshows⟩ := h.workers.get i t ht
    apply Shows.stutter
    refine { h with
      count := by simpa [Process.set] using h.count
      workers := h.workers.set_thread i t.start w hw (hshows.move true t.statuses .connecting ?_)
      launched := ?_
      takes := htakes
      gives := hgives }
    · rw [hunstarted]
      exact id
    · intro j s hs
      rcases getElem?_set_cases _ _ _ _ _ hs with ⟨rfl, rfl⟩ | ⟨hj, hold⟩
      · simp [WorkerThread.start]
      · rw [hlaunched j s hold]
        simp only [ServerPlace.launching.injEq, exists_eq_right']
        omega
  · apply Shows.stutter
    refine { h with launched := ?_, takes := htakes, gives := hgives }
    intro j s hs
    rw [hlaunched j s hs]
    obtain ⟨hj, -⟩ : ∃ hj : j < p.workers.length, p.workers[j] = s :=
      List.getElem?_eq_some_iff.mp hs
    have hi := List.getElem?_eq_none_iff.mp ht
    simp only [ServerPlace.launching.injEq, exists_eq_right', reduceCtorEq, and_false, exists_false,
      iff_false]
    omega

theorem Shows.announce (h : Shows answer p e) (heard : List Nat)
    (hstep : p.advance answer (.announce heard) = some p') : Matched answer p' e := by
  obtain ⟨hplace, rfl⟩ := advance_announce heard hstep
  obtain ⟨hlaunched, htakes, hgives⟩ := h.at_place _ hplace
  have hhear : ∀ i (t : WorkerThread), ∃ statuses,
      (if i ∈ heard then t.hear (lit "START") else t) = { t with statuses := statuses } := by
    intro i t
    by_cases hi : i ∈ heard ∧ t.connected = true
    · exact ⟨t.statuses ++ [lit "START"], by simp [hi, WorkerThread.hear]⟩
    · refine ⟨t.statuses, ?_⟩
      by_cases hin : i ∈ heard <;> simp_all [WorkerThread.hear]
  apply Shows.stutter
  refine { h with
    count := by simpa using h.count
    workers := ⟨by simpa using h.workers.1, ?_⟩
    launched := ?_
    takes := htakes
    gives := hgives }
  · intro i t w ht hw
    rw [List.getElem?_mapIdx, Option.map_eq_some_iff] at ht
    obtain ⟨s, hs, rfl⟩ := ht
    obtain ⟨statuses, hsame⟩ := hhear i s
    rw [hsame]
    exact (h.workers.2 i s w hs hw).move s.running statuses s.place id
  · intro i t ht
    rw [List.getElem?_mapIdx, Option.map_eq_some_iff] at ht
    obtain ⟨s, hs, rfl⟩ := ht
    obtain ⟨statuses, hsame⟩ := hhear i s
    rw [hsame]
    exact hlaunched.move (by simp) (by simp) i s hs

theorem Shows.poll (h : Shows answer p e) (stream replies : Bool)
    (hstep : p.advance answer (.poll stream replies) = some p') : Matched answer p' e := by
  obtain ⟨hplace, -, -, -, rfl⟩ := advance_poll stream replies hstep
  obtain ⟨hlaunched, htakes, hgives⟩ := h.at_place _ hplace
  apply Shows.stutter
  cases stream with
  | true =>
    exact { h with
      launched := hlaunched.move (by simp) (by simp), takes := htakes, gives := hgives }
  | false =>
    exact { h with
      launched := hlaunched.move (by simp) (by simp), takes := htakes, gives := hgives }

theorem Shows.throws (h : Shows answer p e) (hstep : p.advance answer .throws = some p') :
    Matched answer p' e := by
  obtain ⟨hlooping, rfl⟩ := advance_throws hstep
  have hplace : ∀ k, p.place ≠ .launching k := by
    intro k hk
    simp [looping, hk] at hlooping
  apply Shows.stutter
  exact { h with
    launched := h.launched.move hplace (by simp)
    takes := trivial
    gives := h.gives.written_prefix }

/-- A worker that could get the next request. -/
theorem Shows.first_worker (h : Shows answer p e) : ∃ t w, p.workers[0]? = some t ∧
    e.workers[0]? = some w ∧ ShowsWorker answer t w (e.replies.filter (·.worker = 0)) := by
  have hpos : 0 < p.workers.length := by rw [h.count, workerCount]; omega
  have ht := List.getElem?_eq_getElem hpos
  obtain ⟨w, hw, hshows⟩ := h.workers.get 0 _ ht
  exact ⟨_, w, ht, hw, hshows⟩

theorem forward_step (i : Nat) (a : Arrival) (rest : List Arrival) (hin : e.httpIn = a :: rest)
    (w : WorkerLine) (hw : e.workers[i]? = some w) :
    Exchange.step answer e (.forwardAsReq i) = some { e with
      httpIn := rest
      requested := e.requested ++ [a]
      workers := e.workers.set i ⟨w.queue ++ forwarded a, w.busy⟩ } := by
  simp [Exchange.step, hin, hw]

/-- Messages without data end in `forward_as_req`. -/
theorem Shows.drop (h : Shows answer p e) (a : Arrival) (rest : List Arrival)
    (hin : e.httpIn = a :: rest) (hframe : a.message.frame = []) (replies : Bool)
    (pc : Forwarding) (hplace : p.place = .forwardAsReq replies pc) (http : Inlet Bytes)
    (hrest : http.rest = []) (hstaged : p.staged = [])
    (hwaiting : http.waiting = rest.map (·.message.frames)) :
    Matched answer { p with http := http, place := .forwardAsReq replies (.sends []) } e := by
  obtain ⟨t, w, ht, hw, hshows⟩ := h.first_worker
  obtain ⟨hlaunched, -, hgives⟩ := h.at_place _ hplace
  have hnone : forwarded a = [] := by simp [forwarded, forwardAsReq, hframe]
  refine Shows.after ?_ _ (forward_step 0 a rest hin w hw)
  rw [hnone, List.append_nil]
  have hlines : e.workers.set 0 w = e.workers := by
    obtain ⟨hi, rfl⟩ := List.getElem?_eq_some_iff.mp hw
    exact List.set_getElem_self hi
  refine { h with
    workers := hlines.symm ▸ h.workers
    launched := hlaunched.move (by simp) (by simp)
    whole := ?_
    takes := ⟨hrest, Or.inl ⟨rfl, hstaged, hwaiting⟩⟩
    gives := hgives }
  intro b hb
  exact h.whole b (hin ▸ List.mem_cons_of_mem _ hb)

theorem Shows.recvHttp (h : Shows answer p e) (hstep : p.advance answer .recvHttp = some p') :
    Matched answer p' e := by
  obtain ⟨replies, pc, part, http, pc', hplace, hrecv, hpc, rfl⟩ := advance_recvHttp hstep
  obtain ⟨hlaunched, htakes, hgives⟩ := h.at_place _ hplace
  have hmoved : ∀ pc', Takes (.forwardAsReq replies pc') http p.staged e.httpIn →
      Matched answer { p with http := http, place := .forwardAsReq replies pc' } e := by
    intro pc' htakes'
    exact Shows.stutter { h with
      launched := hlaunched.move (by simp) (by simp), takes := htakes', gives := hgives }
  cases pc with
  | identity =>
    obtain ⟨hrest, hstaged, hwaiting⟩ := htakes
    have hfirst := Inlet.recv_between _ _ _ hrecv hrest
    rw [hwaiting] at hfirst
    obtain ⟨a, rest, hin, hframes, hrest'⟩ := List.map_eq_cons_iff.mp hfirst
    obtain ⟨rfl, hparts⟩ : a.message.id.identity = part ∧ a.message.parts = http.rest := by
      simpa [Message.frames] using hframes
    obtain rfl := Option.some.inj hpc
    apply hmoved
    rw [ZmqIdentity.read_identity]
    refine ⟨hparts ▸ h.whole a (by simp [hin]), hstaged, a, rest, hin, hrest'.symm, rfl, ?_⟩
    rw [← hparts]
    rfl
  | parts id frame =>
    obtain ⟨hrest, hstaged, a, rest, hin, hwaiting, hid, hframe⟩ := htakes
    obtain ⟨hcons, hsame⟩ := Inlet.recv_within _ _ _ hrecv hrest
    rw [hcons, List.flatten_cons, ← List.append_assoc] at hframe
    rw [hsame] at hwaiting
    obtain rfl := Option.some.inj hpc
    cases hmore : http.more with
    | true =>
      exact hmoved _ ⟨(Inlet.more_iff _).mp hmore, hstaged, a, rest, hin, hwaiting, hid, hframe⟩
    | false =>
      have hlast := (Inlet.more_false_iff _).mp hmore
      rw [hlast, List.flatten_nil, List.append_nil] at hframe
      simp only [Bool.false_eq_true, if_false, hframe, ← hid]
      by_cases hdata : a.message.frame = []
      · simpa [reqFrames, hdata] using
          h.drop a rest hin hdata replies _ hplace http hlast hstaged hwaiting
      · apply hmoved
        refine ⟨hlast, Or.inr ⟨a, rest, hin, hwaiting, hdata, ?_⟩⟩
        rw [reqFrames, if_pos hdata]
        exact Or.inl ⟨hstaged, rfl⟩
  | sends left => simp [Forwarding.received] at hpc

/-- The last frame of a request puts it in the queue of a worker. -/
theorem Shows.sendRequest (h : Shows answer p e) (i : Nat)
    (hstep : p.advance answer (.sendRequest i) = some p') : Matched answer p' e := by
  obtain ⟨replies, part, more, left, hplace, hsend⟩ := advance_sendRequest i hstep
  obtain ⟨hlaunched, htakes, hgives⟩ := h.at_place _ hplace
  obtain ⟨hrest, ⟨hnil, -⟩ | ⟨a, rest, hin, hwaiting, hdata, hout⟩⟩ := htakes
  · simp at hnil
  rcases hout.send with ⟨rfl, hnext⟩ | ⟨rfl, rfl, hframes⟩
  · obtain ⟨-, rfl⟩ | ⟨hfalse, -⟩ := hsend
    · apply Shows.stutter
      exact { h with
        launched := hlaunched.move (by simp) (by simp)
        takes := ⟨hrest, Or.inr ⟨a, rest, hin, hwaiting, hdata, hnext⟩⟩
        gives := hgives }
    · simp at hfalse
  · obtain ⟨hfalse, -⟩ | ⟨-, t, ht, -, rfl⟩ := hsend
    · simp at hfalse
    obtain ⟨w, hw, hshows⟩ := h.workers.get i t ht
    have hforwarded : forwarded a = [⟨a.serial, ⟨a.message.id, [a.message.frame]⟩⟩] := by
      simp [forwarded, forwardAsReq, hdata]
    refine Shows.after ?_ _ (forward_step i a rest hin w hw)
    rw [hframes]
    refine { h with
      count := by simpa [Process.set] using h.count
      workers := h.workers.set i _ _ (fun _ _ => rfl) ?_
      launched := (hlaunched.move (by simp) (by simp)).set i t _ ht Iff.rfl
      whole := ?_
      takes := ⟨hrest, Or.inl ⟨rfl, rfl, hwaiting⟩⟩
      gives := hgives }
    · refine ⟨?_, ?_, hshows.replies, hshows.handles⟩
      · simp [WorkerThread.request, hshows.queue, hforwarded, Message.frames]
      · intro b hb
        rcases List.mem_append.mp hb with hold | hnew
        · exact hshows.whole b hold
        · rw [hforwarded, List.mem_singleton] at hnew
          simp [hnew]
    · intro b hb
      exact h.whole b (hin ▸ List.mem_cons_of_mem _ hb)

theorem wire_answered (reply : Reply World) (replies : List (Reply World)) :
    wire { e with replies := replies, answered := e.answered ++ [reply] } =
      wire e ++ (forwardAsStream reply.message).flatMap Message.frames := by
  simp [wire, Exchange.sent]

theorem forwardAsStream_frames (m : Message) :
    (forwardAsStream m).flatMap Message.frames = (streamFrames m.id m.frame).map Prod.fst := by
  by_cases hframe : m.frame = []
  · simp [forwardAsStream, streamFrames, hframe]
  · simp [forwardAsStream, streamFrames, hframe, Message.frames]

theorem filter_first {α : Type*} (p : α → Bool) (l : List α) (a : α) (rest : List α)
    (h : l.filter p = a :: rest) :
    l.find? p = some a ∧ (l.eraseP p).filter p = rest ∧
      ∀ q : α → Bool, (∀ b, p b = true → q b = false) → (l.eraseP p).filter q = l.filter q := by
  induction l with
  | nil => simp at h
  | cons b l ih =>
    by_cases hb : p b = true
    · rw [List.filter_cons_of_pos hb] at h
      obtain ⟨rfl, rfl⟩ := List.cons.inj h
      rw [List.find?_cons_of_pos hb, List.eraseP_cons_of_pos hb]
      refine ⟨rfl, rfl, ?_⟩
      intro q hq
      rw [List.filter_cons_of_neg (by simp [hq b hb])]
    · rw [List.filter_cons_of_neg hb] at h
      obtain ⟨hfind, hrest, hother⟩ := ih h
      rw [List.find?_cons_of_neg hb, List.eraseP_cons_of_neg hb, List.filter_cons_of_neg hb]
      refine ⟨hfind, hrest, ?_⟩
      intro q hq
      by_cases hbq : q b = true
      · rw [List.filter_cons_of_pos hbq, List.filter_cons_of_pos hbq, hother q hq]
      · rw [List.filter_cons_of_neg hbq, List.filter_cons_of_neg hbq, hother q hq]

theorem Shows.recvReply (h : Shows answer p e) (hcomputed : Partitioned answer e) (i : Nat)
    (hstep : p.advance answer (.recvReply i) = some p') : Matched answer p' e := by
  obtain ⟨pc, t, part, outgoing, pc', hplace, ht, hrecv, hpc, rfl⟩ := advance_recvReply i hstep
  obtain ⟨hlaunched, htakes, hgives⟩ := h.at_place _ hplace
  obtain ⟨w, hw, hshows⟩ := h.workers.get i t ht
  cases pc with
  | identity =>
    obtain ⟨hrest, hwritten⟩ := hgives
    have hsent : t.replies.sent = (part :: outgoing.rest) :: outgoing.waiting :=
      Inlet.recv_between _ _ _ hrecv hrest
    rw [hshows.replies] at hsent
    obtain ⟨reply, others, hfilter, hframes, hothers⟩ := List.map_eq_cons_iff.mp hsent
    obtain ⟨hfind, herase, hsame⟩ := filter_first _ _ _ _ hfilter
    have hreply : reply ∈ e.replies := List.mem_of_find?_eq_some hfind
    obtain ⟨text, -, hmessage⟩ := hcomputed.computed reply (List.mem_append_left _ hreply)
    obtain ⟨rfl, hparts⟩ : reply.message.id.identity = part ∧
        reply.message.parts = outgoing.rest := by simpa [Message.frames] using hframes
    have hne : reply.message.parts ≠ [] := by simp [hmessage, handleRequest]
    obtain rfl := Option.some.inj hpc
    have hstep : Exchange.step answer e (.forwardAsStream i) = some { e with
        replies := e.replies.eraseP (·.worker = i)
        answered := e.answered ++ [reply] } := by
      simp [Exchange.step, hfind]
    refine Shows.after ?_ _ hstep
    refine { h with
      count := by simpa [Process.set] using h.count
      workers := ?_
      launched := (hlaunched.move (by simp) (by simp)).set i t _ ht Iff.rfl
      takes := htakes
      gives := ?_
      owners := ?_ }
    · have hlines : e.workers.set i w = e.workers := by
        obtain ⟨hi, rfl⟩ := List.getElem?_eq_some_iff.mp hw
        exact List.set_getElem_self hi
      rw [← hlines]
      refine h.workers.set i _ w ?_ ?_
      · intro j hj
        apply hsame
        simp only [decide_eq_true_eq, decide_eq_false_iff_not]
        intro b hb hbj
        exact hj (hbj.symm.trans hb)
      · exact ⟨hshows.queue, hshows.whole, by rw [herase]; exact hothers.symm, hshows.handles⟩
    · have hwire : p.written ++ (streamFrames reply.message.id
          ([] ++ outgoing.rest.flatten)).map Prod.fst = wire e ++
            (forwardAsStream reply.message).flatMap Message.frames := by
        rw [forwardAsStream_frames, hwritten, ← hparts]
        rfl
      rw [ZmqIdentity.read_identity, wire_answered]
      exact ⟨hparts ▸ hne, hwire⟩
    · intro reply hmem
      exact h.owners reply (List.mem_of_mem_eraseP hmem)
  | parts id frame =>
    obtain ⟨hrest, hwritten⟩ := hgives
    obtain ⟨hcons, hsame⟩ : p.reply = part :: outgoing.rest ∧
        t.replies.sent = outgoing.waiting := Inlet.recv_within _ _ _ hrecv hrest
    rw [hcons, List.flatten_cons, ← List.append_assoc] at hwritten
    obtain rfl := Option.some.inj hpc
    have hkept : ShowsWorkers answer
        (p.workers.set i { t with replies := ⟨t.replies.staged, outgoing.waiting⟩ }) e.workers
        e.replies := by
      apply h.workers.set_thread i _ w hw
      rw [← hsame]
      exact hshows
    apply Shows.stutter
    refine { h with
      count := by simpa [Process.set] using h.count
      workers := hkept
      launched := (hlaunched.move (by simp) ?_).set i t _ ht Iff.rfl
      takes := htakes
      gives := ?_ }
    · simp
    · cases hmore : outgoing.more with
      | true => exact ⟨(Inlet.more_iff _).mp hmore, hwritten⟩
      | false =>
        have hlast := (Inlet.more_false_iff _).mp hmore
        rw [hlast, List.flatten_nil, List.append_nil] at hwritten
        exact ⟨hlast, hwritten⟩
  | sends left => simp [Forwarding.received] at hpc

theorem Shows.sendHttp (h : Shows answer p e) (hstep : p.advance answer .sendHttp = some p') :
    Matched answer p' e := by
  obtain ⟨frame, more, left, hplace, rfl⟩ := advance_sendHttp hstep
  obtain ⟨hlaunched, htakes, hrest, hwritten⟩ := h.at_place _ hplace
  apply Shows.stutter
  refine { h with
    launched := hlaunched.move (by simp) (by simp)
    takes := htakes
    gives := ⟨hrest, ?_⟩ }
  rw [List.append_assoc]
  exact hwritten

theorem Shows.leave (h : Shows answer p e) (hstep : p.advance answer .leave = some p') :
    Matched answer p' e := by
  obtain ⟨replies, hplace, rfl⟩ | ⟨hplace, rfl⟩ := advance_leave hstep
  · obtain ⟨hlaunched, htakes, hgives⟩ := h.at_place _ hplace
    obtain ⟨hrest, ⟨-, hidle⟩ | ⟨a, rest, -, -, -, hout⟩⟩ := htakes
    · apply Shows.stutter
      cases replies with
      | true =>
        exact { h with
          launched := hlaunched.move (by simp) (by simp)
          takes := ⟨hrest, hidle⟩
          gives := hgives }
      | false =>
        exact { h with
          launched := hlaunched.move (by simp) (by simp)
          takes := ⟨hrest, hidle⟩
          gives := hgives }
    · exact absurd rfl hout.left_ne_nil
  · obtain ⟨hlaunched, htakes, hrest, hwritten⟩ := h.at_place _ hplace
    apply Shows.stutter
    exact { h with
      launched := hlaunched.move (by simp) (by simp)
      takes := htakes
      gives := ⟨hrest, by simpa using hwritten⟩ }

theorem step_started {t t' : WorkerThread} (a : WorkerAction World)
    (hstep : t.step answer a = some t') : t.place ≠ .unstarted ∧ t'.place ≠ .unstarted := by
  cases a with
  | connect =>
    obtain ⟨hplace, rfl⟩ := WorkerThread.step_connect hstep
    simp [hplace]
  | test =>
    obtain ⟨hplace, rfl⟩ := WorkerThread.step_test hstep
    cases t.running <;> simp [hplace]
  | poll status request =>
    obtain ⟨hplace, -, -, -, rfl⟩ := WorkerThread.step_poll status request hstep
    cases status <;> simp [hplace]
  | pollThrows =>
    obtain ⟨hplace, rfl⟩ := WorkerThread.step_pollThrows hstep
    simp [hplace]
  | recvStatus =>
    obtain ⟨request, status, statuses, hplace, -, rfl⟩ := WorkerThread.step_recvStatus hstep
    cases request <;> simp [hplace]
  | recvRequest =>
    obtain ⟨part, requests, -, ⟨hplace, rfl⟩ | ⟨id, frame, hplace, rfl⟩⟩ :=
      WorkerThread.step_recvRequest hstep
    · simp [hplace]
    · cases requests.more <;> simp [hplace]
  | answer world =>
    obtain ⟨id, frame, hplace, ⟨-, rfl⟩ | ⟨text, -, rfl⟩⟩ := WorkerThread.step_answer world hstep
    · simp [hplace]
    · simp [hplace]
  | send =>
    obtain ⟨frame, more, left, hplace, rfl⟩ := WorkerThread.step_send hstep
    simp [hplace]
  | leave =>
    obtain ⟨hplace, rfl⟩ := WorkerThread.step_leave hstep
    simp [hplace]

theorem Shows.worker (h : Shows answer p e) (i : Nat) (a : WorkerAction World)
    (hstep : p.advance answer (.worker i a) = some p') : Matched answer p' e := by
  obtain ⟨t, t', ht, hmove, rfl⟩ := advance_worker i a hstep
  obtain ⟨w, hw, hshows⟩ := h.workers.get i t ht
  obtain ⟨hstarted, hstarted'⟩ := step_started a hmove
  have hcount : (p.set i t').workers.length = workerCount := by simpa [Process.set] using h.count
  have hlaunched : Launched p.place (p.workers.set i t') :=
    h.launched.set i t t' ht (iff_of_false hstarted' hstarted)
  rcases hshows.step a hmove with
    hsame | ⟨b, rest, rfl, htaken⟩ | ⟨b, world, text, hbusy, htext, hdone⟩
  · apply Shows.stutter
    exact { h with
      count := hcount
      workers := h.workers.set_thread i t' w hw hsame
      launched := hlaunched }
  · have hreceive : Exchange.step answer e (.receiveRequest i) =
        some { e with workers := e.workers.set i ⟨rest, some b⟩ } := by
      simp [Exchange.step, hw]
    refine Shows.after ?_ _ hreceive
    exact { h with
      count := hcount
      workers := h.workers.set i t' _ (fun _ _ => rfl) htaken
      launched := hlaunched }
  · obtain ⟨queue, busy⟩ := w
    obtain rfl : busy = some b := hbusy
    have hreply : Exchange.step answer e (.sendReply i world) = some { e with
        workers := e.workers.set i ⟨queue, none⟩
        replies := e.replies ++ [⟨i, b, world, handleRequest (fun _ => text) b.message⟩] } := by
      simp [Exchange.step, hw, htext]
    refine Shows.after ?_ _ hreply
    refine { h with
      count := hcount
      workers := h.workers.set i t' _ ?_ ?_
      launched := hlaunched
      owners := ?_ }
    · intro j hj
      simp [Ne.symm hj]
    · simpa using hdone ⟨i, b, world, handleRequest (fun _ => text) b.message⟩ rfl
    · intro reply hmem
      rcases List.mem_append.mp hmem with hold | hnew
      · exact h.owners reply hold
      · obtain rfl := List.mem_singleton.mp hnew
        obtain ⟨hi, -⟩ := List.getElem?_eq_some_iff.mp ht
        exact h.count ▸ hi

/-- Whatever a thread does, the exchange can do, at one blow or not at all. -/
theorem Shows.step (h : Shows answer p e) (hpartitioned : Partitioned answer e)
    (a : ProcessAction World) (hstep : p.step answer a = some p') : Matched answer p' e := by
  obtain ⟨-, hadvance⟩ := step_advance a hstep
  cases a with
  | deliver m => exact h.deliver m hadvance
  | launch => exact h.launch hadvance
  | announce heard => exact h.announce heard hadvance
  | poll stream replies => exact h.poll stream replies hadvance
  | throws => exact h.throws hadvance
  | recvHttp => exact h.recvHttp hadvance
  | sendRequest i => exact h.sendRequest i hadvance
  | recvReply i => exact h.recvReply hpartitioned i hadvance
  | sendHttp => exact h.sendHttp hadvance
  | leave => exact h.leave hadvance
  | worker i a => exact h.worker i a hadvance

end Step

theorem start_shows (answer : World → Bytes → Option Bytes) :
    Shows answer Process.start (Exchange.start workerCount) where
  count := by simp [Process.start]
  workers := by
    refine ⟨by simp [Process.start, Exchange.start], ?_⟩
    intro i t w ht hw
    obtain rfl := List.eq_of_mem_replicate (List.mem_of_getElem? ht)
    obtain rfl := List.eq_of_mem_replicate (List.mem_of_getElem? hw)
    exact ⟨rfl, by simp, rfl, rfl, rfl, rfl⟩
  launched := by
    intro i t ht
    obtain rfl := List.eq_of_mem_replicate (List.mem_of_getElem? ht)
    exact iff_of_true rfl ⟨0, Nat.zero_le i, rfl⟩
  whole := by simp [Exchange.start]
  takes := ⟨rfl, rfl, rfl⟩
  gives := ⟨rfl, rfl⟩
  received := rfl
  abandoned := rfl
  owners := by simp [Exchange.start]

/-- The loops of the server and of its workers, frame by frame and in any interleaving, refine the
exchange of whole messages. -/
theorem reachable_shows (answer : World → Bytes → Option Bytes) (p : Process)
    (h : (machine answer).Reachable p) :
    ∃ e, (Exchange.machine answer).Reachable e ∧ Shows answer p e ∧ Partitioned answer e := by
  refine (machine answer).simulation (Exchange.machine answer)
    (fun p e => Shows answer p e ∧ Partitioned answer e) ?_ ?_ p h
  · rintro p rfl
    exact ⟨Exchange.start workerCount, ⟨workerCount, rfl⟩, start_shows answer,
      start_partitioned answer workerCount⟩
  · rintro p p' a e ⟨hshows, hpartitioned⟩ hstep
    obtain ⟨actions, e', hrun, hshows'⟩ := hshows.step hpartitioned a hstep
    have hpartitioned' := (Exchange.machine answer).invariant_run (Partitioned answer)
      (fun s s' a hs hs' => step_partitioned answer s s' a hs hs') e e' actions hpartitioned hrun
    exact ⟨actions, e', hrun, hshows', hpartitioned'⟩

end Process
end HttpCpp
