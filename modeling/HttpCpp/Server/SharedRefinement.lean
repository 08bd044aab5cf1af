import HttpCpp.Server.SharedHandlers

namespace HttpCpp

/-- The class of the handler that a worker's call is for. -/
def HandlerPhase.handler : HandlerPhase → Option Handler
  | .idle => none
  | .entered handler | .found handler | .missing handler => some handler

/-- How many steps of a call are left, at most. -/
def HandlerPhase.rank : HandlerPhase → Nat
  | .idle => 3
  | .entered _ => 2
  | .found _ | .missing _ => 1

theorem HandlerPhase.handler_none (phase : HandlerPhase) (hnone : phase.handler = none) :
    phase = .idle := by
  cases phase with
  | idle => rfl
  | entered h | found h | missing h => simp [HandlerPhase.handler] at hnone

namespace SharedCache

variable {bld : Build} {s s' : SharedCache}

/-- The class that the call returns whose step an action is, where the cache serves it. -/
def target (s : SharedCache) : CacheAction → Option Handler
  | .getHandler _ httpVersion => Handler.getHandler httpVersion
  | .contains i | .get i | .insert i => s.workers[i]?.bind HandlerPhase.handler

/-- The last call has returned. -/
theorem returnedBy_append (e : Bytes × Option HandlerInstance)
    (h : s'.returned = s.returned ++ [e]) :
    s.returnedBy s' = some (e.2.map HandlerInstance.handler) := by
  simp [returnedBy, h]

theorem returnedBy_same (h : s'.returned = s.returned) : s.returnedBy s' = none := by
  simp [returnedBy, h]

/-- A step within a call: the call goes on, or it returns what it has to. -/
theorem step_call (hc : Consistent s) (a : CacheAction) (hstep : step bld s a = some s') :
    ∃ old phase, s.workers[a.worker]? = some old ∧ s'.workers = s.workers.set a.worker phase ∧
      (s.returnedBy s' = none ∧ phase.handler = s.target a ∧ phase.rank < old.rank ∨
        s.returnedBy s' = some (s.target a) ∧ phase = .idle) := by
  cases a with
  | getHandler i httpVersion =>
    simp only [step] at hstep
    split at hstep
    · rename_i hended hi
      obtain ⟨hlt, hidle⟩ := List.getElem?_eq_some_iff.mp hi
      split at hstep
      · rename_i hnone
        obtain rfl := Option.some.inj hstep
        refine ⟨.idle, .idle, hi, ?_, Or.inr ⟨?_, rfl⟩⟩
        · exact (hidle ▸ List.set_getElem_self hlt).symm
        · rw [returnedBy_append (httpVersion, none) rfl, target, hnone]
          rfl
      · rename_i h hsome
        obtain rfl := Option.some.inj hstep
        refine ⟨.idle, .entered h, hi, rfl, Or.inl ⟨returnedBy_same rfl, ?_, ?_⟩⟩
        · simp [target, hsome, HandlerPhase.handler]
        · simp [HandlerPhase.rank]
    · contradiction
  | contains i =>
    simp only [step] at hstep
    split at hstep
    · rename_i h hended hi
      obtain rfl := Option.some.inj hstep
      refine ⟨.entered h, _, hi, rfl, Or.inl ⟨returnedBy_same rfl, ?_, ?_⟩⟩
      · split_ifs <;> simp [target, hi, HandlerPhase.handler]
      · split_ifs <;> simp [HandlerPhase.rank]
    · contradiction
  | get i =>
    simp only [step] at hstep
    split at hstep
    · rename_i h hended hi
      obtain ⟨value, hvalue⟩ := Option.isSome_iff_exists.mp (hc.found i h hi)
      have hclass := hc.keys h.version value hvalue
      rw [Handler.getHandler_version] at hclass
      simp only [hvalue, leave_some] at hstep
      obtain rfl := Option.some.inj hstep
      refine ⟨.found h, .idle, hi, rfl, Or.inr ⟨?_, rfl⟩⟩
      rw [returnedBy_append (h.version, some value) rfl]
      simp [target, hi, HandlerPhase.handler, Option.some.inj hclass]
    · contradiction
  | insert i =>
    simp only [step] at hstep
    split at hstep
    · rename_i h hended hi
      have hnone := hc.missing i h hi
      simp only [hnone, Option.isSome_none, Bool.false_eq_true, if_false, leave_some] at hstep
      obtain rfl := Option.some.inj hstep
      refine ⟨.missing h, .idle, hi, rfl, Or.inr ⟨?_, rfl⟩⟩
      rw [returnedBy_append (h.version, some ⟨s.made, h⟩) rfl]
      simp [target, hi, HandlerPhase.handler]
    · contradiction

end SharedCache

section Lift

variable {World : Type} {answer : World → Bytes → Option Bytes}

theorem WorkerThread.step_lift (t : WorkerThread) (a : WorkerAction Empty) :
    t.step answer a.lift = t.step (fun world _ => world.elim) a := by
  cases a with
  | answer world => exact world.elim
  | connect | test | poll _ _ | pollThrows | recvStatus | recvRequest | send | leave => rfl

theorem Process.step_lift (p : Process) (a : ProcessAction Empty) :
    p.step answer a.lift = p.step (fun world _ => world.elim) a := by
  cases a with
  | worker i a =>
    simp only [step, ProcessAction.lift, advance]
    cases p.workers[i]? with
    | none => rfl
    | some t => simp only [WorkerThread.step_lift]
  | deliver _ | launch | announce _ | poll _ _ | throws | recvHttp | sendRequest _ | recvReply _
  | sendHttp | leave => rfl

/-- Every action but computing a response is one of those. -/
theorem ProcessAction.exists_lift (a : ProcessAction World) :
    (∃ i world, a = .worker i (.answer world)) ∨ ∃ b : ProcessAction Empty, a = b.lift := by
  cases a with
  | deliver m => exact Or.inr ⟨.deliver m, rfl⟩
  | throws => exact Or.inr ⟨.throws, rfl⟩
  | launch => exact Or.inr ⟨.launch, rfl⟩
  | announce heard => exact Or.inr ⟨.announce heard, rfl⟩
  | poll stream replies => exact Or.inr ⟨.poll stream replies, rfl⟩
  | recvHttp => exact Or.inr ⟨.recvHttp, rfl⟩
  | sendRequest i => exact Or.inr ⟨.sendRequest i, rfl⟩
  | recvReply i => exact Or.inr ⟨.recvReply i, rfl⟩
  | sendHttp => exact Or.inr ⟨.sendHttp, rfl⟩
  | leave => exact Or.inr ⟨.leave, rfl⟩
  | worker i a =>
    cases a with
    | answer world => exact Or.inl ⟨i, world, rfl⟩
    | connect => exact Or.inr ⟨.worker i .connect, rfl⟩
    | test => exact Or.inr ⟨.worker i .test, rfl⟩
    | poll status request => exact Or.inr ⟨.worker i (.poll status request), rfl⟩
    | pollThrows => exact Or.inr ⟨.worker i .pollThrows, rfl⟩
    | recvStatus => exact Or.inr ⟨.worker i .recvStatus, rfl⟩
    | recvRequest => exact Or.inr ⟨.worker i .recvRequest, rfl⟩
    | send => exact Or.inr ⟨.worker i .send, rfl⟩
    | leave => exact Or.inr ⟨.worker i .leave, rfl⟩

theorem ProcessAction.internal_lift (a : ProcessAction Empty) :
    (a.lift : ProcessAction World).Internal ↔ a.Internal := by
  cases a with
  | worker i a =>
    cases a with
    | answer world => exact world.elim
    | connect | test | poll _ _ | pollThrows | recvStatus | recvRequest | send | leave => rfl
  | deliver _ | launch | announce _ | poll _ _ | throws | recvHttp | sendRequest _ | recvReply _
  | sendHttp | leave => rfl

/-- A worker that is to compute a response does nothing else. -/
theorem WorkerThread.answering_waits (t : WorkerThread) (id : ZmqIdentity) (frame : Bytes)
    (hplace : t.place = .answering id frame) (a : WorkerAction Empty) :
    t.step answer a.lift = none := by
  cases a with
  | answer world => exact world.elim
  | connect | test | poll _ _ | pollThrows | recvStatus | recvRequest | send | leave =>
    simp [WorkerAction.lift, step, hplace]

namespace Process

variable {p p' : Process}

/-- What the others do leaves a worker where it computes. -/
theorem answering_kept (h : (machine answer).Reachable p) (a : ProcessAction Empty)
    (hstep : p.step answer a.lift = some p') (i : Nat) (t : WorkerThread) (id : ZmqIdentity)
    (frame : Bytes) (ht : p.workers[i]? = some t) (hplace : t.place = .answering id frame) :
    ∃ t', p'.workers[i]? = some t' ∧ t'.place = .answering id frame := by
  obtain ⟨-, hadvance⟩ := step_advance _ hstep
  have hset : ∀ (j : Nat) (r r' : WorkerThread), p.workers[j]? = some r → r'.place = r.place →
      ∃ t', (p.workers.set j r')[i]? = some t' ∧ t'.place = .answering id frame := by
    intro j r r' hr hsame
    by_cases hij : i = j
    · subst hij
      obtain rfl := Option.some.inj (ht.symm.trans hr)
      have hlt := (List.getElem?_eq_some_iff.mp ht).1
      exact ⟨r', List.getElem?_set_self hlt, hsame.trans hplace⟩
    · exact ⟨t, (List.getElem?_set_ne (Ne.symm hij)).trans ht, hplace⟩
  cases a with
  | deliver m =>
    obtain ⟨-, rfl⟩ := advance_deliver m hadvance
    exact ⟨t, ht, hplace⟩
  | launch =>
    obtain ⟨j, hlaunching, ⟨r, hr, rfl⟩ | ⟨-, rfl⟩⟩ := advance_launch hadvance
    · obtain ⟨e, -, hshows, -⟩ := reachable_shows answer p h
      have hij : i ≠ j := by
        rintro rfl
        have hunstarted := (hshows.launched i t ht).mpr ⟨i, le_rfl, hlaunching⟩
        simp [hplace] at hunstarted
      exact ⟨t, (List.getElem?_set_ne hij.symm).trans ht, hplace⟩
    · exact ⟨t, ht, hplace⟩
  | announce heard =>
    obtain ⟨-, rfl⟩ := advance_announce heard hadvance
    refine ⟨if i ∈ heard then t.hear (lit "START") else t, by simp [ht], ?_⟩
    split_ifs
    · rw [WorkerThread.hear]
      split_ifs <;> exact hplace
    · exact hplace
  | poll stream replies =>
    obtain ⟨-, -, -, -, rfl⟩ := advance_poll stream replies hadvance
    exact ⟨t, ht, hplace⟩
  | throws =>
    obtain ⟨-, rfl⟩ := advance_throws hadvance
    exact ⟨t, ht, hplace⟩
  | recvHttp =>
    obtain ⟨replies, pc, part, http, pc', -, -, -, rfl⟩ := advance_recvHttp hadvance
    exact ⟨t, ht, hplace⟩
  | sendRequest j =>
    obtain ⟨replies, part, more, left, -, ⟨-, rfl⟩ | ⟨-, r, hr, -, rfl⟩⟩ :=
      advance_sendRequest j hadvance
    · exact ⟨t, ht, hplace⟩
    · exact hset j r (r.request _) hr rfl
  | recvReply j =>
    obtain ⟨pc, r, part, outgoing, pc', -, hr, -, -, rfl⟩ := advance_recvReply j hadvance
    exact hset j r { r with replies := ⟨r.replies.staged, outgoing.waiting⟩ } hr rfl
  | sendHttp =>
    obtain ⟨frame, more, left, -, rfl⟩ := advance_sendHttp hadvance
    exact ⟨t, ht, hplace⟩
  | leave =>
    obtain ⟨replies, -, rfl⟩ | ⟨-, rfl⟩ := advance_leave hadvance
    · exact ⟨t, ht, hplace⟩
    · exact ⟨t, ht, hplace⟩
  | worker j a =>
    obtain ⟨r, r', hr, hmove, rfl⟩ := advance_worker j a.lift hadvance
    have hij : i ≠ j := by
      rintro rfl
      obtain rfl := Option.some.inj (ht.symm.trans hr)
      rw [t.answering_waits id frame hplace a] at hmove
      simp at hmove
    exact ⟨t, (List.getElem?_set_ne hij.symm).trans ht, hplace⟩

/-- Only the text counts that is computed for what the worker is at. -/
theorem step_text (p : Process) (i : Nat) (t : WorkerThread) (id : ZmqIdentity) (frame : Bytes)
    (ht : p.workers[i]? = some t) (hplace : t.place = .answering id frame) (world : World)
    (text : Option Bytes) (htext : answer world frame = text) :
    p.step (fun (_ : Unit) _ => text) (.worker i (.answer ())) =
      p.step answer (.worker i (.answer world)) := by
  simp only [step, advance, ht, WorkerThread.step, hplace, htext]

end Process

end Lift

namespace SharedProcess

variable {World : Type} {bld : Build} {program : World → Bytes → HandlerAsking (Option Bytes)}
  {answer : World → Bytes → Option Bytes} {s s' : SharedProcess}

theorem step_process (answer : World → Bytes → Option Bytes) (a : ProcessAction Empty)
    (h : step bld program s (.process a) = some s') :
    ∃ process, s.process.step answer a.lift = some process ∧
      s' = { s with process := process } := by
  obtain ⟨-, hstep⟩ := Option.ite_none_left_eq_some.mp h
  obtain ⟨process, hprocess, rfl⟩ := Option.map_eq_some_iff.mp hstep
  exact ⟨process, (s.process.step_lift a).trans hprocess, rfl⟩

theorem step_compute (i : Nat) (world : World)
    (h : step bld program s (.compute i world) = some s') :
    ∃ t id frame, s.process.workers[i]? = some t ∧ t.place = .answering id frame ∧
      s.computing[i]? = some none ∧
      s' = { s with computing := s.computing.set i (some (program world frame)) } := by
  obtain ⟨-, hstep⟩ := Option.ite_none_left_eq_some.mp h
  simp only at hstep
  split at hstep
  · rename_i t ht hnone
    split at hstep
    · rename_i id frame hplace
      exact ⟨t, id, frame, ht, hplace, hnone, (Option.some.inj hstep).symm⟩
    · contradiction
  · contradiction

theorem step_cache (a : CacheAction) (h : step bld program s (.cache a) = some s') :
    ∃ version next cache, s.computing[a.worker]? = some (some (.ask version next)) ∧
      a.asks version = true ∧ s.cache.step bld a = some cache ∧ s' = { s with
        cache := cache
        computing := resume s.computing a.worker next (s.cache.returnedBy cache) } := by
  obtain ⟨-, hstep⟩ := Option.ite_none_left_eq_some.mp h
  simp only at hstep
  split at hstep
  · rename_i version next hcomputing
    obtain ⟨hasks, hmap⟩ := Option.ite_none_right_eq_some.mp hstep
    obtain ⟨cache, hcache, rfl⟩ := Option.map_eq_some_iff.mp hmap
    exact ⟨version, next, cache, hcomputing, hasks, hcache, rfl⟩
  · contradiction

theorem step_respond (i : Nat) (h : step bld program s (.respond i) = some s') :
    ∃ text process, s.computing[i]? = some (some (.done text)) ∧
      s.process.step (fun (_ : Unit) _ => text) (.worker i (.answer ())) = some process ∧
      s' = { s with process := process, computing := s.computing.set i none } := by
  obtain ⟨-, hstep⟩ := Option.ite_none_left_eq_some.mp h
  simp only at hstep
  split at hstep
  · rename_i text hcomputing
    obtain ⟨process, hprocess, rfl⟩ := Option.map_eq_some_iff.mp hstep
    exact ⟨text, process, hcomputing, hprocess, rfl⟩
  · contradiction

/-- The threads are where they could be if every computation were one step: what is left of one
comes to the answer, and a worker is in a call of the cache only for the version it asks for. -/
structure Joint (answer : World → Bytes → Option Bytes) (s : SharedProcess) : Prop where
  reachable : (Process.machine answer).Reachable s.process
  consistent : s.cache.Consistent
  callers : s.cache.workers.length = Process.workerCount
  computers : s.computing.length = Process.workerCount
  computes : ∀ (i : Nat) (rest : HandlerAsking (Option Bytes)),
    s.computing[i]? = some (some rest) → ∃ t id frame world,
      s.process.workers[i]? = some t ∧ t.place = .answering id frame ∧
      rest.answered Handler.getHandler = answer world frame
  calls : ∀ (i : Nat) (phase : HandlerPhase) (h : Handler), s.cache.workers[i]? = some phase →
    phase.handler = some h → ∃ version next,
      s.computing[i]? = some (some (.ask version next)) ∧ Handler.getHandler version = some h

theorem start_joint (answer : World → Bytes → Option Bytes) : Joint answer start where
  reachable := .initial _ rfl
  consistent := SharedCache.start_consistent _
  callers := by simp [start, SharedCache.start]
  computers := by simp [start]
  computes i rest h := by simp [start, List.getElem?_replicate] at h
  calls i phase h hi hphase := by
    simp only [start, SharedCache.start, List.getElem?_replicate,
      Option.ite_none_right_eq_some] at hi
    obtain ⟨-, hidle⟩ := hi
    obtain rfl := Option.some.inj hidle
    simp [HandlerPhase.handler] at hphase

theorem Joint.process (hs : Joint answer s) (a : ProcessAction Empty)
    (hstep : step bld program s (.process a) = some s') : Joint answer s' := by
  obtain ⟨process, hprocess, rfl⟩ := step_process answer a hstep
  refine { hs with reachable := .step _ _ a.lift hs.reachable hprocess, computes := ?_ }
  intro i rest hrest
  obtain ⟨t, id, frame, world, ht, hplace, hanswer⟩ := hs.computes i rest hrest
  obtain ⟨t', ht', hplace'⟩ :=
    Process.answering_kept hs.reachable a hprocess i t id frame ht hplace
  exact ⟨t', id, frame, world, ht', hplace', hanswer⟩

theorem Joint.compute (hprogram : ∀ world frame,
      (program world frame).answered Handler.getHandler = answer world frame)
    (hs : Joint answer s) (i : Nat) (world : World)
    (hstep : step bld program s (.compute i world) = some s') : Joint answer s' := by
  obtain ⟨t, id, frame, ht, hplace, hnone, rfl⟩ := step_compute i world hstep
  refine { hs with computers := by simpa using hs.computers, computes := ?_, calls := ?_ }
  · intro j rest hrest
    rcases getElem?_set_cases _ _ _ _ _ hrest with ⟨rfl, hsame⟩ | ⟨-, hrest⟩
    · rw [Option.some.inj hsame]
      exact ⟨t, id, frame, world, ht, hplace, hprogram world frame⟩
    · exact hs.computes j rest hrest
  · intro j phase h hj hphase
    obtain ⟨version, next, hasking, hhandler⟩ := hs.calls j phase h hj hphase
    have hne : j ≠ i := by
      rintro rfl
      rw [hnone] at hasking
      simp at hasking
    exact ⟨version, next, (List.getElem?_set_ne hne.symm).trans hasking, hhandler⟩

/-- The class that a worker's step has to return is that of the version it asks for. -/
theorem Joint.target (hs : Joint answer s) (a : CacheAction) (version : Bytes)
    (next : Option Handler → HandlerAsking (Option Bytes))
    (hcomputing : s.computing[a.worker]? = some (some (.ask version next)))
    (hasks : a.asks version = true) (hstep : ∃ cache, s.cache.step bld a = some cache) :
    s.cache.target a = Handler.getHandler version := by
  have hin : ∀ i phase h, a.worker = i → s.cache.workers[i]? = some phase →
      phase.handler = some h → some h = Handler.getHandler version := by
    rintro i phase h rfl hi hphase
    obtain ⟨version', next', hasking, hhandler⟩ := hs.calls _ phase h hi hphase
    rw [hcomputing, Option.some.injEq, Option.some.injEq, Asking.ask.injEq] at hasking
    rw [hasking.1, hhandler]
  obtain ⟨cache, hcache⟩ := hstep
  cases a with
  | getHandler i httpVersion =>
    obtain rfl : httpVersion = version := by simpa [CacheAction.asks] using hasks
    rfl
  | contains i | get i | insert i =>
    simp only [SharedCache.step] at hcache
    split at hcache
    · rename_i h hended hi
      rw [← hin i _ h rfl hi rfl]
      simp [SharedCache.target, hi, HandlerPhase.handler]
    · contradiction

theorem Joint.cache (hs : Joint answer s) (a : CacheAction) (halone : s.cache.alone a = true)
    (hstep : step bld program s (.cache a) = some s') : Joint answer s' := by
  obtain ⟨version, next, cache, hcomputing, hasks, hcache, rfl⟩ := step_cache a hstep
  have htarget := hs.target a version next hcomputing hasks ⟨cache, hcache⟩
  obtain ⟨old, phase, hold, hworkers, houtcome⟩ := SharedCache.step_call hs.consistent a hcache
  rw [htarget] at houtcome
  have hconsistent := SharedCache.step_consistent bld _ _ a hs.consistent halone hcache
  have hcallers : cache.workers.length = Process.workerCount := by
    rw [hworkers, List.length_set, hs.callers]
  rcases houtcome with ⟨hnone, hphase, -⟩ | ⟨hsome, rfl⟩
  · -- The call goes on, for the same version.
    simp only [hnone, resume]
    refine ⟨hs.reachable, hconsistent, hcallers, hs.computers, hs.computes, ?_⟩
    intro j phase' h hj hphase'
    simp only [hworkers] at hj
    rcases getElem?_set_cases _ _ _ _ _ hj with ⟨rfl, rfl⟩ | ⟨-, hj⟩
    · exact ⟨version, next, hcomputing, hphase.symm.trans hphase'⟩
    · exact hs.calls j phase' h hj hphase'
  · -- It returns what the computation goes on with.
    simp only [hsome, resume]
    refine ⟨hs.reachable, hconsistent, hcallers, by simpa using hs.computers, ?_, ?_⟩
    · intro j rest hrest
      rcases getElem?_set_cases _ _ _ _ _ hrest with ⟨rfl, hsame⟩ | ⟨-, hrest⟩
      · obtain ⟨t, id, frame, world, ht, hplace, hanswer⟩ := hs.computes _ _ hcomputing
        rw [Option.some.inj hsame]
        exact ⟨t, id, frame, world, ht, hplace, hanswer⟩
      · exact hs.computes j rest hrest
    · intro j phase' h hj hphase'
      simp only [hworkers] at hj
      rcases getElem?_set_cases _ _ _ _ _ hj with ⟨rfl, rfl⟩ | ⟨hne, hj⟩
      · contradiction
      · obtain ⟨version', next', hasking, hhandler⟩ := hs.calls j phase' h hj hphase'
        exact ⟨version', next', (List.getElem?_set_ne hne.symm).trans hasking, hhandler⟩

theorem Joint.respond (hs : Joint answer s) (i : Nat)
    (hstep : step bld program s (.respond i) = some s') : Joint answer s' := by
  obtain ⟨text, process, hdone, hprocess, rfl⟩ := step_respond i hstep
  obtain ⟨t, id, frame, world, ht, hplace, hanswer⟩ := hs.computes i _ hdone
  rw [s.process.step_text i t id frame ht hplace world text hanswer.symm] at hprocess
  obtain ⟨-, hadvance⟩ := Process.step_advance _ hprocess
  obtain ⟨r, r', -, -, hset⟩ := Process.advance_worker i _ hadvance
  refine ⟨.step _ _ _ hs.reachable hprocess, hs.consistent, hs.callers,
    by simpa using hs.computers, ?_, ?_⟩
  · intro j rest hrest
    rcases getElem?_set_cases _ _ _ _ _ hrest with ⟨-, hnone⟩ | ⟨hne, hrest⟩
    · contradiction
    · obtain ⟨u, id', frame', world', hu, hplace', hanswer'⟩ := hs.computes j rest hrest
      refine ⟨u, id', frame', world', ?_, hplace', hanswer'⟩
      rw [hset]
      exact (List.getElem?_set_ne hne.symm).trans hu
  · intro j phase h hj hphase
    obtain ⟨version, next, hasking, hhandler⟩ := hs.calls j phase h hj hphase
    have hne : j ≠ i := by
      rintro rfl
      rw [hdone] at hasking
      simp at hasking
    exact ⟨version, next, (List.getElem?_set_ne hne.symm).trans hasking, hhandler⟩

theorem reachable_joint (hprogram : ∀ world frame,
      (program world frame).answered Handler.getHandler = answer world frame)
    (h : (aloneMachine bld program).Reachable s) : Joint answer s := by
  apply Machine.invariant (aloneMachine bld program) (Joint answer) _ _ s h
  · rintro s rfl
    exact start_joint answer
  · intro s s' a hs hstep
    obtain ⟨halone, hstep⟩ := Option.ite_none_right_eq_some.mp hstep
    cases a with
    | process a => exact hs.process a hstep
    | compute i world => exact hs.compute hprogram i world hstep
    | cache a => exact hs.cache a halone hstep
    | respond i => exact hs.respond i hstep

end SharedProcess

end HttpCpp
