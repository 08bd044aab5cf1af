import HttpCpp.Server.SharedRefinement

namespace HttpCpp

/-- The actions after which a thread has got further. -/
def SharedAction.Internal {World : Type} : SharedAction World → Prop
  | .process a => a.Internal
  | .compute _ _ | .cache _ | .respond _ => True

theorem SharedAction.alone_iff {World : Type} {bld : Build}
    {program : World → Bytes → HandlerAsking (Option Bytes)} {s s' : SharedProcess}
    (a : SharedAction World) : (SharedProcess.aloneMachine bld program).step s a = some s' ↔
      s.alone a = true ∧ SharedProcess.step bld program s a = some s' :=
  Option.ite_none_right_eq_some

namespace SharedCache

variable {s : SharedCache}

/-- A step that is not taken alone finds missing what another worker has found missing. -/
theorem missing_of_not_alone (a : CacheAction) (halone : s.alone a = false) :
    ∃ (h : Handler) (j : Nat), s.workers[j]? = some (.missing h) ∧
      s.workers[a.worker]? = some (.entered h) := by
  cases a with
  | contains i =>
    simp only [alone] at halone
    split at halone
    · rename_i h hi
      have hmem : HandlerPhase.missing h ∈ s.workers := by
        simpa using (Bool.or_eq_false_iff.mp halone).2
      obtain ⟨j, hj⟩ := List.getElem?_of_mem hmem
      exact ⟨h, j, hj, hi⟩
    · contradiction
  | getHandler i httpVersion | get i | insert i => simp [alone] at halone

theorem idle_alone (a : CacheAction) (hothers : ∀ (j : Nat) (phase : HandlerPhase),
    s.workers[j]? = some phase → j ≠ a.worker → phase = .idle) : s.alone a = true := by
  by_contra hrace
  obtain ⟨h, j, hj, hentered⟩ := missing_of_not_alone a (by simpa using hrace)
  by_cases hsame : j = a.worker
  · rw [hsame, hentered] at hj
    simp at hj
  · have hidle := hothers j _ hj hsame
    contradiction

end SharedCache

namespace SharedProcess

variable {World : Type} {bld : Build} {program : World → Bytes → HandlerAsking (Option Bytes)}
  {answer : World → Bytes → Option Bytes} {s s' : SharedProcess}

section Enabled

variable (bld : Build) (program : World → Bytes → HandlerAsking (Option Bytes))
  (hended : s.ended = false)

include hended

theorem process_enabled (a : ProcessAction Empty) (process : Process)
    (hprocess : s.process.step answer a.lift = some process) :
    (aloneMachine bld program).step s (.process a) = some { s with process := process } := by
  refine (SharedAction.alone_iff _).mpr ⟨rfl, ?_⟩
  rw [s.process.step_lift] at hprocess
  simp [step, hended, hprocess]

theorem compute_enabled (i : Nat) (world : World) (t : WorkerThread) (id : ZmqIdentity)
    (frame : Bytes) (ht : s.process.workers[i]? = some t) (hplace : t.place = .answering id frame)
    (hnone : s.computing[i]? = some none) :
    (aloneMachine bld program).step s (.compute i world) =
      some { s with computing := s.computing.set i (some (program world frame)) } := by
  refine (SharedAction.alone_iff _).mpr ⟨rfl, ?_⟩
  simp [step, hended, ht, hnone, hplace]

theorem cache_enabled (a : CacheAction) (version : Bytes)
    (next : Option Handler → HandlerAsking (Option Bytes)) (cache : SharedCache)
    (hcomputing : s.computing[a.worker]? = some (some (.ask version next)))
    (hasks : a.asks version = true) (halone : s.cache.alone a = true)
    (hcache : s.cache.step bld a = some cache) :
    (aloneMachine bld program).step s (.cache a) = some { s with
      cache := cache
      computing := resume s.computing a.worker next (s.cache.returnedBy cache) } := by
  refine (SharedAction.alone_iff _).mpr ⟨halone, ?_⟩
  simp [step, hended, hcomputing, hasks, hcache]

theorem respond_enabled (i : Nat) (text : Option Bytes) (process : Process)
    (hdone : s.computing[i]? = some (some (.done text)))
    (hprocess : s.process.step (fun (_ : Unit) _ => text) (.worker i (.answer ())) =
      some process) :
    (aloneMachine bld program).step s (.respond i) =
      some { s with process := process, computing := s.computing.set i none } := by
  refine (SharedAction.alone_iff _).mpr ⟨rfl, ?_⟩
  simp [step, hended, hdone, hprocess]

end Enabled

theorem Joint.ended (hs : Joint answer s) (hrunning : s.process.terminated = false) :
    s.ended = false := by
  rw [SharedProcess.ended, hrunning, hs.consistent.assertions.2]
  rfl

/-- A worker in the cache has a step there for the version it asks for. -/
theorem Joint.call_enabled (bld : Build) (hs : Joint answer s) (i : Nat) (version : Bytes)
    (next : Option Handler → HandlerAsking (Option Bytes))
    (hcomputing : s.computing[i]? = some (some (.ask version next))) :
    ∃ a cache, a.worker = i ∧ a.asks version = true ∧ s.cache.step bld a = some cache := by
  have hlt : i < s.cache.workers.length := by
    rw [hs.callers, ← hs.computers]
    exact (List.getElem?_eq_some_iff.mp hcomputing).1
  have hi := List.getElem?_eq_getElem hlt
  by_cases hidle : s.cache.workers[i] = .idle
  · rw [hidle] at hi
    refine ⟨.getHandler i version, ?_⟩
    cases hhandler : Handler.getHandler version with
    | none =>
      exact ⟨_, rfl, by simp [CacheAction.asks],
        by simp only [SharedCache.step, hs.consistent.assertions.2, hi, hhandler]; rfl⟩
    | some h =>
      exact ⟨_, rfl, by simp [CacheAction.asks],
        by simp only [SharedCache.step, hs.consistent.assertions.2, hi, hhandler]; rfl⟩
  · have hserves := SharedCache.consistent_serves bld s.cache hs.consistent
    obtain ⟨a, ha, hsome⟩ := hserves.goesOn i _ hi hidle
    obtain ⟨cache, hcache⟩ := Option.isSome_iff_exists.mp hsome
    have hwithin : a.worker = i ∧ a.asks version = true := by
      simp only [List.mem_cons, List.not_mem_nil, or_false] at ha
      rcases ha with rfl | rfl | rfl <;> exact ⟨rfl, rfl⟩
    exact ⟨a, cache, hwithin.1, hwithin.2, hcache⟩

section Served

variable (hprogram : ∀ world frame,
  (program world frame).answered Handler.getHandler = answer world frame)

include hprogram

/-- While the other workers are not in the cache a call comes to its end, and returns the class for
its version; by induction on how many steps are left of it. -/
theorem call_ends (h : (aloneMachine bld program).Reachable s)
    (hrunning : s.process.terminated = false) (i : Nat) (version : Bytes)
    (next : Option Handler → HandlerAsking (Option Bytes))
    (hcomputing : s.computing[i]? = some (some (.ask version next)))
    (hothers : ∀ (j : Nat) (phase : HandlerPhase), s.cache.workers[j]? = some phase → j ≠ i →
      phase = .idle) :
    ∃ t, (aloneMachine bld program).Reachable t ∧ t.process = s.process ∧
      (∀ phase ∈ t.cache.workers, phase = .idle) ∧
      t.computing = s.computing.set i (some (next (Handler.getHandler version))) := by
  have hi : ∃ old, s.cache.workers[i]? = some old := by
    have hs := reachable_joint hprogram h
    refine ⟨_, List.getElem?_eq_getElem ?_⟩
    rw [hs.callers, ← hs.computers]
    exact (List.getElem?_eq_some_iff.mp hcomputing).1
  obtain ⟨old, hi⟩ := hi
  induction hn : old.rank using Nat.strongRecOn generalizing s old with
  | ind n ih =>
    have hs := reachable_joint hprogram h
    obtain ⟨a, cache, rfl, hasks, hcache⟩ := hs.call_enabled bld i version next hcomputing
    have halone : s.cache.alone a = true := SharedCache.idle_alone a hothers
    have hstep := cache_enabled bld program (hs.ended hrunning) a version next cache
      hcomputing hasks halone hcache
    have htarget := hs.target a version next hcomputing hasks ⟨cache, hcache⟩
    obtain ⟨before, phase, hbefore, hworkers, houtcome⟩ :=
      SharedCache.step_call hs.consistent a hcache
    obtain rfl := Option.some.inj (hi.symm.trans hbefore)
    have hlt := (List.getElem?_eq_some_iff.mp hi).1
    rw [htarget] at houtcome
    rcases houtcome with ⟨hnone, -, hlower⟩ | ⟨hsome, rfl⟩
    · simp only [hnone, resume] at hstep
      have hstill : ∀ (j : Nat) (phase' : HandlerPhase), cache.workers[j]? = some phase' →
          j ≠ a.worker → phase' = .idle := by
        intro j phase' hj hne
        rw [hworkers, List.getElem?_set_ne (Ne.symm hne)] at hj
        exact hothers j phase' hj hne
      obtain ⟨t, ht, hprocess, hidle, hcomputed⟩ :=
        ih phase.rank (hn ▸ hlower) (.step _ _ _ h hstep) hrunning hcomputing hstill phase
          (by rw [hworkers, List.getElem?_set_self hlt]) rfl
      exact ⟨t, ht, hprocess, hidle, hcomputed⟩
    · simp only [hsome, resume] at hstep
      refine ⟨_, .step _ _ _ h hstep, rfl, ?_, rfl⟩
      intro phase hmem
      obtain ⟨j, hj⟩ := List.getElem?_of_mem hmem
      rw [hworkers] at hj
      rcases getElem?_set_cases _ _ _ _ _ hj with ⟨-, rfl⟩ | ⟨hne, hj⟩
      · rfl
      · exact hothers j phase hj hne

/-- A computation comes to its result, by induction on what is left of it. -/
theorem computation_ends (rest : HandlerAsking (Option Bytes)) (i : Nat)
    (h : (aloneMachine bld program).Reachable s) (hrunning : s.process.terminated = false)
    (hidle : ∀ phase ∈ s.cache.workers, phase = .idle)
    (hcomputing : s.computing[i]? = some (some rest)) :
    ∃ t, (aloneMachine bld program).Reachable t ∧ t.process = s.process ∧
      (∀ phase ∈ t.cache.workers, phase = .idle) ∧
      t.computing = s.computing.set i (some (.done (rest.answered Handler.getHandler))) := by
  induction rest generalizing s with
  | done text =>
    refine ⟨s, h, rfl, hidle, ?_⟩
    obtain ⟨hlt, hsame⟩ := List.getElem?_eq_some_iff.mp hcomputing
    exact (hsame ▸ List.set_getElem_self hlt).symm
  | ask version next ih =>
    obtain ⟨t, ht, hprocess, hidle', hnext⟩ := call_ends hprogram h hrunning i version next
      hcomputing (fun j phase hj _ => hidle phase (List.mem_of_getElem? hj))
    have hlt := (List.getElem?_eq_some_iff.mp hcomputing).1
    obtain ⟨u, hu, hprocess', hidle'', hdone⟩ := ih (Handler.getHandler version) ht
      (by rw [hprocess, hrunning]) hidle' (by rw [hnext, List.getElem?_set_self hlt])
    refine ⟨u, hu, hprocess'.trans hprocess, hidle'', ?_⟩
    rw [hdone, hnext, List.set_set]
    rfl

/-- No worker computes. -/
def Quiet (s : SharedProcess) : Prop :=
  (∀ phase ∈ s.cache.workers, phase = .idle) ∧
    s.computing = List.replicate Process.workerCount none

/-- Whatever the threads can do when every computation is one step, they can do when it is not. -/
theorem exists_quiet (p : Process) (h : (Process.machine answer).Reachable p) :
    ∃ s, (aloneMachine bld program).Reachable s ∧ s.process = p ∧ Quiet s := by
  induction h with
  | initial p hp =>
    obtain rfl : p = Process.start := hp
    refine ⟨start, .initial _ rfl, rfl, ?_, rfl⟩
    simp [start, SharedCache.start]
  | step p p' a hp hstep ih =>
    obtain ⟨s, hs, rfl, hidle, hcomputing⟩ := ih
    obtain ⟨hrunning, hadvance⟩ := Process.step_advance a hstep
    have hjoint := reachable_joint hprogram hs
    rcases ProcessAction.exists_lift a with ⟨i, world, rfl⟩ | ⟨b, rfl⟩
    · obtain ⟨t, t', ht, hmove, -⟩ := Process.advance_worker i _ hadvance
      obtain ⟨id, frame, hplace, -⟩ := WorkerThread.step_answer world hmove
      obtain ⟨e, -, hshows, -⟩ := Process.reachable_shows answer _ hjoint.reachable
      have hlt : i < Process.workerCount := by
        rw [← hshows.count]
        exact (List.getElem?_eq_some_iff.mp ht).1
      have hbegins := compute_enabled bld program (hjoint.ended hrunning) i
        world t id frame ht hplace (by simp [hcomputing, hlt])
      obtain ⟨u, hu, hprocess, hidle', hdone⟩ := computation_ends hprogram (program world frame) i
        (.step _ _ _ hs hbegins) hrunning hidle (by simp [hcomputing, hlt])
      have hjoint' := reachable_joint hprogram hu
      rw [hprogram] at hdone
      have hresponds := respond_enabled bld program
        (hjoint'.ended (by rw [hprocess, hrunning])) i (answer world frame) p'
        (by simp [hdone, hcomputing, hlt])
        (by
          rw [hprocess, s.process.step_text i t id frame ht hplace world _ rfl]
          exact hstep)
      refine ⟨_, .step _ _ _ hu hresponds, rfl, hidle', ?_⟩
      simp only [hdone, List.set_set, hcomputing, List.set_replicate_self]
    · have hmoves := process_enabled bld program (hjoint.ended hrunning) b p'
        hstep
      exact ⟨_, .step _ _ _ hs hmoves, rfl, hidle, hcomputing⟩

end Served

/-- A worker that is to compute a response has a step within the computation, unless another has one
in the cache that it has to wait for. -/
theorem Joint.answering_enabled [Nonempty World] (bld : Build)
    (program : World → Bytes → HandlerAsking (Option Bytes)) (hs : Joint answer s)
    (hended : s.ended = false) (i : Nat) (t : WorkerThread) (id : ZmqIdentity) (frame : Bytes)
    (ht : s.process.workers[i]? = some t) (hplace : t.place = .answering id frame) :
    ∃ a s', a.Internal ∧ (aloneMachine bld program).step s a = some s' := by
  obtain ⟨e, -, hshows, -⟩ := Process.reachable_shows answer _ hs.reachable
  have hlt : i < s.computing.length := by
    rw [hs.computers, ← hshows.count]
    exact (List.getElem?_eq_some_iff.mp ht).1
  have hi := List.getElem?_eq_getElem hlt
  rcases hcomputing : s.computing[i] with - | (text | ⟨version, next⟩)
  · rw [hcomputing] at hi
    let world : World := Classical.arbitrary World
    exact ⟨.compute i world, _, trivial,
      compute_enabled bld program hended i world t id frame ht hplace hi⟩
  · rw [hcomputing] at hi
    have hrunning : s.process.terminated = false := (Bool.or_eq_false_iff.mp hended).1
    obtain ⟨process, hprocess⟩ : ∃ process,
        s.process.step (fun (_ : Unit) _ => text) (.worker i (.answer ())) = some process := by
      simp [Process.step, hrunning, Process.advance, ht, WorkerThread.step, hplace]
    exact ⟨.respond i, _, trivial, respond_enabled bld program hended i text process hi hprocess⟩
  · rw [hcomputing] at hi
    obtain ⟨a, cache, rfl, hasks, hcache⟩ := hs.call_enabled bld i version next hi
    cases halone : s.cache.alone a with
    | true =>
      exact ⟨.cache a, _, trivial,
        cache_enabled bld program hended a version next cache hi hasks halone hcache⟩
    | false =>
      -- Another worker has found the version missing, and can insert its handler.
      obtain ⟨h, j, hj, -⟩ := SharedCache.missing_of_not_alone a halone
      obtain ⟨version', next', hasking, -⟩ := hs.calls j _ h hj rfl
      have hnone := hs.consistent.missing j h hj
      obtain ⟨cache', hinsert, -⟩ :=
        SharedCache.insert_added bld s.cache j h hs.consistent.assertions.2 hj hnone
      exact ⟨.cache (.insert j), _, trivial,
        cache_enabled bld program hended (.insert j) version' next' cache' hasking rfl rfl hinsert⟩

/-- Where the threads can do no more by themselves, they could do no more if every computation were
one step. -/
theorem Joint.stuck [Nonempty World] (hs : Joint answer s)
    (hstuck : (aloneMachine bld program).Stuck SharedAction.Internal s) :
    (Process.machine answer).Stuck ProcessAction.Internal s.process := by
  intro a ha
  by_contra hsome
  obtain ⟨process, hprocess⟩ := Option.ne_none_iff_exists'.mp hsome
  obtain ⟨hrunning, hadvance⟩ := Process.step_advance a hprocess
  have hended := hs.ended hrunning
  rcases ProcessAction.exists_lift a with ⟨i, world, rfl⟩ | ⟨b, rfl⟩
  · obtain ⟨t, t', ht, hmove, -⟩ := Process.advance_worker i _ hadvance
    obtain ⟨id, frame, hplace, -⟩ := WorkerThread.step_answer world hmove
    obtain ⟨c, s', hc, hstep⟩ := hs.answering_enabled bld program hended i t
      id frame ht hplace
    rw [hstuck c hc] at hstep
    contradiction
  · have hmoves := process_enabled bld program hended b process hprocess
    rw [hstuck (.process b) (b.internal_lift.mp ha)] at hmoves
    contradiction

/-- Where they can do no more, and the program has not ended, no worker computes. -/
theorem Joint.quiet [Nonempty World] (hs : Joint answer s) (hended : s.ended = false)
    (hstuck : (aloneMachine bld program).Stuck SharedAction.Internal s) : Quiet s := by
  have hnone : ∀ (i : Nat) (rest : HandlerAsking (Option Bytes)),
      s.computing[i]? ≠ some (some rest) := by
    intro i rest hrest
    obtain ⟨t, id, frame, world, ht, hplace, -⟩ := hs.computes i rest hrest
    obtain ⟨a, s', ha, hstep⟩ := hs.answering_enabled bld program hended i t
      id frame ht hplace
    rw [hstuck a ha] at hstep
    contradiction
  refine ⟨?_, List.eq_replicate_iff.mpr ⟨hs.computers, ?_⟩⟩
  · intro phase hmem
    obtain ⟨i, hi⟩ := List.getElem?_of_mem hmem
    by_contra hne
    have hin : phase.handler ≠ none := fun hidle => hne (phase.handler_none hidle)
    obtain ⟨h, hphase⟩ := Option.ne_none_iff_exists'.mp hin
    obtain ⟨version, next, hasking, -⟩ := hs.calls i phase h hi hphase
    exact hnone i _ hasking
  · intro computation hmem
    obtain ⟨i, hi⟩ := List.getElem?_of_mem hmem
    cases computation with
    | none => rfl
    | some rest => exact absurd hi (hnone i rest)

end SharedProcess

end HttpCpp
