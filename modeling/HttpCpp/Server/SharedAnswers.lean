import HttpCpp.Server.SharedRuns

namespace HttpCpp

namespace HttpService

theorem parseRequestAsking_asked (bld : Build) (garbage : Method) (request : Bytes) :
    (parseRequestAsking bld garbage request).asked Handler.getHandler ≤ 1 := by
  unfold parseRequestAsking
  cases Handler.extractHttpVersion request with
  | error e => simp
  | ok httpVersion =>
    cases hhandler : Handler.getHandler httpVersion with
    | none => simp [hhandler]
    | some handler =>
      cases hparse : handler.parseRequest bld request (.fresh garbage) with
      | error e => simp [hhandler, hparse]
      | ok out =>
        simp only [Asking.asked_ask, hhandler, hparse]
        split_ifs <;> simp

theorem executeAsking_asked (date : Bytes) (garbage : Status) (factory : HttpResourceFactory)
    (request : HttpRequest) :
    (executeAsking date garbage factory request).asked Handler.getHandler ≤ 1 := by
  unfold executeAsking
  cases extractHost request with
  | error e => simp
  | ok host =>
    cases hhandler : Handler.getHandler request.httpVersion with
    | none => simp [hhandler]
    | some handler =>
      cases hforward : forward factory request.toGeneric (GenericResponse.fresh garbage) with
      | error e => simp [hhandler, hforward]
      | ok gresponse => simp [hhandler, hforward]

end HttpService

open HttpService

variable {Fn : Type}

/-- A frame costs at most two calls of `get_handler`. -/
theorem HttpWorker.siteAsking_asked (bld : Build) (websites : Websites (Service Fn))
    (env : ResourceContext) (call : Call Fn) (now : Moment) (frame : Bytes) :
    (siteAsking bld websites env call now frame).asked Handler.getHandler ≤ 2 := by
  simp only [siteAsking, processAsking, Asking.asked_bind, Asking.asked_done,
    parseRequestAsking_answered, Nat.add_zero]
  have hparses := parseRequestAsking_asked bld now.garbageMethod frame
  cases parseRequest bld now.garbageMethod frame with
  | error e =>
    simp only [Asking.asked_done]
    omega
  | ok request =>
    cases hfind : findWebsite websites request with
    | error e =>
      simp only [hfind, Asking.asked_done]
      omega
    | ok website =>
      have hexecutes := executeAsking_asked (httptime now.timeptr) now.garbage
        (website.2.factory bld env.fs (Resource.run env call)) request
      simp only [hfind]
      omega

namespace SharedProcess

variable {World : Type} {bld : Build} {program : World → Bytes → HandlerAsking (Option Bytes)}
  {answer : World → Bytes → Option Bytes} {s s' : SharedProcess}

/-- A call weighs more than its steps; a computation that is still to begin weighs more than one
with as many calls as it can have. -/
def weight (calls : Nat) : Option (HandlerAsking (Option Bytes)) → Nat
  | none => 4 * calls + 1
  | some rest => 4 * rest.asked Handler.getHandler

def rank (calls : Nat) (s : SharedProcess) : Nat :=
  (4 * calls + 2) * s.process.rank + (s.computing.map (weight calls)).sum +
    (s.cache.workers.map HandlerPhase.rank).sum

theorem phase_rank (phase : HandlerPhase) : 1 ≤ phase.rank ∧ phase.rank ≤ 3 := by
  cases phase with
  | idle | entered h | found h | missing h => simp [HandlerPhase.rank]

section Rank

variable (calls : Nat)

theorem Joint.rank_process (hs : Joint answer s) (a : ProcessAction Empty) (ha : a.Internal)
    (hstep : step bld program s (.process a) = some s') : s'.rank calls < s.rank calls := by
  obtain ⟨process, hprocess, rfl⟩ := step_process answer a hstep
  obtain ⟨e, -, hshows, -⟩ := Process.reachable_shows answer _ hs.reachable
  have hlower := hshows.rank_lt a.lift (a.internal_lift.mpr ha) hprocess
  have hscaled := Nat.mul_lt_mul_of_pos_left hlower (show 0 < 4 * calls + 2 by omega)
  simp only [rank]
  omega

theorem rank_compute (hcalls : ∀ world frame,
      (program world frame).asked Handler.getHandler ≤ calls) (i : Nat) (world : World)
    (hstep : step bld program s (.compute i world) = some s') : s'.rank calls < s.rank calls := by
  obtain ⟨t, id, frame, -, -, hnone, rfl⟩ := step_compute i world hstep
  have hsum := sum_set (weight calls) s.computing i none (some (program world frame)) hnone
  have hfew := hcalls world frame
  simp only [rank, weight] at hsum ⊢
  omega

theorem Joint.rank_cache (hs : Joint answer s) (a : CacheAction)
    (hstep : step bld program s (.cache a) = some s') : s'.rank calls < s.rank calls := by
  obtain ⟨version, next, cache, hcomputing, hasks, hcache, rfl⟩ := step_cache a hstep
  have htarget := hs.target a version next hcomputing hasks ⟨cache, hcache⟩
  obtain ⟨old, phase, hold, hworkers, houtcome⟩ := SharedCache.step_call hs.consistent a hcache
  rw [htarget] at houtcome
  have hphases := sum_set HandlerPhase.rank s.cache.workers a.worker old phase hold
  rcases houtcome with ⟨hnone, -, hlower⟩ | ⟨hsome, rfl⟩
  · simp only [hnone, resume, rank, hworkers]
    omega
  · have hsum := sum_set (weight calls) s.computing a.worker _
      (some (next (Handler.getHandler version))) hcomputing
    have hbounds := phase_rank old
    simp only [weight, Asking.asked_ask] at hsum
    simp only [HandlerPhase.rank] at hphases
    simp only [hsome, resume, rank, hworkers]
    omega

theorem Joint.rank_respond (hs : Joint answer s) (i : Nat)
    (hstep : step bld program s (.respond i) = some s') : s'.rank calls < s.rank calls := by
  obtain ⟨text, process, hdone, hprocess, rfl⟩ := step_respond i hstep
  obtain ⟨t, id, frame, world, ht, hplace, hanswer⟩ := hs.computes i _ hdone
  rw [s.process.step_text i t id frame ht hplace world text hanswer.symm] at hprocess
  obtain ⟨e, -, hshows, -⟩ := Process.reachable_shows answer _ hs.reachable
  have hlower := hshows.rank_lt (.worker i (.answer world)) trivial hprocess
  have hscaled : (4 * calls + 2) * (process.rank + 1) ≤ (4 * calls + 2) * s.process.rank :=
    Nat.mul_le_mul_left _ hlower
  have hsum := sum_set (weight calls) s.computing i _ none hdone
  simp only [weight, Asking.asked_done] at hsum
  rw [Nat.mul_succ] at hscaled
  simp only [rank]
  omega

/-- Every step of a thread, in the handler cache or outside it, leaves less to do. -/
theorem Joint.rank_lt (hcalls : ∀ world frame,
      (program world frame).asked Handler.getHandler ≤ calls) (hs : Joint answer s)
    (a : SharedAction World) (ha : a.Internal) (hstep : step bld program s a = some s') :
    s'.rank calls < s.rank calls := by
  cases a with
  | process a => exact hs.rank_process calls a ha hstep
  | compute i world => exact rank_compute calls hcalls i world hstep
  | cache a => exact hs.rank_cache calls a hstep
  | respond i => exact hs.rank_respond calls i hstep

end Rank

theorem warm_alone (hwarm : s.cache.Warm) (a : SharedAction World) : s.alone a = true := by
  cases a with
  | cache a => exact SharedCache.warm_alone hwarm a
  | process a | compute i world | respond i => rfl

theorem step_warm (hwarm : s.cache.Warm) (a : SharedAction World)
    (hstep : step bld program s a = some s') : s'.cache.Warm := by
  cases a with
  | cache a =>
    obtain ⟨version, next, cache, -, -, hcache, rfl⟩ := step_cache a hstep
    intro h
    exact SharedCache.step_cached a hcache h.version (hwarm h)
  | process a =>
    obtain ⟨-, hmap⟩ := Option.ite_none_left_eq_some.mp hstep
    obtain ⟨process, -, rfl⟩ := Option.map_eq_some_iff.mp hmap
    exact hwarm
  | compute i world =>
    obtain ⟨t, id, frame, -, -, -, rfl⟩ := step_compute i world hstep
    exact hwarm
  | respond i =>
    obtain ⟨text, process, -, -, rfl⟩ := step_respond i hstep
    exact hwarm

section Site

open HttpWorker

variable (bld : Build) (websites : Websites (Service Fn)) (env : ResourceContext) (call : Call Fn)

/-- The threads can be where they could be if every computation of a response were one step, and
nowhere else, as long as calls of the handler cache do not overlap on a missing version. -/
theorem alone_reachable_iff (p : Process) :
    (∃ s, (aloneMachine bld (siteAsking bld websites env call)).Reachable s ∧ s.process = p) ↔
      (Process.machine (siteAnswer bld websites env call)).Reachable p := by
  have hprogram := siteAsking_answered bld websites env call
  constructor
  · rintro ⟨s, h, rfl⟩
    exact (reachable_joint hprogram h).reachable
  · intro h
    have hquiet : ∃ s, (aloneMachine bld (siteAsking bld websites env call)).Reachable s ∧
        s.process = p ∧ Quiet s := exists_quiet hprogram p h
    obtain ⟨s, hs, hprocess, -⟩ := hquiet
    exact ⟨s, hs, hprocess⟩

/-- A request comes, and a worker receives it. -/
def receiving (i : Nat) (frame : Bytes) : List (ProcessAction Empty) :=
  [.deliver ⟨HttpServer.sampleClient, [frame]⟩, .poll true false, .recvHttp, .recvHttp,
    .sendRequest i, .sendRequest i, .leave, .worker i (.poll true true), .worker i .recvStatus,
    .worker i .recvRequest, .worker i .recvRequest]

/-- The worker parses it, as the first one of its version. -/
def parsing (i : Nat) (version : Bytes) : List (SharedAction Moment) :=
  [.compute i sampleMoment, .cache (.getHandler i version), .cache (.contains i),
    .cache (.insert i)]

/-- The server starts with three of its workers. -/
def starting : List (ProcessAction Empty) :=
  [.launch, .launch, .launch, .launch, .launch, .worker 0 .connect, .worker 0 .test,
    .worker 1 .connect, .worker 1 .test, .worker 2 .connect, .worker 2 .test,
    .announce [0, 1, 2]]

/-- Each of the three receives a request, and two of them parse theirs. -/
def twoVersions : List (SharedAction Moment) :=
  (starting ++ receiving 0 (lit "GET / HTTP/1.1\nHost: a\n\n") ++
    receiving 1 (lit "GET / HTTP/1.0\n\n") ++
    receiving 2 (lit "GET / HTTP/1.1\nHost: a\n\n")).map .process ++
  parsing 0 (lit "HTTP/1.1") ++ parsing 1 (lit "HTTP/1.0")

/-- The computations of a server of the sample directory. -/
def sampleProgram : Moment → Bytes → HandlerAsking (Option Bytes) :=
  siteAsking plainBuild directorySite sampleContext noCall

def sampleShared (n : Nat) : SharedProcess :=
  ((aloneMachine plainBuild sampleProgram).run start (twoVersions.take n)).getD start

theorem sampleShared_reachable (n : Nat) :
    (aloneMachine plainBuild sampleProgram).Reachable (sampleShared n) :=
  (aloneMachine plainBuild sampleProgram).reachable_getD start start _ (.initial _ rfl)
    (.initial _ rfl)

/-- No worker waits for ever in the handler cache or before it: the threads come to rest by
themselves, and where they do no worker is left in a computation and all data are answered, unless a
thread has failed or has ended the program. -/
theorem alone_settles (s : SharedProcess)
    (h : (aloneMachine bld (siteAsking bld websites env call)).Reachable s) :
    (∀ actions t, (∀ a ∈ actions, SharedAction.Internal a) →
        (aloneMachine bld (siteAsking bld websites env call)).run s actions = some t →
        actions.length + t.rank 2 ≤ s.rank 2 ∧
          ((aloneMachine bld (siteAsking bld websites env call)).Stuck SharedAction.Internal t →
            t.process.place = .failed ∨ t.process.terminated = true ∨
              Quiet t ∧ Process.Answered (siteAnswer bld websites env call) t.process)) ∧
      ∃ actions t, (∀ a ∈ actions, SharedAction.Internal a) ∧
        (aloneMachine bld (siteAsking bld websites env call)).run s actions = some t ∧
        (aloneMachine bld (siteAsking bld websites env call)).Stuck SharedAction.Internal t := by
  let M := aloneMachine bld (siteAsking bld websites env call)
  have hprogram := siteAsking_answered bld websites env call
  have hcalls := siteAsking_asked bld websites env call
  have hinv : ∀ s s' a, M.Reachable s → M.step s a = some s' → M.Reachable s' :=
    fun s s' a hs hstep => .step s s' a hs hstep
  have hrank : ∀ s s' a, M.Reachable s → SharedAction.Internal a → M.step s a = some s' →
      s'.rank 2 < s.rank 2 := by
    intro s s' a hs ha hstep
    obtain ⟨-, hstep⟩ := a.alone_iff.mp hstep
    exact (reachable_joint hprogram hs).rank_lt 2 hcalls a ha hstep
  refine ⟨?_, M.exists_stuck M.Reachable SharedAction.Internal (rank 2) hinv hrank s h⟩
  intro actions t hall hrun
  refine ⟨M.length_le_rank M.Reachable _ (rank 2) hinv hrank s t actions h hall hrun, ?_⟩
  intro hstuck
  have hjoint := reachable_joint hprogram (M.reachable_run s t actions h hrun)
  by_cases hfailed : t.process.place = .failed
  · exact Or.inl hfailed
  · cases hrunning : t.process.terminated with
    | true => exact Or.inr (Or.inl rfl)
    | false =>
      have hrests : Process.Rests (siteAnswer bld websites env call) t.process :=
        ⟨hjoint.reachable, hjoint.stuck hstuck, hrunning, hfailed⟩
      exact Or.inr (Or.inr ⟨hjoint.quiet (hjoint.ended hrunning) hstuck,
        hrests.answered fun now frame => answer_ne_nil bld websites _ frame⟩)

/-- The first worker has found the version of its request missing. -/
theorem alone_settles_missing :
    (sampleShared 48).cache.workers[0]? = some (.missing .oneOne) ∧
      ∃ actions t, (∀ a ∈ actions, SharedAction.Internal a) ∧
        (aloneMachine plainBuild sampleProgram).run (sampleShared 48) actions = some t ∧
        (aloneMachine plainBuild sampleProgram).Stuck SharedAction.Internal t :=
  ⟨by decide, (alone_settles plainBuild directorySite sampleContext noCall _
    (sampleShared_reachable 48)).2⟩

/-- Once the handler of every version is there, calls may overlap as they like. -/
theorem warm_reachable (s t : SharedProcess) (actions : List (SharedAction Moment))
    (h : (aloneMachine bld (siteAsking bld websites env call)).Reachable s)
    (hwarm : s.cache.Warm)
    (hrun : (machine bld (siteAsking bld websites env call)).run s actions = some t) :
    (aloneMachine bld (siteAsking bld websites env call)).Reachable t ∧ t.cache.Serves bld := by
  have hkept := (machine bld (siteAsking bld websites env call)).invariant_run
    (fun s => (aloneMachine bld (siteAsking bld websites env call)).Reachable s ∧ s.cache.Warm) ?_
    s t actions ⟨h, hwarm⟩ hrun
  · have hjoint := reachable_joint (siteAsking_answered bld websites env call) hkept.1
    exact ⟨hkept.1, SharedCache.consistent_serves bld t.cache hjoint.consistent⟩
  · rintro s s' a ⟨hs, hwarm⟩ hstep
    refine ⟨.step s s' a hs (a.alone_iff.mpr ⟨warm_alone hwarm a, hstep⟩), ?_⟩
    exact step_warm hwarm a hstep

/-- The second call of the first worker and the first call of the third one, at the same time. -/
def overlapping : List (SharedAction Moment) :=
  [.cache (.getHandler 0 (lit "HTTP/1.1")), .compute 2 sampleMoment,
    .cache (.getHandler 2 (lit "HTTP/1.1")), .cache (.contains 0), .cache (.contains 2)]

theorem warm_reachable_overlapping : ∃ t,
    (machine plainBuild sampleProgram).run (sampleShared 53) overlapping = some t ∧
    (t.cache.workers[0]? = some (.found .oneOne) ∧ t.cache.workers[2]? = some (.found .oneOne)) ∧
    (aloneMachine plainBuild sampleProgram).Reachable t ∧ t.cache.Serves plainBuild := by
  obtain ⟨hrun, hone, hzero⟩ :
      ((machine plainBuild sampleProgram).run (sampleShared 53) overlapping).map
          (fun t => (t.cache.workers[0]?, t.cache.workers[2]?)) =
        some (some (.found .oneOne), some (.found .oneOne)) ∧
      ((sampleShared 53).cache.cache.find Handler.oneOne.version).isSome = true ∧
      ((sampleShared 53).cache.cache.find Handler.oneZero.version).isSome = true := by
    decide
  obtain ⟨t, hrun, hinside⟩ := Option.map_eq_some_iff.mp hrun
  have hwarm : (sampleShared 53).cache.Warm := by
    intro h
    cases h with
    | oneOne => exact hone
    | oneZero => exact hzero
  exact ⟨t, hrun, Prod.mk.inj hinside, warm_reachable plainBuild directorySite sampleContext noCall
    (sampleShared 53) t overlapping (sampleShared_reachable 53) hwarm hrun⟩

end Site

end SharedProcess

end HttpCpp
