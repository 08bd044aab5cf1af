import HttpCpp.Framework.ListSet
import HttpCpp.Framework.Machine
import HttpCpp.Protocol.Handler

namespace HttpCpp

namespace Handler

/-- `T::http_version` -/
def version : Handler → Bytes
  | .oneOne => OneOne.httpVersion
  | .oneZero => OneZero.httpVersion

theorem getHandler_version (h : Handler) : getHandler h.version = some h := by
  have hne : OneZero.httpVersion ≠ OneOne.httpVersion := by decide
  cases h
  · exact if_pos rfl
  · exact (if_neg hne).trans (if_pos rfl)

end Handler

/-- An object of a handler class; every object made has a serial number of its own. -/
structure HandlerInstance where
  serial : Nat
  handler : Handler
  deriving DecidableEq, Repr

/-- Where a worker is in `get_handler`: outside, before `contains`, or after it with its result. -/
inductive HandlerPhase where
  | idle
  | entered (handler : Handler)
  | found (handler : Handler)
  | missing (handler : Handler)
  deriving DecidableEq, Repr

/-- The cache with the workers that use it, the versions of the calls that returned with what they
returned, and whether an assertion has failed or the process has ended. -/
structure SharedCache where
  cache : StdMap Bytes HandlerInstance
  made : Nat
  workers : List HandlerPhase
  returned : List (Bytes × Option HandlerInstance)
  violated : Bool
  ended : Bool
  deriving DecidableEq

/-- The call of `get_handler` and the atomic steps within it. -/
inductive CacheAction where
  | getHandler (worker : Nat) (httpVersion : Bytes)
  | contains (worker : Nat)
  | get (worker : Nat)
  | insert (worker : Nat)
  deriving DecidableEq

namespace SharedCache

/-- `assert(raw_ptr != nullptr); return raw_ptr;` -/
def leave (bld : Build) (s : SharedCache) (i : Nat) (h : Handler)
    (rawPtr : Option HandlerInstance) : SharedCache :=
  match bld.assert rawPtr.isSome with
  | .error _ => { s with violated := true, ended := true }
  | .ok _ =>
    { s with
      workers := s.workers.set i .idle
      returned := s.returned ++ [(h.version, rawPtr)]
      violated := s.violated || rawPtr.isNone }

/-- The steps of `get_handler` and `make_handle_impl`. `at` throws for a missing key, outside the
`try` block of a `noexcept` function; `insert` gives a null pointer for a present one. -/
def step (bld : Build) (s : SharedCache) : CacheAction → Option SharedCache
  | .getHandler i httpVersion =>
    match s.ended, s.workers[i]? with
    | false, some .idle =>
      match Handler.getHandler httpVersion with
      | none => some { s with returned := s.returned ++ [(httpVersion, none)] }
      | some h => some { s with workers := s.workers.set i (.entered h) }
    | _, _ => none
  | .contains i =>
    match s.ended, s.workers[i]? with
    | false, some (.entered h) =>
      let phase := if (s.cache.find h.version).isSome then .found h else .missing h
      some { s with workers := s.workers.set i phase }
    | _, _ => none
  | .get i =>
    match s.ended, s.workers[i]? with
    | false, some (.found h) =>
      match s.cache.find h.version with
      | none => some { s with ended := true }
      | some value => some (leave bld s i h (some value))
    | _, _ => none
  | .insert i =>
    match s.ended, s.workers[i]? with
    | false, some (.missing h) =>
      let value : HandlerInstance := ⟨s.made, h⟩
      let rawPtr := if (s.cache.find h.version).isSome then none else some value
      some (leave bld { s with cache := s.cache.emplace h.version value, made := s.made + 1 } i h
        rawPtr)
    | _, _ => none

/-- An empty cache and any number of workers. -/
def start (workers : Nat) : SharedCache :=
  ⟨.empty, 0, List.replicate workers .idle, [], false, false⟩

def machine (bld : Build) : Machine SharedCache CacheAction where
  Initial := fun s => ∃ n, s = start n
  step := step bld

/-- A worker that is about to find its version missing is the only one to have found that. -/
def alone (s : SharedCache) : CacheAction → Bool
  | .contains i =>
    match s.workers[i]? with
    | some (.entered h) =>
      (s.cache.find h.version).isSome || !s.workers.contains (.missing h)
    | _ => true
  | _ => true

/-- The runs all of whose steps are taken alone. -/
def aloneMachine (bld : Build) : Machine SharedCache CacheAction where
  Initial := (machine bld).Initial
  step := fun s a => if alone s a then step bld s a else none

/-- The calls so far have been served: each returned an instance of the class for its version, and
null for a version without one, the same instance for the same version, and no assertion failed.
A call for another version changes nothing, and a call that is under way can go on. -/
structure Serves (bld : Build) (s : SharedCache) : Prop where
  classes : ∀ e ∈ s.returned, e.2.map HandlerInstance.handler = Handler.getHandler e.1
  shared : ∀ e ∈ s.returned, ∀ e' ∈ s.returned, e.1 = e'.1 → e.2 = e'.2
  assertions : s.violated = false ∧ s.ended = false
  unsupported : ∀ i httpVersion s', Handler.getHandler httpVersion = none →
    step bld s (.getHandler i httpVersion) = some s' →
      s' = { s with returned := s.returned ++ [(httpVersion, none)] }
  goesOn : ∀ i phase, s.workers[i]? = some phase → phase ≠ .idle →
    ∃ a ∈ [CacheAction.contains i, .get i, .insert i], (step bld s a).isSome

/-- What the cache holds, the workers know and the calls returned fit together. -/
structure Consistent (s : SharedCache) : Prop where
  keys : ∀ key value, s.cache.find key = some value → Handler.getHandler key = some value.handler
  returned : ∀ e ∈ s.returned, e.2 = s.cache.find e.1 ∧
    e.2.map HandlerInstance.handler = Handler.getHandler e.1
  found : ∀ (i : Nat) (h : Handler), s.workers[i]? = some (.found h) →
    (s.cache.find h.version).isSome
  missing : ∀ (i : Nat) (h : Handler), s.workers[i]? = some (.missing h) →
    s.cache.find h.version = none
  single : ∀ (i j : Nat) (h : Handler), s.workers[i]? = some (.missing h) →
    s.workers[j]? = some (.missing h) → i = j
  assertions : s.violated = false ∧ s.ended = false

theorem start_consistent (n : Nat) : Consistent (start n) where
  keys key value h := by simp [start] at h
  returned e he := by simp [start] at he
  found i h hi := by simp [start, List.getElem?_replicate] at hi
  missing i h hi := by simp [start, List.getElem?_replicate] at hi
  single i j h hi hj := by simp [start, List.getElem?_replicate] at hi
  assertions := ⟨rfl, rfl⟩

theorem leave_some (bld : Build) (s : SharedCache) (i : Nat) (h : Handler)
    (value : HandlerInstance) :
    leave bld s i h (some value) =
      { s with
        workers := s.workers.set i .idle
        returned := s.returned ++ [(h.version, some value)] } := by
  simp [leave, Build.assert]

theorem leave_none (bld : Build) (s : SharedCache) (i : Nat) (h : Handler) :
    (leave bld s i h none).violated = true := by
  unfold leave
  cases bld.assert (none : Option HandlerInstance).isSome <;> simp

theorem Consistent.find_unsupported {s : SharedCache} (hc : Consistent s) (key : Bytes)
    (h : Handler.getHandler key = none) : s.cache.find key = none := by
  cases hfind : s.cache.find key with
  | none => rfl
  | some value =>
    have hkey := hc.keys key value hfind
    rw [h] at hkey
    contradiction

theorem version_injective (h h' : Handler) (heq : h.version = h'.version) : h = h' := by
  have hsame := congrArg Handler.getHandler heq
  rw [Handler.getHandler_version, Handler.getHandler_version] at hsame
  exact Option.some.inj hsame

/-- A worker changes its phase to one that says what is so. -/
theorem Consistent.setPhase {s : SharedCache} (hc : Consistent s) (i : Nat) (phase : HandlerPhase)
    (hfound : ∀ h, phase = .found h → (s.cache.find h.version).isSome)
    (hmissing : ∀ h, phase = .missing h → s.cache.find h.version = none ∧
      ∀ j : Nat, s.workers[j]? ≠ some (.missing h)) :
    Consistent { s with workers := s.workers.set i phase } := by
  refine { hc with found := ?_, missing := ?_, single := ?_ }
  · intro j h hj
    rcases getElem?_set_cases _ _ _ _ _ hj with ⟨-, hphase⟩ | ⟨-, hold⟩
    · exact hfound h hphase.symm
    · exact hc.found j h hold
  · intro j h hj
    rcases getElem?_set_cases _ _ _ _ _ hj with ⟨-, hphase⟩ | ⟨-, hold⟩
    · exact (hmissing h hphase.symm).1
    · exact hc.missing j h hold
  · intro j k h hj hk
    rcases getElem?_set_cases _ _ _ _ _ hj with ⟨hji, hphase⟩ | ⟨-, hold⟩
    · rcases getElem?_set_cases _ _ _ _ _ hk with ⟨hki, -⟩ | ⟨-, hold'⟩
      · exact hji.trans hki.symm
      · exact absurd hold' ((hmissing h hphase.symm).2 k)
    · rcases getElem?_set_cases _ _ _ _ _ hk with ⟨-, hphase⟩ | ⟨-, hold'⟩
      · exact absurd hold ((hmissing h hphase.symm).2 j)
      · exact hc.single j k h hold hold'

/-- A call returns what the cache holds for its version. -/
theorem Consistent.return {s : SharedCache} (hc : Consistent s) (key : Bytes)
    (rawPtr : Option HandlerInstance) (hfind : rawPtr = s.cache.find key)
    (hclass : rawPtr.map HandlerInstance.handler = Handler.getHandler key) :
    Consistent { s with returned := s.returned ++ [(key, rawPtr)] } := by
  refine { hc with returned := ?_ }
  intro e he
  rcases List.mem_append.mp he with he | he
  · exact hc.returned e he
  · obtain rfl := List.mem_singleton.mp he
    exact ⟨hfind, hclass⟩

/-- An instance is added for a version that no worker waits to add another for. -/
theorem Consistent.add {s : SharedCache} (hc : Consistent s) (h : Handler) (n : Nat)
    (hnone : s.cache.find h.version = none)
    (hwaits : ∀ j : Nat, s.workers[j]? ≠ some (.missing h)) :
    Consistent { s with cache := s.cache.emplace h.version ⟨s.made, h⟩, made := n } := by
  refine { hc with keys := ?_, returned := ?_, found := ?_, missing := ?_ }
  · intro key value hkey
    rw [StdMap.find_emplace] at hkey
    split_ifs at hkey with heq
    · rw [hnone, Option.getD_none] at hkey
      rw [heq, ← Option.some.inj hkey, Handler.getHandler_version]
    · exact hc.keys key value hkey
  · intro e he
    obtain ⟨hfind, hclass⟩ := hc.returned e he
    have hne : e.1 ≠ h.version := by
      intro heq
      rw [hfind, heq, hnone, Handler.getHandler_version] at hclass
      contradiction
    refine ⟨?_, hclass⟩
    rw [StdMap.find_emplace, if_neg hne]
    exact hfind
  · intro j h' hj
    rw [StdMap.find_emplace]
    split_ifs
    · rfl
    · exact hc.found j h' hj
  · intro j h' hj
    have hne : h'.version ≠ h.version := by
      intro heq
      rw [version_injective h' h heq] at hj
      exact hwaits j hj
    rw [StdMap.find_emplace, if_neg hne]
    exact hc.missing j h' hj

theorem getHandler_consistent (bld : Build) (s s' : SharedCache) (i : Nat) (httpVersion : Bytes)
    (hc : Consistent s) (hstep : step bld s (.getHandler i httpVersion) = some s') :
    Consistent s' := by
  simp only [step] at hstep
  split at hstep
  · split at hstep
    · rename_i hnone
      obtain rfl := Option.some.inj hstep
      exact hc.return httpVersion none (hc.find_unsupported httpVersion hnone).symm hnone.symm
    · rename_i h hsome
      obtain rfl := Option.some.inj hstep
      exact hc.setPhase i (.entered h) (by simp) (by simp)
  · contradiction

/-- The result of `contains` is what the worker goes by; alone it is the only one to find its
version missing. -/
theorem contains_consistent (bld : Build) (s s' : SharedCache) (i : Nat) (hc : Consistent s)
    (halone : alone s (.contains i)) (hstep : step bld s (.contains i) = some s') :
    Consistent s' := by
  simp only [step] at hstep
  split at hstep
  · rename_i h hended hi
    obtain rfl := Option.some.inj hstep
    simp only [alone, hi] at halone
    apply hc.setPhase
    · intro h' hphase
      split_ifs at hphase with hfind
      rwa [← HandlerPhase.found.inj hphase]
    · intro h' hphase
      split_ifs at hphase with hfind
      obtain rfl := HandlerPhase.missing.inj hphase
      refine ⟨Option.not_isSome_iff_eq_none.mp hfind, ?_⟩
      intro j hj
      have hmem := List.mem_of_getElem? hj
      simp [hfind, hmem] at halone
  · contradiction

theorem get_consistent (bld : Build) (s s' : SharedCache) (i : Nat) (hc : Consistent s)
    (hstep : step bld s (.get i) = some s') : Consistent s' := by
  simp only [step] at hstep
  split at hstep
  · rename_i h hended hi
    have hfound := hc.found i h hi
    split at hstep
    · rename_i hnone
      simp [hnone] at hfound
    · rename_i value hfind
      rw [leave_some] at hstep
      obtain rfl := Option.some.inj hstep
      have hclass := (hc.keys h.version value hfind).symm
      exact (hc.setPhase i .idle (by simp) (by simp)).return h.version (some value) hfind.symm
        hclass
  · contradiction

theorem insert_consistent (bld : Build) (s s' : SharedCache) (i : Nat) (hc : Consistent s)
    (hstep : step bld s (.insert i) = some s') : Consistent s' := by
  simp only [step] at hstep
  split at hstep
  · rename_i h hended hi
    have hnone := hc.missing i h hi
    simp only [hnone, Option.isSome_none, Bool.false_eq_true, if_false, leave_some] at hstep
    obtain rfl := Option.some.inj hstep
    have hwaits : ∀ j : Nat, (s.workers.set i .idle)[j]? ≠ some (.missing h) := by
      intro j hj
      rcases getElem?_set_cases _ _ _ _ _ hj with ⟨-, hphase⟩ | ⟨hne, hold⟩
      · contradiction
      · exact hne (hc.single j i h hold hi)
    have hadded := (hc.setPhase i .idle (by simp) (by simp)).add h (s.made + 1) hnone hwaits
    apply hadded.return h.version
    · rw [StdMap.find_emplace, if_pos rfl, hnone, Option.getD_none]
    · exact (Handler.getHandler_version h).symm
  · contradiction

theorem step_consistent (bld : Build) (s s' : SharedCache) (a : CacheAction) (hc : Consistent s)
    (halone : alone s a) (hstep : step bld s a = some s') : Consistent s' := by
  cases a with
  | getHandler i httpVersion => exact getHandler_consistent bld s s' i httpVersion hc hstep
  | contains i => exact contains_consistent bld s s' i hc halone hstep
  | get i => exact get_consistent bld s s' i hc hstep
  | insert i => exact insert_consistent bld s s' i hc hstep

theorem reachable_consistent (bld : Build) (s : SharedCache) (h : (aloneMachine bld).Reachable s) :
    Consistent s := by
  apply Machine.invariant (aloneMachine bld) Consistent _ _ s h
  · intro s hs
    obtain ⟨n, rfl⟩ := hs
    exact start_consistent n
  · intro s s' a hc hstep
    simp only [aloneMachine] at hstep
    split_ifs at hstep with halone
    exact step_consistent bld s s' a hc halone hstep

theorem consistent_serves (bld : Build) (s : SharedCache) (hc : Consistent s) : Serves bld s where
  classes e he := (hc.returned e he).2
  shared e he e' he' hkey := by
    rw [(hc.returned e he).1, (hc.returned e' he').1, hkey]
  assertions := hc.assertions
  unsupported i httpVersion s' hnone hstep := by
    simp only [step, hnone] at hstep
    split at hstep
    · exact (Option.some.inj hstep).symm
    · contradiction
  goesOn i phase hi hphase := by
    have hended := hc.assertions.2
    cases phase with
    | idle => contradiction
    | entered h => exact ⟨.contains i, by simp, by simp [step, hended, hi]⟩
    | found h =>
      refine ⟨.get i, by simp, ?_⟩
      cases hfind : s.cache.find h.version <;> simp [step, hended, hi, hfind]
    | missing h => exact ⟨.insert i, by simp, by simp [step, hended, hi]⟩

theorem insert_added (bld : Build) (s : SharedCache) (i : Nat) (h : Handler)
    (hended : s.ended = false) (hi : s.workers[i]? = some (.missing h))
    (hnone : s.cache.find h.version = none) :
    ∃ t, step bld s (.insert i) = some t ∧ t.cache = s.cache.emplace h.version ⟨s.made, h⟩ ∧
      t.workers = s.workers.set i .idle ∧ t.ended = false := by
  refine ⟨leave bld { s with
    cache := s.cache.emplace h.version ⟨s.made, h⟩, made := s.made + 1 } i h
      (some ⟨s.made, h⟩), ?_, ?_⟩
  · simp only [step, hended, hi, hnone, Option.isSome_none, Bool.false_eq_true, if_false]
  · rw [leave_some]
    exact ⟨rfl, rfl, hended⟩

theorem insert_lost (bld : Build) (s : SharedCache) (i : Nat) (h : Handler)
    (hended : s.ended = false) (hi : s.workers[i]? = some (.missing h))
    (hfind : (s.cache.find h.version).isSome) :
    ∃ t, step bld s (.insert i) = some t ∧ t.violated = true := by
  refine ⟨_, ?_, leave_none bld { s with
    cache := s.cache.emplace h.version ⟨s.made, h⟩, made := s.made + 1 } i h⟩
  simp only [step, hended, hi, hfind, if_true]

/-- When a second worker finds its version missing, one of the two gets no handler. -/
theorem race_fails (bld : Build) (s s' : SharedCache) (a : CacheAction)
    (halone : alone s a = false) (hstep : step bld s a = some s') :
    ∃ actions t, (machine bld).run s' actions = some t ∧ ¬Serves bld t := by
  obtain ⟨i, rfl⟩ : ∃ i, a = .contains i := by
    cases a <;> simp_all [alone]
  simp only [step] at hstep
  split at hstep
  · rename_i h hended hi
    simp only [alone, hi, Bool.or_eq_false_iff, Bool.not_eq_false', List.contains_iff_mem,
      Option.isSome_eq_false_iff, Option.isNone_iff_eq_none] at halone
    obtain ⟨hnone, hmissing⟩ := halone
    obtain ⟨j, hj⟩ := List.mem_iff_getElem?.mp hmissing
    have hne : j ≠ i := by
      intro heq
      simp [heq, hi] at hj
    have hlt := (List.getElem?_eq_some_iff.mp hi).1
    simp only [hnone, Option.isSome_none, Bool.false_eq_true, if_false] at hstep
    obtain rfl := Option.some.inj hstep
    -- Worker j inserts first.
    obtain ⟨t, ht, hcache, hworkers, hrunning⟩ := insert_added bld
      { s with workers := s.workers.set i (.missing h) } j h hended
      ((List.getElem?_set_ne hne.symm).trans hj) hnone
    have hwaits : t.workers[i]? = some (.missing h) := by
      rw [hworkers]
      exact (List.getElem?_set_ne hne).trans (List.getElem?_set_self hlt)
    have hfind : (t.cache.find h.version).isSome := by
      rw [hcache, StdMap.find_emplace, if_pos rfl]
      rfl
    obtain ⟨u, hu, hviolated⟩ := insert_lost bld t i h hrunning hwaits hfind
    refine ⟨[.insert j, .insert i], u, ?_, ?_⟩
    · simp [Machine.run, machine, ht, hu]
    · intro hserves
      rw [hserves.assertions.1] at hviolated
      contradiction
  · contradiction

/-- In every run in which no worker finds its version missing while another one has done so and not
yet inserted its handler, all calls are served. A step that breaks this rule can be followed by
steps after which they are not. -/
theorem reachable_serves (bld : Build) (s : SharedCache) (h : (aloneMachine bld).Reachable s) :
    Serves bld s ∧ ∀ a s', alone s a = false → step bld s a = some s' →
      ∃ actions t, (machine bld).run s' actions = some t ∧ ¬Serves bld t := by
  refine ⟨consistent_serves bld s (reachable_consistent bld s h), ?_⟩
  intro a s' halone hstep
  exact race_fails bld s s' a halone hstep

/-- Two calls for a version, the second after the first, and one for a version without a handler. -/
def sampleCalls : List CacheAction :=
  [.getHandler 0 (lit "HTTP/1.1"), .contains 0, .insert 0, .getHandler 1 (lit "HTTP/1.1"),
    .getHandler 0 (lit "HTTP/2"), .contains 1, .get 1]

theorem reachable_serves_twice :
    ∃ s, (aloneMachine plainBuild).run (start 2) sampleCalls = some s ∧
      s.returned = [(lit "HTTP/1.1", some ⟨0, .oneOne⟩), (lit "HTTP/2", none),
        (lit "HTTP/1.1", some ⟨0, .oneOne⟩)] ∧ Serves plainBuild s := by
  obtain ⟨s, hrun, hreturned⟩ : ∃ s, (aloneMachine plainBuild).run (start 2) sampleCalls = some s ∧
      s.returned = [(lit "HTTP/1.1", some ⟨0, .oneOne⟩), (lit "HTTP/2", none),
        (lit "HTTP/1.1", some ⟨0, .oneOne⟩)] := ⟨_, rfl, by decide⟩
  have hreachable := Machine.reachable_run (aloneMachine plainBuild) (start 2) s sampleCalls
    (.initial (start 2) ⟨2, rfl⟩) hrun
  exact ⟨s, hrun, hreturned, (reachable_serves plainBuild s hreachable).1⟩

/-- Two workers ask for one version at the same time, and the second gets a null pointer. -/
theorem cache_race :
    ∃ s, (machine plainBuild).run (start 2)
        [.getHandler 0 (lit "HTTP/1.1"), .getHandler 1 (lit "HTTP/1.1"), .contains 0, .contains 1,
          .insert 0, .insert 1] = some s ∧
      (lit "HTTP/1.1", none) ∈ s.returned ∧ Handler.getHandler (lit "HTTP/1.1") = some .oneOne ∧
      ¬Serves plainBuild s := by
  have hreturned : (lit "HTTP/1.1", none) ∈ [(lit "HTTP/1.1", some ⟨0, .oneOne⟩),
      (lit "HTTP/1.1", (none : Option HandlerInstance))] := by simp
  have hclass : Handler.getHandler (lit "HTTP/1.1") = some .oneOne := by decide
  refine ⟨_, rfl, hreturned, hclass, ?_⟩
  intro h
  have hnull := h.classes _ hreturned
  rw [hclass] at hnull
  contradiction

end SharedCache
end HttpCpp
