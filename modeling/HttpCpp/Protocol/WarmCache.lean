import HttpCpp.Protocol.HandlerCache

namespace HttpCpp
namespace SharedCache

variable {bld : Build} {s t : SharedCache}

/-- Every version has its handler. -/
def Warm (s : SharedCache) : Prop := ∀ h : Handler, (s.cache.find h.version).isSome

/-- Calls can be made and interleaved such that some are not served. -/
def Fails (bld : Build) (s : SharedCache) : Prop :=
  ∃ actions t, (machine bld).run s actions = some t ∧ ¬Serves bld t

theorem warm_alone (hwarm : Warm s) (a : CacheAction) : alone s a = true := by
  cases a with
  | contains i =>
    simp only [alone]
    split
    · rename_i h hi
      simp [hwarm h]
    · rfl
  | getHandler i httpVersion | get i | insert i => rfl

@[simp] theorem leave_cache (i : Nat) (h : Handler) (rawPtr : Option HandlerInstance) :
    (leave bld s i h rawPtr).cache = s.cache := by
  unfold leave
  cases bld.assert rawPtr.isSome <;> rfl

/-- What is in the cache stays there. -/
theorem step_cached (a : CacheAction) (hstep : step bld s a = some t) (key : Bytes)
    (hkey : (s.cache.find key).isSome) : (t.cache.find key).isSome := by
  cases a with
  | getHandler i httpVersion =>
    simp only [step] at hstep
    split at hstep
    · split at hstep
      · obtain rfl := Option.some.inj hstep
        exact hkey
      · obtain rfl := Option.some.inj hstep
        exact hkey
    · contradiction
  | contains i =>
    simp only [step] at hstep
    split at hstep
    · obtain rfl := Option.some.inj hstep
      exact hkey
    · contradiction
  | get i =>
    simp only [step] at hstep
    split at hstep
    · split at hstep
      · obtain rfl := Option.some.inj hstep
        exact hkey
      · obtain rfl := Option.some.inj hstep
        simpa using hkey
    · contradiction
  | insert i =>
    simp only [step] at hstep
    split at hstep
    · obtain rfl := Option.some.inj hstep
      rw [leave_cache, StdMap.find_emplace]
      split_ifs
      · rfl
      · exact hkey
    · contradiction

/-- From a warm cache every interleaving is served. -/
theorem warm_serves (hc : Consistent s) (hwarm : Warm s) (actions : List CacheAction)
    (hrun : (machine bld).run s actions = some t) : Serves bld t := by
  have hkept := (machine bld).invariant_run (fun s => Consistent s ∧ Warm s) ?_ s t actions
    ⟨hc, hwarm⟩ hrun
  · exact consistent_serves bld t hkept.1
  · rintro s s' a ⟨hc, hwarm⟩ hstep
    refine ⟨step_consistent bld s s' a hc (warm_alone hwarm a) hstep, ?_⟩
    intro h
    exact step_cached a hstep h.version (hwarm h)

/-- To show that calls can fail it is enough to show it after some step: one that is not taken alone
leads there anyway. -/
theorem fails_step (hc : Consistent s) (a : CacheAction) (hstep : step bld s a = some t)
    (hthen : Consistent t → Fails bld t) : Fails bld s := by
  have hfails : Fails bld t := by
    cases halone : alone s a with
    | true => exact hthen (step_consistent bld s t a hc halone hstep)
    | false => exact race_fails bld s t a halone hstep
  obtain ⟨actions, u, hrun, hnot⟩ := hfails
  exact ⟨a :: actions, u, ((machine bld).run_cons s u a actions).mpr ⟨t, hstep, hrun⟩, hnot⟩

/-- What is left of a state when only one worker has moved: the version is still missing, and the
other workers are where they were. -/
structure Toward (h : Handler) (i : Nat) (s t : SharedCache) : Prop where
  consistent : Consistent t
  missing : t.cache.find h.version = none
  others : ∀ j, j ≠ i → t.workers[j]? = s.workers[j]?

/-- An idle worker can enter `get_handler` for the version. -/
theorem fails_of_idle (h : Handler) (i : Nat) (ht : Toward h i s t)
    (hi : t.workers[i]? = some .idle)
    (hthen : ∀ u, Toward h i s u → u.workers[i]? = some (.entered h) → Fails bld u) :
    Fails bld t := by
  have hlt := (List.getElem?_eq_some_iff.mp hi).1
  have hstep : step bld t (.getHandler i h.version) =
      some { t with workers := t.workers.set i (.entered h) } := by
    simp only [step, ht.consistent.assertions.2, hi, Handler.getHandler_version]
  apply fails_step ht.consistent _ hstep
  intro hconsistent
  refine hthen _ ⟨hconsistent, ht.missing, ?_⟩ (List.getElem?_set_self hlt)
  intro j hj
  rw [← ht.others j hj]
  exact List.getElem?_set_ne (Ne.symm hj)

/-- A worker that has found the handler of its version can return and enter anew. -/
theorem fails_of_found (h h' : Handler) (i : Nat) (ht : Toward h i s t)
    (hi : t.workers[i]? = some (.found h'))
    (hthen : ∀ u, Toward h i s u → u.workers[i]? = some (.entered h) → Fails bld u) :
    Fails bld t := by
  have hlt := (List.getElem?_eq_some_iff.mp hi).1
  obtain ⟨value, hvalue⟩ := Option.isSome_iff_exists.mp (ht.consistent.found i h' hi)
  have hstep : step bld t (.get i) = some { t with
      workers := t.workers.set i .idle
      returned := t.returned ++ [(h'.version, some value)] } := by
    simp only [step, ht.consistent.assertions.2, hi, hvalue, leave_some]
  apply fails_step ht.consistent _ hstep
  intro hconsistent
  refine fails_of_idle h i ⟨hconsistent, ht.missing, ?_⟩ (List.getElem?_set_self hlt) hthen
  intro j hj
  rw [← ht.others j hj]
  exact List.getElem?_set_ne (Ne.symm hj)

/-- A worker that has found another version missing can insert its handler and enter anew. -/
theorem fails_of_missing (h h' : Handler) (hne : h' ≠ h) (i : Nat) (ht : Toward h i s t)
    (hi : t.workers[i]? = some (.missing h'))
    (hthen : ∀ u, Toward h i s u → u.workers[i]? = some (.entered h) → Fails bld u) :
    Fails bld t := by
  have hlt := (List.getElem?_eq_some_iff.mp hi).1
  obtain ⟨u, hstep, hcache, hworkers, -⟩ := insert_added bld t i h' ht.consistent.assertions.2 hi
    (ht.consistent.missing i h' hi)
  apply fails_step ht.consistent _ hstep
  intro hconsistent
  have hother : h.version ≠ h'.version := fun hsame => hne (version_injective h' h hsame.symm)
  refine fails_of_idle h i ⟨hconsistent, ?_, ?_⟩ ?_ hthen
  · rw [hcache, StdMap.find_emplace, if_neg hother]
    exact ht.missing
  · intro j hj
    rw [← ht.others j hj, hworkers]
    exact List.getElem?_set_ne (Ne.symm hj)
  · rw [hworkers]
    exact List.getElem?_set_self hlt

/-- Whatever a worker is doing, it can come to ask for a version, unless it has already found it
missing. -/
theorem fails_of_entered (h : Handler) (i : Nat) (hc : Consistent s)
    (hnone : s.cache.find h.version = none) (hlt : i < s.workers.length)
    (hnot : s.workers[i]? ≠ some (.missing h))
    (hthen : ∀ u, Toward h i s u → u.workers[i]? = some (.entered h) → Fails bld u) :
    Fails bld s := by
  have hhere : Toward h i s s := ⟨hc, hnone, fun _ _ => rfl⟩
  have hi := List.getElem?_eq_getElem hlt
  cases hphase : s.workers[i] with
  | idle =>
    rw [hphase] at hi
    exact fails_of_idle h i hhere hi hthen
  | found h' =>
    rw [hphase] at hi
    exact fails_of_found h h' i hhere hi hthen
  | missing h' =>
    rw [hphase] at hi
    have hne : h' ≠ h := fun hsame => hnot (hsame ▸ hi)
    exact fails_of_missing h h' hne i hhere hi hthen
  | entered h' =>
    rw [hphase] at hi
    by_cases hsame : h' = h
    · exact hthen s hhere (hsame ▸ hi)
    · obtain ⟨phase, hknown, hstep⟩ : ∃ phase, (phase = .found h' ∨ phase = .missing h') ∧
          step bld s (.contains i) = some { s with workers := s.workers.set i phase } := by
        refine ⟨_, ?_, by simp only [step, hc.assertions.2, hi]; rfl⟩
        split_ifs
        · exact Or.inl rfl
        · exact Or.inr rfl
      apply fails_step hc _ hstep
      intro hconsistent
      have hmoved : Toward h i s { s with workers := s.workers.set i phase } :=
        ⟨hconsistent, hnone, fun j hj => List.getElem?_set_ne (Ne.symm hj)⟩
      have hset : (s.workers.set i phase)[i]? = some phase := List.getElem?_set_self hlt
      rcases hknown with rfl | rfl
      · exact fails_of_found h h' i hmoved hset hthen
      · exact fails_of_missing h h' hsame i hmoved hset hthen

/-- Where one worker has found a version missing, another can find it missing too. -/
theorem fails_of_second (h : Handler) (i j : Nat) (hc : Consistent s)
    (hi : s.workers[i]? = some (.missing h)) (hj : j < s.workers.length) (hne : j ≠ i) :
    Fails bld s := by
  have hnone := hc.missing i h hi
  have hnot : s.workers[j]? ≠ some (.missing h) := fun hmissing => hne (hc.single j i h hmissing hi)
  apply fails_of_entered h j hc hnone hj hnot
  intro u hu hentered
  have hwaits : u.workers[i]? = some (.missing h) := (hu.others i hne.symm).trans hi
  have hmem := List.mem_of_getElem? hwaits
  have hrace : alone u (.contains j) = false := by simp [alone, hentered, hu.missing, hmem]
  have hstep : ∃ v, step bld u (.contains j) = some v := by
    simp [step, hu.consistent.assertions.2, hentered]
  obtain ⟨v, hv⟩ := hstep
  obtain ⟨actions, w, hrun, hfails⟩ := race_fails bld u v (.contains j) hrace hv
  exact ⟨.contains j :: actions, w,
    ((machine bld).run_cons u w (.contains j) actions).mpr ⟨v, hv, hrun⟩, hfails⟩

/-- A version that is missing can be asked for by two of the workers at once. -/
theorem fails_of_cold (h : Handler) (hc : Consistent s) (hnone : s.cache.find h.version = none)
    (htwo : 2 ≤ s.workers.length) : Fails bld s := by
  by_cases hfirst : s.workers[0]? = some (.missing h)
  · exact fails_of_second h 0 1 hc hfirst (by omega) (by omega)
  · apply fails_of_entered h 0 hc hnone (by omega) hfirst
    intro u hu hentered
    have hlt := (List.getElem?_eq_some_iff.mp hentered).1
    have hlength : 1 < u.workers.length := by
      have hsecond := hu.others 1 (by omega)
      rw [List.getElem?_eq_getElem (show 1 < s.workers.length by omega)] at hsecond
      exact (List.getElem?_eq_some_iff.mp hsecond).1
    have hstep : step bld u (.contains 0) =
        some { u with workers := u.workers.set 0 (.missing h) } := by
      simp [step, hu.consistent.assertions.2, hentered, hu.missing]
    apply fails_step hu.consistent _ hstep
    intro hconsistent
    exact fails_of_second h 0 1 hconsistent (List.getElem?_set_self hlt) (by simpa using hlength)
      (by omega)

/-- As long as calls have not overlapped: from now on they may, in any way and for ever, exactly if
the handler of every version is already there. -/
theorem reachable_warm_iff (bld : Build) (s : SharedCache) (h : (aloneMachine bld).Reachable s)
    (htwo : 2 ≤ s.workers.length) :
    (∀ actions t, (machine bld).run s actions = some t → Serves bld t) ↔ Warm s := by
  have hc := reachable_consistent bld s h
  constructor
  · intro hserves handler
    by_contra hcold
    have hnone := Option.not_isSome_iff_eq_none.mp hcold
    have hfails : Fails bld s := fails_of_cold handler hc hnone htwo
    obtain ⟨actions, t, hrun, hnot⟩ := hfails
    exact hnot (hserves actions t hrun)
  · intro hwarm actions t hrun
    exact warm_serves hc hwarm actions hrun

/-- One call for each version, before there are others. -/
def warming : List CacheAction :=
  [.getHandler 0 (lit "HTTP/1.1"), .contains 0, .insert 0, .getHandler 0 (lit "HTTP/1.0"),
    .contains 0, .insert 0]

theorem reachable_warm_started : ∃ s, (aloneMachine plainBuild).run (start 4) warming = some s ∧
    ∀ actions t, (machine plainBuild).run s actions = some t → Serves plainBuild t := by
  obtain ⟨s, hrun, htwo, hone, hzero⟩ : ∃ s,
      (aloneMachine plainBuild).run (start 4) warming = some s ∧ 2 ≤ s.workers.length ∧
      (s.cache.find Handler.oneOne.version).isSome = true ∧
      (s.cache.find Handler.oneZero.version).isSome = true :=
    ⟨_, rfl, by decide, by decide, by decide⟩
  have hreachable := Machine.reachable_run (aloneMachine plainBuild) (start 4) s warming
    (.initial (start 4) ⟨4, rfl⟩) hrun
  refine ⟨s, hrun, (reachable_warm_iff plainBuild s hreachable htwo).mpr ?_⟩
  intro h
  cases h with
  | oneOne => exact hone
  | oneZero => exact hzero

end SharedCache
end HttpCpp
