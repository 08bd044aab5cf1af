import HttpCpp.Server.SiteRuns

namespace HttpCpp

namespace HttpService

/-- A directory's service sets every status that it sends. -/
theorem executeIn_garbage {Fn : Type} (bld : Build) (env : ResourceContext) (call : Call Fn)
    (virtualPath date : Bytes) (garbage garbage' : Status) (request : HttpRequest) :
    executeIn bld env call (.directory virtualPath) date garbage request =
      executeIn bld env call (.directory virtualPath) date garbage' request := by
  by_cases hgiven : HostGiven request
  · rw [(executeIn_directory bld env call virtualPath date garbage request _).mpr ⟨hgiven, rfl⟩,
      (executeIn_directory bld env call virtualPath date garbage' request _).mpr ⟨hgiven, rfl⟩]
    simp only [respond]
    rfl
  · cases hhost : extractHost request with
    | error e => simp only [executeIn, execute, hhost]
    | ok host => exact absurd ((extractHost_given request).mp ⟨host, hhost⟩) hgiven

end HttpService

namespace HttpWorker

open HttpService

variable {Fn : Type}

/-- What handlers catch of a frame does not depend on the members that are not initialised. -/
theorem caught_garbage (garbage garbage' : Status) (outcome : Except Failure HttpResponse) :
    caught garbage outcome = caught garbage' outcome := by
  cases outcome with
  | ok response => rfl
  | error e =>
    simp only [caught, HttpResponse.fresh]

/-- Two surroundings in which each website executes what it is given alike give a frame the same
answer. -/
theorem answer_garbage {Site : Type} (bld : Build) (websites : Websites Site)
    (world world' : Surroundings Site) (frame : Bytes)
    (hexecute : ∀ website ∈ websites.entries, ∀ request,
      world.execute website.2 request = world'.execute website.2 request) :
    answer bld websites world frame = answer bld websites world' frame := by
  have hprocess : process bld world.garbageMethod websites world.execute frame =
      process bld world'.garbageMethod websites world'.execute frame := by
    simp only [process]
    rcases parseRequest_garbage bld world.garbageMethod world'.garbageMethod frame with
      hsame | ⟨hparse, hparse'⟩
    · rw [hsame]
      cases parseRequest bld world'.garbageMethod frame with
      | error e => rfl
      | ok request =>
        cases hfind : findWebsite websites request with
        | error e => simp only [hfind]
        | ok website =>
          simp only [hfind]
          exact hexecute website (findWebsite_found websites request website hfind).1 request
    · simp only [hparse, hparse', findWebsite, extractHost_fresh]
  simp only [answer, hprocess, caught_garbage world.garbageStatus world'.garbageStatus]

/-- A website executes a request alike at one time, whatever was in memory. -/
theorem surroundings_garbage (bld : Build) (websites : Websites (Service Fn))
    (env : ResourceContext) (call : Call Fn) (now now' : Moment)
    (htime : now.timeptr = now'.timeptr)
    (hstatus : now.garbage = now'.garbage ∨ Directories websites) :
    ∀ website ∈ websites.entries, ∀ request,
      (surroundings bld env call now).execute website.2 request =
        (surroundings bld env call now').execute website.2 request := by
  intro website hwebsite request
  show executeIn bld env call website.2 (httptime now.timeptr) now.garbage request =
    executeIn bld env call website.2 (httptime now'.timeptr) now'.garbage request
  rw [htime]
  rcases hstatus with hsame | hdirectories
  · rw [hsame]
  · obtain ⟨virtualPath, hdirectory⟩ := hdirectories website hwebsite
    rw [hdirectory]
    exact executeIn_garbage bld env call virtualPath _ _ _ request

/-- The bytes sent for a frame are the same whatever was in memory: the method of the request and
the status of the response are never read before they are set, and over directories the status of
the generic response neither. -/
theorem siteAnswer_initialised (bld : Build) (websites : Websites (Service Fn))
    (env : ResourceContext) (call : Call Fn) (now now' : Moment) (frame : Bytes)
    (htime : now.timeptr = now'.timeptr)
    (hstatus : now.garbage = now'.garbage ∨ Directories websites) :
    siteAnswer bld websites env call now frame = siteAnswer bld websites env call now' frame := by
  have hexecute := surroundings_garbage bld websites env call now now' htime hstatus
  exact answer_garbage bld websites _ _ frame hexecute

/-- The method of a request of the older version is what was in memory, here no enumerator. -/
theorem siteAnswer_initialised_older :
    siteAnswer plainBuild directorySite sampleContext noCall sampleMoment
        (lit "GET / HTTP/1.0\r\n\r\n") =
      siteAnswer plainBuild directorySite sampleContext noCall
        ⟨sampleContext.localtime 0, .other 216, .httpOk, .httpNotFound⟩
        (lit "GET / HTTP/1.0\r\n\r\n") :=
  siteAnswer_initialised plainBuild directorySite sampleContext noCall sampleMoment
    ⟨sampleContext.localtime 0, .other 216, .httpOk, .httpNotFound⟩ _ rfl
    (Or.inr Process.directorySite_directories)

/-- What a worker answers at one time. -/
def siteAnswerAt (bld : Build) (websites : Websites (Service Fn)) (env : ResourceContext)
    (call : Call Fn) (timeptr : Tm) (now : Moment) (frame : Bytes) : Option Bytes :=
  siteAnswer bld websites env call { now with timeptr := timeptr } frame

end HttpWorker

namespace Process

open HttpService HttpWorker

variable {Fn : Type}

/-- Where all that is answered was computed from the messages alone, the answers to the same
messages are the same, in some order. -/
theorem answers_perm {World : Type} {answer : World → Bytes → Option Bytes}
    (hworld : ∀ world world' frame, answer world frame = answer world' frame)
    (made made' : List (Answer World))
    (hdata : (made.map fun a => (a.id, a.frame)).Perm (made'.map fun a => (a.id, a.frame)))
    (hmade : ∀ a ∈ made, answer a.world a.frame = some a.text)
    (hmade' : ∀ a ∈ made', answer a.world a.frame = some a.text) :
    (made.map fun a => (a.id, a.frame, a.text)).Perm
      (made'.map fun a => (a.id, a.frame, a.text)) := by
  by_cases hempty : made = []
  · subst hempty
    have hnil : made' = [] := by simpa using hdata.length_eq.symm
    simp [hnil]
  obtain ⟨first, hfirst⟩ := List.exists_mem_of_ne_nil _ hempty
  let complete (d : ZmqIdentity × Bytes) := (d.1, d.2, (answer first.world d.2).getD [])
  have hcomplete : ∀ l : List (Answer World), (∀ a ∈ l, answer a.world a.frame = some a.text) →
      (l.map fun a => (a.id, a.frame, a.text)) = (l.map fun a => (a.id, a.frame)).map complete := by
    intro l hl
    rw [List.map_map]
    apply List.map_congr_left
    intro a ha
    have htext : answer first.world a.frame = some a.text := by
      rw [hworld first.world a.world, hl a ha]
    simp [complete, htext]
  rw [hcomplete made hmade, hcomplete made' hmade']
  exact hdata.map complete

/-- It does not matter how the threads run: at one time, any two runs of a server of directories
over the same data, in whatever order and to whatever workers it went, have each sent the same
response for each piece of it. -/
theorem stuck_confluent (bld : Build) (websites : Websites (Service Fn))
    (hdirectories : Directories websites) (env : ResourceContext) (call : Call Fn) (timeptr : Tm)
    (p p' : Process)
    (h : Rests (siteAnswerAt bld websites env call timeptr) p)
    (h' : Rests (siteAnswerAt bld websites env call timeptr) p')
    (hdata : p.data.Perm p'.data) :
    ∃ answers answers' : List (Answer Moment),
      (answers.map fun a => (a.id, a.frame)).Perm p.data ∧
      (answers.map fun a => (a.id, a.frame, a.text)).Perm
        (answers'.map fun a => (a.id, a.frame, a.text)) ∧
      p.written = answers.flatMap Answer.wire ∧ p'.written = answers'.flatMap Answer.wire := by
  have hanswer : ∀ (now : Moment) frame,
      siteAnswerAt bld websites env call timeptr now frame ≠ some [] :=
    fun now frame => answer_ne_nil bld websites _ frame
  obtain ⟨made, hwritten, hperm, hmade⟩ := h.answered hanswer
  obtain ⟨made', hwritten', hperm', hmade'⟩ := h'.answered hanswer
  refine ⟨made, made', hperm, ?_, hwritten, hwritten'⟩
  apply answers_perm _ made made' ((hperm.trans hdata).trans hperm'.symm) hmade hmade'
  intro now now' frame
  apply answer_garbage
  exact surroundings_garbage bld websites env call _ _ rfl (Or.inr hdirectories)

/-- One run of a server of the sample directory over two messages, from what was in memory. -/
def restedRun (m m' : Message) (now : Moment) : Process :=
  afterBoth (siteAnswerAt plainBuild directorySite sampleContext noCall sampleMoment.timeptr) m m'
    now

def indexMessage : Message := ⟨HttpServer.sampleClient, [indexFrame]⟩

def garbledMessage : Message := ⟨Exchange.secondClient, [lit "no request"]⟩

/-- The messages come in either order, and other things were in memory. -/
theorem stuck_confluent_garbage : ∃ answers answers' : List (Answer Moment),
    (answers.map fun a => (a.id, a.frame)).Perm
      (restedRun indexMessage garbledMessage sampleMoment).data ∧
    (answers.map fun a => (a.id, a.frame, a.text)).Perm
      (answers'.map fun a => (a.id, a.frame, a.text)) ∧
    (restedRun indexMessage garbledMessage sampleMoment).written =
      answers.flatMap Answer.wire ∧
    (restedRun garbledMessage indexMessage { sampleMoment with garbageStatus := .httpOk }).written =
      answers'.flatMap Answer.wire := by
  obtain ⟨hidle, hrunning, hdata⟩ :
      (restedRun indexMessage garbledMessage sampleMoment).Idle ∧
        (restedRun indexMessage garbledMessage sampleMoment).terminated = false ∧
        (restedRun indexMessage garbledMessage sampleMoment).data =
          [(HttpServer.sampleClient, indexFrame), (Exchange.secondClient, lit "no request")] := by
    decide
  obtain ⟨hidle', hrunning', hdata'⟩ :
      (restedRun garbledMessage indexMessage { sampleMoment with garbageStatus := .httpOk }).Idle ∧
        (restedRun garbledMessage indexMessage
          { sampleMoment with garbageStatus := .httpOk }).terminated = false ∧
        (restedRun garbledMessage indexMessage
          { sampleMoment with garbageStatus := .httpOk }).data =
          [(Exchange.secondClient, lit "no request"), (HttpServer.sampleClient, indexFrame)] := by
    decide
  refine stuck_confluent plainBuild directorySite directorySite_directories sampleContext noCall
    sampleMoment.timeptr _ _
    ⟨afterBoth_reachable _ _ _ _, idle_stuck hidle, hrunning, hidle.unfailed⟩
    ⟨afterBoth_reachable _ _ _ _, idle_stuck hidle', hrunning', hidle'.unfailed⟩ ?_
  rw [hdata, hdata']
  exact List.Perm.swap _ _ _

end Process

end HttpCpp
