import HttpCpp.Server.CaseVariants
import HttpCpp.Server.Sites

namespace HttpCpp

namespace HttpWorker

open HttpService

/-- A frame is answered exactly when what processing it comes to can be sent. -/
theorem answer_none_iff {Site : Type} (bld : Build) (websites : Websites Site)
    (world : Surroundings Site) (frame : Bytes) : answer bld websites world frame = none ↔
      ¬Sendable (process bld world.garbageMethod websites world.execute frame) := by
  rw [← reply_once_iff HttpServer.sampleClient world.garbageStatus, answer]
  cases caught world.garbageStatus
      (process bld world.garbageMethod websites world.execute frame) with
  | error e => simp [reply, RepliedOnce]
  | ok response =>
    by_cases hknown : response.statusCode.Known
    · obtain ⟨bytes, hbytes, hne⟩ := response.serialize_known hknown
      simp [reply, RepliedOnce, hbytes, hne, Except.toOption]
    · have hfail := response.serialize_unknown hknown
      simp [reply, RepliedOnce, hfail, Except.toOption]

variable {Fn : Type}

/-- All websites are of directories. -/
def Directories (websites : Websites (Service Fn)) : Prop :=
  ∀ website ∈ websites.entries, ∃ virtualPath, website.2 = .directory virtualPath

theorem directory_sendable (bld : Build) (env : ResourceContext) (call : Call Fn) (now : Moment)
    (virtualPath : Bytes) (request : HttpRequest) (hgiven : HostGiven request) :
    Sendable (executeIn bld env call (.directory virtualPath) (httptime now.timeptr) now.garbage
      request) := by
  have hknown : Status.httpOk.Known ∧ Status.httpBadRequest.Known ∧ Status.httpNotFound.Known := by
    decide
  have hexecute := (executeIn_directory bld env call virtualPath (httptime now.timeptr) now.garbage
    request _).mpr ⟨hgiven, rfl⟩
  rw [hexecute, Sendable, respond_statusCode, directoryResponse]
  cases Handler.getHandler request.httpVersion with
  | none => exact hknown.2.1
  | some handler =>
    cases FilesystemFactory.resource env.fs (virtualPath ++ request.requestUri) with
    | none => exact hknown.2.2
    | some r => exact hknown.1

/-- Over directories the only frames that are not answered are those whose parsing ends the
program. -/
theorem siteAnswer_none_iff (bld : Build) (websites : Websites (Service Fn))
    (hdirectories : Directories websites) (env : ResourceContext) (call : Call Fn) (now : Moment)
    (frame : Bytes) : siteAnswer bld websites env call now frame = none ↔ ¬ParseEnds bld frame := by
  rw [siteAnswer, answer_none_iff, not_iff_not, ← parseRequest_ends_iff bld now.garbageMethod]
  simp only [surroundings, process]
  cases hparse : parseRequest bld now.garbageMethod frame with
  | error e => simp [sendable_fault]
  | ok request =>
    refine iff_of_true ?_ (by simp)
    cases hfind : findWebsite websites request with
    | error e =>
      simp only [hfind]
      exact (sendable_fault e).mpr (findWebsite_error websites request e hfind)
    | ok website =>
      simp only [hfind]
      obtain ⟨hwebsite, hhost⟩ := findWebsite_found websites request website hfind
      obtain ⟨virtualPath, hdirectory⟩ := hdirectories website hwebsite
      rw [hdirectory]
      exact directory_sendable bld env call now virtualPath request
        ((extractHost_given request).mp ⟨_, hhost⟩)

end HttpWorker

namespace Process

open HttpService HttpWorker

variable {Fn : Type}

instance : Nonempty Moment := ⟨sampleMoment⟩

/-- The first worker of a server of the sample directory, on the way to answer some bytes. -/
def sampleRun (frame : Bytes) (n : Nat) : Process :=
  afterActions (siteAnswer plainBuild directorySite sampleContext noCall)
    ⟨HttpServer.sampleClient, [frame]⟩ sampleMoment n

theorem sampleRun_reachable (frame : Bytes) (n : Nat) :
    (machine (siteAnswer plainBuild directorySite sampleContext noCall)).Reachable
      (sampleRun frame n) :=
  afterActions_reachable _ _ _ n

/-- At rest with the request for the sample's file answered. -/
theorem indexRun_idle : (sampleRun indexFrame 38).Idle ∧
    (sampleRun indexFrame 38).data = [(HttpServer.sampleClient, indexFrame)] := by
  decide

/-- However the threads run and whatever the clients send, what goes to them are responses that can
be read, each for data of its own and closed after it, the last one perhaps not yet in full. -/
theorem reachable_readable (bld : Build) (websites : Websites (Service Fn))
    (env : ResourceContext) (htypes : env.PlainTypes) (call : Call Fn) (hcall : PlainCall call)
    (p : Process) (h : (machine (siteAnswer bld websites env call)).Reachable p) :
    ∃ answers : List (Answer Moment), p.written <+: answers.flatMap Answer.wire ∧
      (answers.map fun a => (a.id, a.frame)).Subperm p.data ∧
      ∀ a ∈ answers, ∃ d, HttpResponse.decode a.text = some d ∧ Readable d := by
  obtain ⟨-, e, -, hshows, hpartitioned⟩ := reachable_sound p h
  refine ⟨answers e, ?_, answers_subperm hshows hpartitioned, ?_⟩
  · rw [← answers_wire e hpartitioned]
    exact hshows.gives.written_prefix
  · intro a ha
    have hcomputed := answers_computed e hpartitioned a ha
    exact siteAnswer_readable bld websites env htypes call hcall a.world a.frame a.text hcomputed

/-- Two frames into the response to bytes that are no request. -/
theorem reachable_readable_garbled : (sampleRun (lit "no request") 27).written.length = 2 ∧
    ∃ answers : List (Answer Moment),
      (sampleRun (lit "no request") 27).written <+: answers.flatMap Answer.wire ∧
      (answers.map fun a => (a.id, a.frame)).Subperm (sampleRun (lit "no request") 27).data ∧
      ∀ a ∈ answers, ∃ d, HttpResponse.decode a.text = some d ∧ Readable d := by
  have hcall : PlainCall noCall := fun _ _ _ => plainHeaders_empty _ _ _
  exact ⟨by decide, reachable_readable plainBuild directorySite sampleContext
    sampleContext_types noCall hcall _ (sampleRun_reachable _ 27)⟩

theorem directorySite_directories : Directories directorySite := by
  intro website hwebsite
  have hone : directorySite.entries =
      [(Host.atDefaultPort (lit "a"), .directory (lit "/srv/www"))] := rfl
  rw [hone, List.mem_singleton] at hwebsite
  exact ⟨lit "/srv/www", by rw [hwebsite]⟩

end Process

end HttpCpp
