import HttpCpp.Server.FrontEnd
import HttpCpp.Service.Execute
import Mathlib.Data.Prod.Lex

namespace HttpCpp

/-- `http_service::host::operator<`: by port, then by name. -/
instance : LinearOrder HttpService.Host :=
  LinearOrder.lift' (fun h => toLex (h.port, h.name)) (by
    intro a b h
    obtain ⟨hport, hname⟩ := Prod.mk.inj (toLex.injective h)
    cases a
    cases b
    simp_all)

/-- `std::set<http_website>`: the websites in the order of their hosts, each given by what stands
behind its host. -/
abbrev Websites (Site : Type) := StdMap HttpService.Host Site

namespace HttpWorker

open HttpService

variable {Site : Type}

def findWebsite (websites : Websites Site) (request : HttpRequest) : Except Fault (Host × Site) :=
  match extractHost request with
  | .error e => .error e
  | .ok host =>
    match websites.entries.find? (fun website => website.1 = host) with
    | none => .error (.httpInvalidRequest (lit "Unknown website..."))
    | some website => .ok website

/-- What `handle_request` does inside its `try` block. -/
def process (bld : Build) (garbage : Method) (websites : Websites Site)
    (execute : Site → HttpRequest → Except Failure HttpResponse) (frame : Bytes) :
    Except Failure HttpResponse :=
  match parseRequest bld garbage frame with
  | .error e => .error (.fault e)
  | .ok request =>
    match findWebsite websites request with
    | .error e => .error (.fault e)
    | .ok website => execute website.2 request

/-- The handlers of the `try` block; `garbage` is the uninitialised status code of the response. -/
def caught (garbage : Status) : Except Failure HttpResponse → Except Failure HttpResponse
  | .ok response => .ok response
  | .error e =>
    match e.exception with
    | some .httpInvalidRequest =>
      .ok { HttpResponse.fresh garbage with statusCode := .httpBadRequest }
    | some _ => .ok { HttpResponse.fresh garbage with statusCode := .httpInternalServerError }
    | none => .error e

/-- The rest of `handle_request`: the messages it sends and the way it ends. -/
def reply (id : ZmqIdentity) : Except Failure HttpResponse → List Message × Except Failure Unit
  | .error e => ([], .error e)
  | .ok response =>
    match response.serialize with
    | .error e => ([], .error (.fault e))
    | .ok stringResponse => ([⟨id, [stringResponse]⟩], .ok ())

/-- `http_worker::handle_request` on a message of its socket. -/
def handleMessage (bld : Build) (garbageMethod : Method) (garbageStatus : Status)
    (websites : Websites Site) (execute : Site → HttpRequest → Except Failure HttpResponse)
    (m : Message) : List Message × Except Failure Unit :=
  reply m.id (caught garbageStatus (process bld garbageMethod websites execute m.frame))

/-- One non-empty response went to the identity, and the call returned. -/
def RepliedOnce (id : ZmqIdentity) (out : List Message × Except Failure Unit) : Prop :=
  ∃ stringResponse, stringResponse ≠ [] ∧ out = ([⟨id, [stringResponse]⟩], .ok ())

/-- What can be sent back: an exception, or a response whose status is an enumerator. -/
def Sendable : Except Failure HttpResponse → Prop
  | .ok response => response.statusCode.Known
  | .error e => e.exception.isSome

theorem reply_once_iff (id : ZmqIdentity) (garbage : Status)
    (outcome : Except Failure HttpResponse) :
    RepliedOnce id (reply id (caught garbage outcome)) ↔ Sendable outcome := by
  have hsent : ∀ response : HttpResponse, RepliedOnce id (reply id (.ok response)) ↔
      response.statusCode.Known := by
    intro response
    by_cases hknown : response.statusCode.Known
    · obtain ⟨bytes, hbytes, hne⟩ := response.serialize_known hknown
      refine iff_of_true ⟨bytes, hne, ?_⟩ hknown
      simp [reply, hbytes]
    · have hfail := response.serialize_unknown hknown
      refine iff_of_false ?_ hknown
      intro h
      obtain ⟨bytes, -, hout⟩ := h
      simp [reply, hfail] at hout
  have hcodes : Status.httpBadRequest.Known ∧ Status.httpInternalServerError.Known := by decide
  obtain ⟨hbad, hint⟩ := hcodes
  cases outcome with
  | ok response => exact hsent response
  | error e =>
    simp only [caught, Sendable]
    cases he : e.exception with
    | none =>
      have hno : ¬RepliedOnce id (reply id (.error e)) := by
        intro h
        obtain ⟨bytes, -, hout⟩ := h
        simp [reply] at hout
      simpa using hno
    | some t =>
      cases t with
      | httpInvalidRequest => exact iff_of_true ((hsent _).mpr hbad) rfl
      | stdException => exact iff_of_true ((hsent _).mpr hint) rfl
      | other => exact iff_of_true ((hsent _).mpr hint) rfl

theorem sendable_fault (e : Fault) : Sendable (.error (.fault e)) ↔ e.isException := by
  cases e <;> simp [Sendable, Failure.exception, Fault.isException]

/-- Whatever keeps a request from a website is an exception. -/
theorem findWebsite_error (websites : Websites Site) (request : HttpRequest) (e : Fault)
    (h : findWebsite websites request = .error e) : e.isException := by
  simp only [findWebsite] at h
  cases hhost : extractHost request with
  | error e' =>
    simp only [hhost, Except.error.injEq] at h
    exact h ▸ extractHost_error request e' hhost
  | ok host =>
    simp only [hhost] at h
    split at h
    · obtain rfl := Except.error.inj h
      rfl
    · simp at h

/-- A message is replied to once exactly when its frame is parsed to an end and, where it names a
website, that website's `execute` throws or returns a response whose status is an enumerator. -/
theorem handleMessage_replies_iff (bld : Build) (garbageMethod : Method) (garbageStatus : Status)
    (websites : Websites Site) (execute : Site → HttpRequest → Except Failure HttpResponse)
    (m : Message) :
    RepliedOnce m.id (handleMessage bld garbageMethod garbageStatus websites execute m) ↔
      ParseEnds bld m.frame ∧ ∀ request website,
        parseRequest bld garbageMethod m.frame = .ok request →
        findWebsite websites request = .ok website → Sendable (execute website.2 request) := by
  rw [handleMessage, reply_once_iff, ← parseRequest_ends_iff bld garbageMethod, process]
  cases hparse : parseRequest bld garbageMethod m.frame with
  | error e => simp [sendable_fault]
  | ok request =>
    cases hfind : findWebsite websites request with
    | error e =>
      simp only [hfind]
      have hexception := findWebsite_error websites request e hfind
      refine iff_of_true ((sendable_fault e).mpr hexception) ⟨by simp, ?_⟩
      intro request' website hrequest hwebsite
      obtain rfl := Except.ok.inj hrequest
      rw [hfind] at hwebsite
      simp at hwebsite
    | ok website =>
      simp only [hfind]
      constructor
      · intro h
        refine ⟨by simp, ?_⟩
        intro request' website' hrequest hwebsite
        obtain rfl := Except.ok.inj hrequest
        obtain rfl := Except.ok.inj (hfind.symm.trans hwebsite)
        exact h
      · intro h
        exact h.2 request website rfl hfind

/-- What a call of `handle_request` finds outside its message: uninitialised members, and what the
websites do at that time. -/
structure Surroundings (Site : Type) where
  garbageMethod : Method
  garbageStatus : Status
  execute : Site → HttpRequest → Except Failure HttpResponse

/-- The response text a frame gets, when it gets one. -/
def answer (bld : Build) (websites : Websites Site) (world : Surroundings Site) (frame : Bytes) :
    Option Bytes :=
  match caught world.garbageStatus
    (process bld world.garbageMethod websites world.execute frame) with
  | .error _ => none
  | .ok response => response.serialize.toOption

/-- A reply carries the identity of its message and the answer to its frame. -/
theorem handleMessage_answer (bld : Build) (websites : Websites Site) (world : Surroundings Site)
    (m : Message) (text : Bytes) :
    handleMessage bld world.garbageMethod world.garbageStatus websites world.execute m =
        ([handleRequest (fun _ => text) m], .ok ()) ↔
      answer bld websites world m.frame = some text := by
  simp only [handleMessage, answer]
  cases caught world.garbageStatus
      (process bld world.garbageMethod websites world.execute m.frame) with
  | error e => simp [reply]
  | ok response =>
    cases hserialize : response.serialize with
    | error e => simp [reply, hserialize, Except.toOption]
    | ok bytes => simp [reply, hserialize, Except.toOption, handleRequest]

theorem answer_ne_nil (bld : Build) (websites : Websites Site) (world : Surroundings Site)
    (frame : Bytes) : answer bld websites world frame ≠ some [] := by
  simp only [answer]
  cases caught world.garbageStatus
      (process bld world.garbageMethod websites world.execute frame) with
  | error e => simp
  | ok response =>
    by_cases hknown : response.statusCode.Known
    · obtain ⟨bytes, hbytes, hne⟩ := response.serialize_known hknown
      simp [hbytes, Except.toOption, hne]
    · simp [response.serialize_unknown hknown, Except.toOption]

/-- A service whose resources answer with some status. -/
def fixedStatus (code : Status) : HttpResourceFactory where
  createHandle _ := .ok (some ⟨fun _ gresponse => ({ gresponse with statusCode := code }, none)⟩)

/-- What `handle_request` makes of a request for a website that answers with some status. -/
def fixedStatusRun (code : Status) : List Message × Except Failure Unit :=
  handleMessage plainBuild .mGet .httpUnknown
    (StdMap.empty.emplace (Host.atDefaultPort (lit "a")) (fixedStatus code))
    (HttpService.execute (lit "Thu, 01 Jan 1970 00:00:00 GMT") .httpUnknown)
    ⟨HttpServer.sampleClient, [lit "GET / HTTP/1.1\nHost: a\n\n"]⟩

/-- A status without a reason phrase ends the worker without a reply. -/
theorem unknown_status_no_reply :
    fixedStatusRun 299 = ([], .error (.fault (.invalidArgument
        (lit "The HTTP status code provided is invalid.")))) ∧
      ¬RepliedOnce HttpServer.sampleClient (fixedStatusRun 299) := by
  have hrun : fixedStatusRun 299 = ([], .error (.fault (.invalidArgument
      (lit "The HTTP status code provided is invalid.")))) := by decide
  refine ⟨hrun, ?_⟩
  intro h
  obtain ⟨bytes, -, hout⟩ := h
  rw [hrun] at hout
  simp at hout

end HttpWorker
end HttpCpp
