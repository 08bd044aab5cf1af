import HttpCpp.Protocol.ResponseGrammar
import HttpCpp.Server.Worker
import HttpCpp.Service.Authority
import HttpCpp.Service.HeaderValue

namespace HttpCpp
namespace HttpService

/-- What `parse_request` throws is always the same exception. -/
theorem parseRequest_exception (bld : Build) (garbage : Method) (request : Bytes) (e : Fault)
    (h : parseRequest bld garbage request = .error e) (hexception : e.isException) :
    e = .httpInvalidRequest (lit "Invalid request.") := by
  simp only [parseRequest, Handler.extractHttpVersion_eq] at h
  split at h
  · rename_i e' hversion
    obtain rfl := Except.error.inj h
    split_ifs at hversion
    obtain rfl := Except.error.inj hversion
    simp [Fault.isException] at hexception
  · split at h
    · exact (Except.error.inj h).symm
    · rename_i handler hhandler
      split at h
      · rename_i e' hparse
        obtain rfl := Except.error.inj h
        cases handler with
        | oneOne =>
          have hfault : (OneOne.parseRequest bld request (.fresh garbage)).map id = .error e' := by
            have hrun : OneOne.parseRequest bld request (.fresh garbage) = .error e' := hparse
            rw [hrun]
            rfl
          have hnone := noexcept_error _ id e' hfault
          simp [hnone] at hexception
        | oneZero => simp [Handler.parseRequest, OneZero.parseRequest] at hparse
      · split_ifs at h
        exact (Except.error.inj h).symm

/-- Only a missing `Host` header is thrown as a bad request. -/
theorem extractHost_error_iff (request : HttpRequest) (e : Fault)
    (h : extractHost request = .error e) :
    (∃ what, e = .httpInvalidRequest what) ↔
      AbsolutePath request.requestUri ∧ request.requestHeader.find (lit "Host") = none := by
  by_cases hpath : AbsolutePath request.requestUri
  · cases hvalue : request.requestHeader.find (lit "Host") with
    | some value =>
      rw [extractHost_path request value hpath hvalue] at h
      split_ifs at h
      obtain rfl := Except.error.inj h
      simp [invalidUri]
    | none =>
      have huri := absoluteUri_path_none _ (absolutePath_leading _ hpath)
      obtain ⟨c, hc⟩ := Option.isSome_iff_exists.mp hpath
      simp only [extractHost, huri, hc, hvalue, Except.error.injEq] at h
      simp [hpath, ← h]
  · simp only [extractHost, absolutePath_none _ hpath] at h
    split at h
    · simp at h
    · split_ifs at h
      obtain rfl := Except.error.inj h
      simp [hpath]

/-- A Request-URI and a `Host` header that tell for which host a request is, or would if there were
such a header. -/
def HostTold (uri : Bytes) (value : Option Bytes) : Prop :=
  (absoluteUriRegex.regexMatch uri).isSome ∨ uri = lit "*" ∨
    AbsolutePath uri ∧ ∀ host, value = some host → (hostRegex.regexMatch host).isSome

/-- The frame is not of version 1.0, and where its first line is a request line, its Request-URI
and the first line for `Host` are as they should be. -/
def FrameTold (frame : Bytes) : Prop :=
  Handler.versionToken (Handler.versionLine frame) ≠ OneZero.httpVersion ∧
    ∀ method ∈ METHODS, ∀ uri, (∀ c ∈ uri, isSpace c = false) →
      Handler.versionLine frame = OneOne.requestLine method uri →
        HostTold uri (firstValue (lit "Host") (OneOne.headerLines frame))

theorem hostTold_iff (request : HttpRequest) :
    HostTold request.requestUri (request.requestHeader.find (lit "Host")) ↔
      HostGiven request ∨
        AbsolutePath request.requestUri ∧ request.requestHeader.find (lit "Host") = none := by
  simp only [HostTold, HostGiven]
  cases request.requestHeader.find (lit "Host") with
  | none => simp [or_assoc]
  | some value => simp

theorem hostTold_nil (value : Option Bytes) : ¬HostTold [] value := by
  have hstar : ([] : Bytes) ≠ lit "*" := by decide
  have habsolute : absoluteUriRegex.regexMatch [] = none := by decide
  have hpath : ¬AbsolutePath [] := by decide
  simp [HostTold, hstar, habsolute, hpath]

/-- What a frame tells is told by the request that is parsed from it. -/
theorem frameTold_iff (bld : Build) (garbage : Method) (frame : Bytes)
    (hends : ParseEnds bld frame) :
    FrameTold frame ↔ ∀ request, parseRequest bld garbage frame = .ok request →
      HostTold request.requestUri (request.requestHeader.find (lit "Host")) := by
  constructor
  · intro htold request hrequest
    obtain ⟨-, ⟨hone, hbody⟩ | ⟨hzero, -⟩⟩ := parseRequest_ok bld garbage frame request hrequest
    · obtain ⟨method, uri, version, hsplit, hm, -⟩ := oneOne_line bld frame _ request hbody
      have haccepted : OneOne.RequestLineAccepted frame := ⟨method, uri, version, hsplit, hm⟩
      obtain ⟨method, hm, uri, hu, hline⟩ := (requestLineAccepted_iff frame hone).mp haccepted
      obtain ⟨huri, hvalue⟩ := parseRequest_read bld garbage frame request hrequest method uri hm hu
        hline
      rw [huri, hvalue]
      exact htold.2 method hm uri hu hline
    · exact absurd hzero htold.1
  · intro hall
    constructor
    · intro hzero
      exact hostTold_nil _ (hall _ (parseRequest_oneZero bld garbage frame hzero))
    · intro method hm uri hu hline
      have hversion : Handler.versionToken (Handler.versionLine frame) = OneOne.httpVersion := by
        rw [hline]
        exact versionToken_requestLine method uri hm hu
      have haccepted := (requestLineAccepted_iff frame hversion).mpr ⟨method, hm, uri, hu, hline⟩
      have hlines : ∀ line ∈ OneOne.headerLines frame,
          ¬(OneOne.EndsAtColon line ∨ OneOne.LineFires bld line) :=
        fun line hl hbad => hends.2 ⟨hversion, haccepted, line, hl, hbad⟩
      rcases parseRequest_oneOne bld garbage frame hversion fun _ => hlines with
        ⟨-, request, hrequest, -⟩ | hreject
      · obtain ⟨huri, hvalue⟩ := parseRequest_read bld garbage frame request hrequest method uri hm
          hu hline
        rw [← huri, ← hvalue]
        exact hall request hrequest
      · exact absurd haccepted hreject.1

end HttpService

namespace HttpWorker

open HttpService

variable {Site : Type}

/-- What comes before a website's `execute`: the request is parsed and its website looked up. -/
def route (bld : Build) (garbage : Method) (websites : Websites Site) (frame : Bytes) :
    Except Fault (HttpRequest × (Host × Site)) :=
  match parseRequest bld garbage frame with
  | .error e => .error e
  | .ok request => (findWebsite websites request).map fun website => (request, website)

theorem process_route (bld : Build) (garbage : Method) (websites : Websites Site)
    (execute : Site → HttpRequest → Except Failure HttpResponse) (frame : Bytes) :
    process bld garbage websites execute frame =
      match route bld garbage websites frame with
      | .error e => .error (.fault e)
      | .ok (request, website) => execute website.2 request := by
  simp only [process, route]
  cases parseRequest bld garbage frame with
  | error e => rfl
  | ok request =>
    cases hfind : findWebsite websites request with
    | error e => simp [hfind, Except.map]
    | ok website => simp [hfind, Except.map]

/-- One reply went to the identity, and it reads as a response with this status. -/
def RepliesStatus (id : ZmqIdentity) (status : Nat) (out : List Message × Except Failure Unit) :
    Prop :=
  ∃ text decoded, out = ([⟨id, [text]⟩], .ok ()) ∧ HttpResponse.decode text = some decoded ∧
    decoded.statusCode = status

theorem repliesStatus_text (id : ZmqIdentity) (status : Nat) (text : Bytes)
    (decoded : HttpResponse.Decoded) (h : HttpResponse.decode text = some decoded) :
    RepliesStatus id status ([⟨id, [text]⟩], .ok ()) ↔ decoded.statusCode = status := by
  constructor
  · intro hreply
    obtain ⟨text', decoded', hout, hdecode, hstatus⟩ := hreply
    simp only [Prod.mk.injEq, List.cons.injEq, Message.mk.injEq, and_true, true_and] at hout
    rw [← hout, h] at hdecode
    exact Option.some.inj hdecode ▸ hstatus
  · intro hstatus
    exact ⟨text, decoded, rfl, h, hstatus⟩

/-- The texts of the replies that `handle_request` makes up by itself. -/
theorem serialize_error :
    HttpResponse.serialize ⟨HttpResponse.DEFAULT_HTTP_VERSION, .httpBadRequest, .empty, .empty,
        .empty, []⟩ = .ok (lit "HTTP/1.1 400 Bad Request\r\n\r\n") ∧
      HttpResponse.serialize ⟨HttpResponse.DEFAULT_HTTP_VERSION, .httpInternalServerError, .empty,
        .empty, .empty, []⟩ = .ok (lit "HTTP/1.1 500 Internal Server Error\r\n\r\n") ∧
      HttpResponse.decode (lit "HTTP/1.1 400 Bad Request\r\n\r\n") =
        some ⟨lit "HTTP/1.1", 400, [], []⟩ ∧
      HttpResponse.decode (lit "HTTP/1.1 500 Internal Server Error\r\n\r\n") =
        some ⟨lit "HTTP/1.1", 500, [], []⟩ := by
  decide

/-- A fault that can be caught is answered with 400 when it is an invalid request, and with 500
otherwise. -/
theorem caught_status (id : ZmqIdentity) (garbage : Status) (e : Fault) (h : e.isException) :
    RepliesStatus id 400 (reply id (caught garbage (.error (.fault e)))) ↔
      ∃ what, e = .httpInvalidRequest what := by
  obtain ⟨hbad, hinternal, hreadBad, hreadInternal⟩ := serialize_error
  by_cases hinvalid : ∃ what, e = .httpInvalidRequest what
  · obtain ⟨what, rfl⟩ := hinvalid
    have hreply : reply id (caught garbage (.error (.fault (.httpInvalidRequest what)))) =
        ([⟨id, [lit "HTTP/1.1 400 Bad Request\r\n\r\n"]⟩], .ok ()) := by
      simp only [caught, Failure.exception, HttpResponse.fresh, reply, hbad]
    rw [hreply, repliesStatus_text id 400 _ _ hreadBad]
    exact iff_of_true rfl ⟨what, rfl⟩
  · have hstd : (Failure.fault e).exception = some .stdException := by
      cases e with
      | httpInvalidRequest what => exact absurd ⟨what, rfl⟩ hinvalid
      | _ => simp [Failure.exception, h]
    have hreply : reply id (caught garbage (.error (.fault e))) =
        ([⟨id, [lit "HTTP/1.1 500 Internal Server Error\r\n\r\n"]⟩], .ok ()) := by
      simp only [caught, hstd, HttpResponse.fresh, reply, hinternal]
    rw [hreply, repliesStatus_text id 400 _ _ hreadInternal]
    exact iff_of_false (by simp) hinvalid

/-- An exception before a website's `execute` shows that parsing came to an end. -/
theorem route_ends (bld : Build) (garbage : Method) (websites : Websites Site) (frame : Bytes)
    (e : Fault) (h : route bld garbage websites frame = .error e) (hexception : e.isException) :
    ParseEnds bld frame := by
  rw [← parseRequest_ends_iff bld garbage]
  intro e' he'
  rw [route, he'] at h
  rwa [Except.error.inj h]

/-- A frame that is turned away before a website's `execute` is answered with 400 exactly when it
is not of version 1.0 and, where its first line is a request line, the Request-URI and the `Host`
header are of a form that gives a host, or the header is left out of an absolute path. -/
theorem handleMessage_rejected_iff (bld : Build) (garbageMethod : Method) (garbageStatus : Status)
    (websites : Websites Site) (execute : Site → HttpRequest → Except Failure HttpResponse)
    (m : Message) (e : Fault) (hroute : route bld garbageMethod websites m.frame = .error e)
    (hexception : e.isException) :
    RepliesStatus m.id 400 (handleMessage bld garbageMethod garbageStatus websites execute m) ↔
      FrameTold m.frame := by
  have hends := route_ends bld garbageMethod websites m.frame e hroute hexception
  rw [handleMessage, process_route, hroute, caught_status m.id garbageStatus e hexception,
    frameTold_iff bld garbageMethod m.frame hends]
  simp only [route] at hroute
  cases hparse : parseRequest bld garbageMethod m.frame with
  | error e' =>
    rw [hparse] at hroute
    obtain rfl := Except.error.inj hroute
    refine iff_of_true ⟨_, parseRequest_exception _ _ _ _ hparse hexception⟩ (by simp)
  | ok request =>
    simp only [hparse, findWebsite] at hroute
    simp only [Except.ok.injEq, forall_eq', hostTold_iff, ← extractHost_given]
    cases hhost : extractHost request with
    | error e' =>
      simp only [hhost, Except.map, Except.error.injEq] at hroute
      subst hroute
      rw [extractHost_error_iff request e' hhost]
      simp
    | ok host =>
      simp only [hhost] at hroute
      split at hroute
      · simp only [Except.map, Except.error.injEq] at hroute
        exact iff_of_true ⟨_, hroute.symm⟩ (Or.inl ⟨host, rfl⟩)
      · simp [Except.map] at hroute

/-- What a worker without websites makes of a frame. -/
def strayRun (frame : Bytes) : List Message × Except Failure Unit :=
  handleMessage plainBuild .mGet .httpUnknown (StdMap.empty : Websites Nat)
    (fun _ _ => .ok (.fresh .httpOk)) ⟨HttpServer.sampleClient, [frame]⟩

theorem handleMessage_rejected_unknown :
    RepliesStatus HttpServer.sampleClient 400
      (strayRun (lit "GET / HTTP/1.1\nHost: a\n\n")) := by
  have h := handleMessage_rejected_iff plainBuild .mGet .httpUnknown
    (StdMap.empty : Websites Nat) (fun _ _ => .ok (.fresh .httpOk))
    ⟨HttpServer.sampleClient, [lit "GET / HTTP/1.1\nHost: a\n\n"]⟩
    (.httpInvalidRequest (lit "Unknown website...")) (by decide) rfl
  refine h.mpr ⟨by decide, ?_⟩
  intro method hm uri hu hline
  have hsplit := splitRequestLine_versionLine _ method uri hm hu hline
  have htokens : OneOne.splitRequestLine (OneOne.requestLineOf
      (lit "GET / HTTP/1.1\nHost: a\n\n")) = [lit "GET", lit "/", lit "HTTP/1.1"] := by
    decide
  obtain rfl : lit "/" = uri := by
    have hsame := htokens.symm.trans hsplit
    simp only [List.cons.injEq] at hsame
    exact hsame.2.1
  refine Or.inr (Or.inr ⟨by decide, ?_⟩)
  intro host hhost
  have hvalue : firstValue (lit "Host") (OneOne.headerLines
      (lit "GET / HTTP/1.1\nHost: a\n\n")) = some (lit "a") := by decide
  obtain rfl := Option.some.inj (hvalue.symm.trans hhost)
  decide

/-- A `Host` header that is none, and a version that is not parsed, are answered with 500. -/
theorem rejected_internal :
    (∃ e, e.isException ∧ route plainBuild .mGet (StdMap.empty : Websites Nat)
        (lit "GET / HTTP/1.1\nHost: a:b\n\n") = .error e ∧
      strayRun (lit "GET / HTTP/1.1\nHost: a:b\n\n") = ([⟨HttpServer.sampleClient,
        [lit "HTTP/1.1 500 Internal Server Error\r\n\r\n"]⟩], .ok ()) ∧
      ¬RepliesStatus HttpServer.sampleClient 400
        (strayRun (lit "GET / HTTP/1.1\nHost: a:b\n\n"))) ∧
    ∃ e, e.isException ∧ route plainBuild .mGet (StdMap.empty : Websites Nat)
        (lit "GET / HTTP/1.0\n\n") = .error e ∧
      strayRun (lit "GET / HTTP/1.0\n\n") = ([⟨HttpServer.sampleClient,
        [lit "HTTP/1.1 500 Internal Server Error\r\n\r\n"]⟩], .ok ()) := by
  obtain ⟨-, -, -, hread⟩ := serialize_error
  have hrun : strayRun (lit "GET / HTTP/1.1\nHost: a:b\n\n") = ([⟨HttpServer.sampleClient,
      [lit "HTTP/1.1 500 Internal Server Error\r\n\r\n"]⟩], .ok ()) := by decide
  refine ⟨⟨invalidUri, rfl, by decide, hrun, ?_⟩, invalidUri, rfl, by decide,
    by decide⟩
  rw [hrun, repliesStatus_text _ 400 _ _ hread]
  simp

end HttpWorker
end HttpCpp
