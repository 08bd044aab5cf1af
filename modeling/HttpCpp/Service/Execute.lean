import HttpCpp.Protocol.Response
import HttpCpp.Service.Host
import HttpCpp.Service.ParseRequest

namespace HttpCpp

/-- What the code behind a service throws, as far as a `catch` clause tells it apart. -/
inductive Thrown where
  | httpInvalidRequest
  /-- Any other `std::exception`. -/
  | stdException
  /-- An object of any other type. -/
  | other
  deriving DecidableEq, Repr

/-- The ways a call into a service ends without returning. -/
inductive Failure where
  | fault (f : Fault)
  | thrown (e : Thrown)
  deriving DecidableEq, Repr

/-- The exception a `catch` clause sees; none when the process has ended. -/
def Failure.exception : Failure → Option Thrown
  | .fault (.httpInvalidRequest _) => some .httpInvalidRequest
  | .fault f => if f.isException then some .stdException else none
  | .thrown e => some e

/-- A resource's `execute`: the response as it is left, with or without an exception. -/
structure HttpResource where
  execute : GenericRequest → GenericResponse → GenericResponse × Option Thrown

/-- A resource factory, given by the body of its `create_handle`. -/
structure HttpResourceFactory where
  createHandle : GenericRequest → Except Failure (Option HttpResource)

namespace HttpService

/-- The call of `create_handle`, which is `noexcept`. -/
def callCreateHandle (factory : HttpResourceFactory) (grequest : GenericRequest) :
    Except Failure (Option HttpResource) :=
  match factory.createHandle grequest with
  | .ok resource => .ok resource
  | .error e => .error (if e.exception.isSome then .fault .terminate else e)

/-- The `try` block of `execute` with its two handlers. -/
def forward (factory : HttpResourceFactory) (grequest : GenericRequest)
    (gresponse : GenericResponse) : Except Failure GenericResponse :=
  match callCreateHandle factory grequest with
  | .error e => .error e
  | .ok none => .ok { gresponse with statusCode := .httpNotFound }
  | .ok (some resource) =>
    match resource.execute grequest gresponse with
    | (gresponse, none) => .ok gresponse
    | (gresponse, some .httpInvalidRequest) =>
      .ok { gresponse with statusCode := .httpBadRequest }
    | (gresponse, some .stdException) =>
      .ok { gresponse with statusCode := .httpInternalServerError }
    | (_, some .other) => .error (.thrown .other)

/-- Steps 4 and 5 of `execute`; `garbage` is the uninitialised status code. -/
def serve (garbage : Status) (factory : HttpResourceFactory) (request : HttpRequest) :
    Except Failure GenericResponse :=
  let gresponse := GenericResponse.fresh garbage
  match Handler.getHandler request.httpVersion with
  | none => .ok { gresponse with statusCode := .httpBadRequest }
  | some _ => forward factory request.toGeneric gresponse

/-- Only what the factory gives for the request counts. -/
theorem serve_congr (garbage : Status) (factory factory' : HttpResourceFactory)
    (request : HttpRequest)
    (h : factory.createHandle request.toGeneric = factory'.createHandle request.toGeneric) :
    serve garbage factory request = serve garbage factory' request := by
  simp only [serve, forward, callCreateHandle, h]

/-- "Assume successful result by default." -/
def defaultStatus (gresponse : GenericResponse) : GenericResponse :=
  if gresponse.statusCode = Status.httpUnknown then { gresponse with statusCode := .httpOk }
  else gresponse

/-- Step 6 of `execute`; `date` is the text of `http_date()`. -/
def respond (date : Bytes) (garbage : Status) (request : HttpRequest)
    (gresponse : GenericResponse) : HttpResponse :=
  match Handler.getHandler request.httpVersion with
  | none => { HttpResponse.fresh garbage with statusCode := gresponse.statusCode }
  | some handler => handler.makeResponse date gresponse

/-- `http_service::execute` on a structured request. The detected host is only logged. -/
def execute (date : Bytes) (garbage : Status) (factory : HttpResourceFactory)
    (request : HttpRequest) : Except Failure HttpResponse :=
  match extractHost request with
  | .error e => .error (.fault e)
  | .ok _ =>
    match serve garbage factory request with
    | .error e => .error e
    | .ok gresponse => .ok (respond date garbage request (defaultStatus gresponse))

theorem respond_statusCode (date : Bytes) (garbage : Status) (request : HttpRequest)
    (gresponse : GenericResponse) :
    (respond date garbage request gresponse).statusCode = gresponse.statusCode := by
  cases hhandler : Handler.getHandler request.httpVersion with
  | none => simp [respond, hhandler]
  | some handler => simp [respond, hhandler, Handler.makeResponse_statusCode]

/-- The request says for which host it is. -/
def HostGiven (request : HttpRequest) : Prop :=
  (absoluteUriRegex.regexMatch request.requestUri).isSome ∨ request.requestUri = lit "*" ∨
    AbsolutePath request.requestUri ∧ ∃ value, request.requestHeader.find (lit "Host") =
      some value ∧ (hostRegex.regexMatch value).isSome

theorem extractHost_given (request : HttpRequest) :
    (∃ h, extractHost request = .ok h) ↔ HostGiven request := by
  have hstar : AbsolutePath request.requestUri → request.requestUri ≠ lit "*" := by
    intro hpath
    exact slash_ne_star _ (absolutePath_leading _ hpath)
  simp only [HostGiven, AbsolutePath] at hstar ⊢
  simp only [extractHost]
  cases absoluteUriRegex.regexMatch request.requestUri with
  | some c => simp
  | none =>
    cases hpath : absolutePathRegex.regexMatch request.requestUri with
    | none => by_cases huri : request.requestUri = lit "*" <;> simp [huri]
    | some c =>
      have hne := hstar (by simp [hpath])
      cases request.requestHeader.find (lit "Host") with
      | none => simp [hne]
      | some value => cases hvalue : hostRegex.regexMatch value <;> simp [hne, hvalue]

/-- The status the way of a request calls for; none when the resource answers by itself. -/
def statusFor (garbage : Status) (factory : HttpResourceFactory) (request : HttpRequest) :
    Option Status :=
  match Handler.getHandler request.httpVersion, factory.createHandle request.toGeneric with
  | none, _ => some .httpBadRequest
  | some _, .error _ => some .httpInternalServerError
  | some _, .ok none => some .httpNotFound
  | some _, .ok (some resource) =>
    (resource.execute request.toGeneric (.fresh garbage)).2.map fun e =>
      if e = .httpInvalidRequest then .httpBadRequest else .httpInternalServerError

/-- The request is answered, with the status its way calls for. -/
def Answers (date : Bytes) (garbage : Status) (factory : HttpResourceFactory)
    (request : HttpRequest) : Prop :=
  ∃ response, execute date garbage factory request = .ok response ∧
    ∀ status ∈ statusFor garbage factory request, response.statusCode = status

/-- The factory gives a handle or none, and the resource throws at most `std::exception`s. -/
def Cooperates (garbage : Status) (factory : HttpResourceFactory) (request : HttpRequest) : Prop :=
  ∃ handle, factory.createHandle request.toGeneric = .ok handle ∧
    ∀ resource ∈ handle, (resource.execute request.toGeneric (.fresh garbage)).2 ≠ some .other

theorem statusFor_ne_unknown (garbage : Status) (factory : HttpResourceFactory)
    (request : HttpRequest) (status : Status) (h : status ∈ statusFor garbage factory request) :
    status ≠ .httpUnknown := by
  have hset : Status.httpBadRequest ≠ .httpUnknown ∧ Status.httpNotFound ≠ .httpUnknown ∧
      Status.httpInternalServerError ≠ .httpUnknown := by decide
  obtain ⟨hbad, hnot, hint⟩ := hset
  simp only [statusFor] at h
  split at h
  · obtain rfl := Option.mem_some_iff.mp h
    exact hbad
  · obtain rfl := Option.mem_some_iff.mp h
    exact hint
  · obtain rfl := Option.mem_some_iff.mp h
    exact hnot
  · obtain ⟨e, -, rfl⟩ := Option.map_eq_some_iff.mp h
    split_ifs
    · exact hbad
    · exact hint

/-- A service that cooperates returns, with the status the way of the request calls for. -/
theorem serve_ok (garbage : Status) (factory : HttpResourceFactory) (request : HttpRequest)
    (h : Handler.getHandler request.httpVersion ≠ none → Cooperates garbage factory request) :
    ∃ gresponse, serve garbage factory request = .ok gresponse ∧
      ∀ status ∈ statusFor garbage factory request, gresponse.statusCode = status := by
  cases hhandler : Handler.getHandler request.httpVersion with
  | none => simp [serve, statusFor, hhandler]
  | some handler =>
    obtain ⟨handle, hcreate, hthrown⟩ := h (by simp [hhandler])
    cases handle with
    | none => simp [serve, statusFor, hhandler, forward, callCreateHandle, hcreate]
    | some resource =>
      have hother := hthrown resource rfl
      rcases hrun : resource.execute request.toGeneric (.fresh garbage) with ⟨gresponse, e⟩
      rw [hrun] at hother
      rcases e with _ | _ | _ | _
      · simp [serve, statusFor, hhandler, forward, callCreateHandle, hcreate, hrun]
      · simp [serve, statusFor, hhandler, forward, callCreateHandle, hcreate, hrun]
      · simp [serve, statusFor, hhandler, forward, callCreateHandle, hcreate, hrun]
      · exact absurd rfl hother

theorem serve_cooperates (garbage : Status) (factory : HttpResourceFactory)
    (request : HttpRequest) (gresponse : GenericResponse)
    (h : serve garbage factory request = .ok gresponse)
    (hhandler : Handler.getHandler request.httpVersion ≠ none) :
    Cooperates garbage factory request := by
  obtain ⟨handler, hhandler⟩ := Option.ne_none_iff_exists'.mp hhandler
  simp only [serve, hhandler, forward, callCreateHandle] at h
  cases hcreate : factory.createHandle request.toGeneric with
  | error e => simp [hcreate] at h
  | ok handle =>
    refine ⟨handle, hcreate, ?_⟩
    intro resource hresource hother
    obtain rfl := Option.mem_def.mp hresource
    rcases hrun : resource.execute request.toGeneric (.fresh garbage) with ⟨left, e⟩
    rw [hrun] at hother
    obtain rfl : e = some .other := hother
    simp [hcreate, hrun] at h

/-- A request is answered exactly when it gives its host and, for a version with a handler, the
factory and the resource throw nothing the service does not catch. -/
theorem execute_answers_iff (date : Bytes) (garbage : Status) (factory : HttpResourceFactory)
    (request : HttpRequest) : Answers date garbage factory request ↔
      HostGiven request ∧ (Handler.getHandler request.httpVersion ≠ none →
        Cooperates garbage factory request) := by
  rw [← extractHost_given]
  constructor
  · intro h
    obtain ⟨response, hexecute, -⟩ := h
    simp only [execute] at hexecute
    cases hhost : extractHost request with
    | error e => simp [hhost] at hexecute
    | ok host =>
      refine ⟨⟨host, rfl⟩, ?_⟩
      cases hserve : serve garbage factory request with
      | error e => simp [hhost, hserve] at hexecute
      | ok gresponse => exact serve_cooperates garbage factory request gresponse hserve
  · intro h
    obtain ⟨⟨host, hhost⟩, hcooperates⟩ := h
    obtain ⟨gresponse, hserve, hstatus⟩ := serve_ok garbage factory request hcooperates
    refine ⟨respond date garbage request (defaultStatus gresponse), ?_, ?_⟩
    · simp [execute, hhost, hserve]
    · intro status hmem
      have hcode := hstatus status hmem
      have hne := statusFor_ne_unknown garbage factory request status hmem
      rw [respond_statusCode, defaultStatus, if_neg (hcode ▸ hne), hcode]

/-- The request of the conformance test is parsed, and no service answers it. -/
theorem execute_without_host :
    ∃ r, parseRequest plainBuild .mGet (lit "GET /basic.html HTTP/1.1\r\n\r\n") = .ok r ∧
      ∀ date garbage factory, ¬Answers date garbage factory r := by
  refine ⟨{ HttpRequest.fresh .mGet with
    requestUri := lit "/basic.html", httpVersion := lit "HTTP/1.1" }, by decide, ?_⟩
  intro date garbage factory h
  obtain ⟨response, hexecute, -⟩ := h
  have hhost : extractHost { HttpRequest.fresh .mGet with
      requestUri := lit "/basic.html", httpVersion := lit "HTTP/1.1" } =
      .error (.httpInvalidRequest (lit "'Host' header is missing.")) := by decide
  simp [execute, hhost] at hexecute

end HttpService
end HttpCpp
