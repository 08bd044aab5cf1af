import HttpCpp.Service.FilesystemService

namespace HttpCpp

namespace MyService

/-- The functions that the REST service of the example binds. -/
inductive Function where
  | getMessage
  | getMessageAuthor
  | getMessageAuthorFriends
  | putMessage
  | deleteMessage
  deriving DecidableEq

/-- What every function does: a text and the parameters become the body. -/
def answer (text : Bytes) (request : RestRequest) (response : GenericResponse) :
    GenericResponse × Option Thrown :=
  ({ response with
    messageBody := request.params.entries.foldl
      (fun messageBody pair => messageBody ++ (lit "\n" ++ pair.1 ++ lit ":" ++ pair.2)) text },
    none)

def getMessage := answer (lit "GET message")
def getMessageAuthor := answer (lit "GET author")
def getMessageAuthorFriends := answer (lit "GET friends")
def putMessage := answer (lit "PUT message")
def deleteMessage := answer (lit "DELETE message")

def call : Call Function
  | .getMessage => getMessage
  | .getMessageAuthor => getMessageAuthor
  | .getMessageAuthorFriends => getMessageAuthorFriends
  | .putMessage => putMessage
  | .deleteMessage => deleteMessage

/-- The routes that `setup` adds. -/
def setup : List (RouteCall Function) :=
  [⟨.mGet, lit "/message/:id", some .getMessage⟩, ⟨.mPut, lit "/message", some .putMessage⟩,
    ⟨.mDelete, lit "/message/:id", some .deleteMessage⟩,
    ⟨.mGet, lit "/message/:id/author", some .getMessageAuthor⟩,
    ⟨.mGet, lit "/message/:id/author/friend", some .getMessageAuthorFriends⟩]

end MyService

/-- The resource returns and leaves the status as it finds it, whatever else it changes. -/
def HttpResource.LeavesStatus (resource : HttpResource) (grequest : GenericRequest) : Prop :=
  ∀ gresponse, (resource.execute grequest gresponse).2 = none ∧
    (resource.execute grequest gresponse).1.statusCode = gresponse.statusCode

theorem MyService.call_leavesStatus (fn : Function) (requestUri : Bytes) (params : ParamMap)
    (grequest : GenericRequest) :
    HttpResource.LeavesStatus ⟨RestResource.execute MyService.call ⟨requestUri, some fn, params⟩⟩
      grequest := by
  intro gresponse
  cases fn <;> exact ⟨rfl, rfl⟩

namespace HttpService

/-- The way of a request to the resource that the factory gives for it. -/
structure Reaches (factory : HttpResourceFactory) (request : HttpRequest) (handler : Handler)
    (resource : HttpResource) : Prop where
  host : HostGiven request
  version : Handler.getHandler request.httpVersion = some handler
  resource : factory.createHandle request.toGeneric = .ok (some resource)

/-- What is left of the response decides what is sent, once the status is set. -/
theorem execute_reaches (date : Bytes) (garbage : Status) (factory : HttpResourceFactory)
    (request : HttpRequest) (handler : Handler) (resource : HttpResource)
    (h : Reaches factory request handler resource) (gresponse : GenericResponse)
    (hforward : forward factory request.toGeneric (.fresh garbage) = .ok gresponse) :
    execute date garbage factory request =
      .ok (handler.makeResponse date (defaultStatus gresponse)) := by
  obtain ⟨host, hhost⟩ := (extractHost_given request).mpr h.host
  simp only [execute, hhost, serve, h.version, hforward, respond]

theorem forward_returns (factory : HttpResourceFactory) (request : HttpRequest)
    (handler : Handler) (resource : HttpResource) (h : Reaches factory request handler resource)
    (start gresponse : GenericResponse)
    (hrun : resource.execute request.toGeneric start = (gresponse, none)) :
    forward factory request.toGeneric start = .ok gresponse := by
  simp only [forward, callCreateHandle, h.resource, hrun]

/-- The status of the handler that catches an exception. -/
def errorStatus (e : Thrown) : Status :=
  if e = .httpInvalidRequest then .httpBadRequest else .httpInternalServerError

/-- Everything but the status stays as the resource left it. -/
theorem forward_throws (factory : HttpResourceFactory) (request : HttpRequest)
    (handler : Handler) (resource : HttpResource) (h : Reaches factory request handler resource)
    (start gresponse : GenericResponse) (e : Thrown)
    (hrun : resource.execute request.toGeneric start = (gresponse, some e)) (hcaught : e ≠ .other) :
    forward factory request.toGeneric start =
      .ok { gresponse with statusCode := errorStatus e } := by
  simp only [forward, callCreateHandle, h.resource, hrun]
  cases e with
  | httpInvalidRequest => rfl
  | stdException => rfl
  | other => exact absurd rfl hcaught

theorem defaultStatus_error (gresponse : GenericResponse) (e : Thrown) :
    defaultStatus { gresponse with statusCode := errorStatus e } =
      { gresponse with statusCode := errorStatus e } := by
  apply if_neg
  simp only [errorStatus]
  split_ifs
  · decide
  · decide

/-- A resource that sets no status is answered with 200 exactly when the status happens to be
unknown or 200 from the start. -/
theorem execute_default_iff (date : Bytes) (garbage : Status) (factory : HttpResourceFactory)
    (request : HttpRequest) (handler : Handler) (resource : HttpResource)
    (h : Reaches factory request handler resource)
    (hleaves : resource.LeavesStatus request.toGeneric) :
    (∃ response, execute date garbage factory request = .ok response ∧
      response.statusCode = .httpOk) ↔ garbage = .httpUnknown ∨ garbage = .httpOk := by
  rcases hrun : resource.execute request.toGeneric (.fresh garbage) with ⟨gresponse, e⟩
  obtain ⟨hreturns, hstatus⟩ := hleaves (.fresh garbage)
  rw [hrun] at hreturns hstatus
  obtain rfl : e = none := hreturns
  have hforward := forward_returns factory request handler resource h _ _ hrun
  have hsame : gresponse.statusCode = garbage := hstatus
  rw [execute_reaches date garbage factory request handler resource h gresponse hforward]
  simp only [Except.ok.injEq, exists_eq_left', Handler.makeResponse_statusCode, defaultStatus]
  split_ifs with hunknown
  · simp [← hsame, hunknown]
  · simp [← hsame, hunknown]

/-- A request to the example service. -/
def messageRequest : HttpRequest :=
  { HttpRequest.fresh .mGet with
    requestUri := lit "/message/7"
    httpVersion := lit "HTTP/1.1"
    requestHeader := StdMap.empty.assign (lit "Host") (lit "localhost") }

def messageFactory : HttpResourceFactory :=
  Service.factory plainBuild sampleContext.fs (Resource.run sampleContext MyService.call)
    (.rest MyService.setup)

theorem messageRequest_reaches :
    Reaches messageFactory messageRequest .oneOne
      ⟨RestResource.execute MyService.call
        ⟨lit "/message/7", some .getMessage, StdMap.empty.assign (lit "id") (lit "7")⟩⟩ where
  host := (extractHost_given _).mp ⟨⟨lit "localhost", 80⟩, by decide⟩
  version := by decide
  resource := by
    have hcreate : Service.createHandle plainBuild sampleContext.fs messageRequest.toGeneric
        (.rest MyService.setup) = .ok (some (.rest
          ⟨lit "/message/7", some .getMessage, StdMap.empty.assign (lit "id") (lit "7")⟩)) := by
      decide
    simp only [messageFactory, Service.factory, hcreate]
    rfl

theorem execute_default_unknown :
    ∃ response, execute (lit "now") .httpUnknown messageFactory messageRequest = .ok response ∧
      response.statusCode = .httpOk :=
  (execute_default_iff _ _ _ _ _ _ messageRequest_reaches
    (MyService.call_leavesStatus _ _ _ _)).mpr (Or.inl rfl)

/-- Where the status was 404 from the start, the message is sent with it. -/
theorem execute_default_garbage :
    ∃ response, execute (lit "now") .httpNotFound messageFactory messageRequest = .ok response ∧
      response.statusCode = .httpNotFound ∧ response.messageBody = lit "GET message\nid:7" := by
  have hforward := forward_returns messageFactory messageRequest _ _ messageRequest_reaches
    (.fresh .httpNotFound) _ rfl
  refine ⟨_, execute_reaches _ _ _ _ _ _ messageRequest_reaches _ hforward, ?_, ?_⟩
  · decide
  · decide

/-- An error's response, as `make_response` gives it when there is nothing else to send. -/
structure CleanError (e : Thrown) (date : Bytes) (response : HttpResponse) : Prop where
  statusCode : response.statusCode = errorStatus e
  messageBody : response.messageBody = []
  headers : response.headers = [(lit "Date", date), (lit "Server", lit "http-cpp v0.1")]

theorem makeResponse_bare_iff (httpVersion date : Bytes) (gresponse : GenericResponse) :
    (makeResponse httpVersion date gresponse).headers =
        [(lit "Date", date), (lit "Server", lit "http-cpp v0.1")] ↔
      ∀ name, name ≠ lit "Server" → gresponse.header.find name = none := by
  have hbare : (makeResponse httpVersion date gresponse).headers =
      [(lit "Date", date), (lit "Server", lit "http-cpp v0.1")] ↔
      (makeResponse httpVersion date gresponse).responseHeader =
        StdMap.empty.assign (lit "Server") (lit "http-cpp v0.1") := by
    rw [HttpResponse.makeResponse_headers, List.cons.injEq, and_iff_right rfl, StdMap.ext_iff]
    rfl
  rw [hbare]
  constructor
  · intro hsame name hname
    have hfind := makeResponse_find httpVersion date gresponse name
    rw [if_neg hname, hsame, StdMap.find_assign_ne _ _ _ _ hname] at hfind
    exact hfind.symm
  · intro hnone
    apply StdMap.ext_find
    intro name
    rw [makeResponse_find]
    split_ifs with hname
    · rw [hname, StdMap.find_assign]
    · rw [hnone name hname, StdMap.find_assign_ne _ _ _ _ hname]
      rfl

/-- An exception of a resource is answered with an error and nothing else exactly when the resource
had not yet set the body or any header but `Server`. -/
theorem execute_failed_iff (date : Bytes) (garbage : Status) (factory : HttpResourceFactory)
    (request : HttpRequest) (handler : Handler) (resource : HttpResource)
    (h : Reaches factory request handler resource) (gresponse : GenericResponse) (e : Thrown)
    (hrun : resource.execute request.toGeneric (.fresh garbage) = (gresponse, some e))
    (hcaught : e ≠ .other) :
    (∃ response, execute date garbage factory request = .ok response ∧
      CleanError e date response) ↔
      gresponse.messageBody = [] ∧
        ∀ name, name ≠ lit "Server" → gresponse.header.find name = none := by
  have hforward := forward_throws factory request handler resource h _ _ e hrun hcaught
  have hexecute := execute_reaches date garbage factory request handler resource h _ hforward
  rw [defaultStatus_error] at hexecute
  have hheaders : (handler.makeResponse date
      { gresponse with statusCode := errorStatus e }).headers =
      [(lit "Date", date), (lit "Server", lit "http-cpp v0.1")] ↔
      ∀ name, name ≠ lit "Server" → gresponse.header.find name = none := by
    cases handler <;> exact makeResponse_bare_iff _ _ _
  have hbody : (handler.makeResponse date
      { gresponse with statusCode := errorStatus e }).messageBody = gresponse.messageBody := by
    cases handler <;> rfl
  rw [hexecute, ← hheaders]
  simp only [Except.ok.injEq, exists_eq_left']
  constructor
  · intro hclean
    exact ⟨hbody.symm.trans hclean.messageBody, hclean.headers⟩
  · intro hbare
    exact ⟨Handler.makeResponse_statusCode _ _ _, hbody.trans hbare.1, hbare.2⟩

/-- A resource that has set a status, headers and a body when it throws. -/
def failing (statusCode : Status) (header : HeaderMap) (messageBody : Bytes) (e : Thrown) :
    HttpResource where
  execute _ gresponse :=
    ({ gresponse with statusCode := statusCode, header := header, messageBody := messageBody },
      some e)

def failingFactory (resource : HttpResource) : HttpResourceFactory where
  createHandle _ := .ok (some resource)

theorem failing_reaches (resource : HttpResource) :
    Reaches (failingFactory resource) messageRequest .oneOne resource :=
  ⟨messageRequest_reaches.host, messageRequest_reaches.version, rfl⟩

/-- A status and a `Server` that were set before do no harm. -/
theorem execute_failed_early :
    ∃ response, execute (lit "now") .httpUnknown (failingFactory (failing .httpOk
        (StdMap.empty.assign (lit "Server") (lit "mine")) [] .httpInvalidRequest)) messageRequest =
          .ok response ∧
      CleanError .httpInvalidRequest (lit "now") response := by
  refine (execute_failed_iff _ _ _ _ _ _ (failing_reaches _) _ _ rfl (by decide)).mpr ⟨rfl, ?_⟩
  intro name hname
  rw [StdMap.find_assign_ne _ _ _ _ hname]
  rfl

/-- The half of an answer is sent as an error. -/
theorem execute_failed_late :
    ∃ response, execute (lit "now") .httpUnknown (failingFactory (failing .httpOk
        (StdMap.empty.assign (lit "Content-Length") (lit "1000")) (lit "the first half")
        .stdException)) messageRequest = .ok response ∧
      response.statusCode = .httpInternalServerError ∧
      response.messageBody = lit "the first half" ∧
      response.responseHeader.find (lit "Content-Length") = some (lit "1000") ∧
      ¬CleanError .stdException (lit "now") response := by
  have hforward := forward_throws _ _ _ _ (failing_reaches (failing .httpOk
    (StdMap.empty.assign (lit "Content-Length") (lit "1000")) (lit "the first half")
    .stdException)) (.fresh .httpUnknown) _ _ rfl (by decide)
  refine ⟨_, execute_reaches _ _ _ _ _ _ (failing_reaches _) _ hforward, by decide,
    by decide, by decide, ?_⟩
  intro hclean
  exact absurd hclean.messageBody (by decide)

end HttpService
end HttpCpp
