import HttpCpp.Filesystem.Resource
import HttpCpp.Protocol.ResponseGrammar
import HttpCpp.Service.Selection

namespace HttpCpp

variable {Fn : Type}

structure RestRequest where
  req : GenericRequest
  params : ParamMap

/-- A way to call the functions behind the routes. -/
abbrev Call (Fn : Type) := Fn → RestRequest → GenericResponse → GenericResponse × Option Thrown

/-- `rest_resource::execute` -/
def RestResource.execute (call : Call Fn) (r : RestResource Fn) (request : GenericRequest)
    (response : GenericResponse) : GenericResponse × Option Thrown :=
  match r.fn with
  | some fn => call fn ⟨request, r.params⟩ response
  | none => ({ response with statusCode := .httpNotFound }, none)

/-- The `execute` of a resource; the calls a file or a directory makes succeed. -/
def Resource.run (env : ResourceContext) (call : Call Fn) : Resource Fn → HttpResource
  | .filesystem r => ⟨fun request response => (r.execute env request response, none)⟩
  | .rest r => ⟨r.execute call⟩

namespace HttpService

/-- `execute` of a service whose resources run in the context. -/
def executeIn (bld : Build) (env : ResourceContext) (call : Call Fn) (service : Service Fn)
    (date : Bytes) (garbage : Status) (request : HttpRequest) : Except Failure HttpResponse :=
  execute date garbage (service.factory bld env.fs (Resource.run env call)) request

/-- What a directory's service leaves in the response. -/
def directoryResponse (env : ResourceContext) (virtualPath : Bytes) (request : HttpRequest) :
    GenericResponse :=
  match Handler.getHandler request.httpVersion with
  | none => ⟨.httpBadRequest, .empty, [], true⟩
  | some _ =>
    match FilesystemFactory.resource env.fs (virtualPath ++ request.requestUri) with
    | none => ⟨.httpNotFound, .empty, [], true⟩
    | some r => ⟨.httpOk, r.header env, if request.method = .mGet then r.content env else [], true⟩

theorem hostGiven_named (request : HttpRequest) (h : HostGiven request) :
    request.requestUri ≠ [] := by
  intro hempty
  have hstar : ([] : Bytes) ≠ lit "*" := by decide
  have habsolute : absoluteUriRegex.regexMatch [] = none := by decide
  have hpath : absolutePathRegex.regexMatch [] = none := by decide
  simp [HostGiven, AbsolutePath, hempty, hstar, habsolute, hpath] at h

/-- What the `try` block leaves over a directory, with the default status filled in. -/
theorem serve_directory (bld : Build) (env : ResourceContext) (call : Call Fn)
    (virtualPath : Bytes) (garbage : Status) (request : HttpRequest)
    (huri : request.requestUri ≠ []) :
    (serve garbage (Service.factory bld env.fs (Resource.run env call) (.directory virtualPath))
      request).map defaultStatus = .ok (directoryResponse env virtualPath request) := by
  have hset : Status.httpBadRequest ≠ .httpUnknown ∧ Status.httpNotFound ≠ .httpUnknown ∧
      Status.httpOk ≠ .httpUnknown := by decide
  cases hhandler : Handler.getHandler request.httpVersion with
  | none =>
    simp [serve, hhandler, directoryResponse, GenericResponse.fresh, Except.map, defaultStatus,
      hset]
  | some handler =>
    have hsame : request.toGeneric.requestUri = request.requestUri := rfl
    have hmethod : request.toGeneric.method = request.method := rfl
    have hpath : virtualPath ++ request.toGeneric.requestUri ≠ [] :=
      List.append_ne_nil_of_right_ne_nil _ huri
    have hcreate := FilesystemFactory.createHandle_eq bld env.fs virtualPath request.toGeneric hpath
    rw [hsame] at hcreate
    cases hresource : FilesystemFactory.resource env.fs (virtualPath ++ request.requestUri) with
    | none =>
      simp [serve, hhandler, directoryResponse, forward, callCreateHandle, Service.factory,
        Service.createHandle, hcreate, hresource, Except.map, GenericResponse.fresh, defaultStatus,
        hset]
    | some r =>
      simp [serve, hhandler, directoryResponse, forward, callCreateHandle, Service.factory,
        Service.createHandle, hcreate, hresource, Except.map, Resource.run,
        FilesystemResource.execute_eq, hmethod, defaultStatus, hset]

/-- A directory's service answers a request exactly when it gives its host. -/
theorem executeIn_directory (bld : Build) (env : ResourceContext) (call : Call Fn)
    (virtualPath date : Bytes) (garbage : Status) (request : HttpRequest)
    (response : HttpResponse) :
    executeIn bld env call (.directory virtualPath) date garbage request = .ok response ↔
      HostGiven request ∧
        response = respond date garbage request (directoryResponse env virtualPath request) := by
  rw [executeIn, execute, ← extractHost_given]
  cases hhost : extractHost request with
  | error e => simp
  | ok host =>
    have hgiven : HostGiven request := (extractHost_given request).mp ⟨host, hhost⟩
    have hserve := serve_directory bld env call virtualPath garbage request
      (hostGiven_named request hgiven)
    cases hrun : serve garbage (Service.factory bld env.fs (Resource.run env call)
        (.directory virtualPath)) request with
    | error e => simp [hrun, Except.map] at hserve
    | ok gresponse =>
      rw [hrun] at hserve
      simp [← Except.ok.inj hserve, eq_comm]

/-- A response without a body that is otherwise like another. -/
structure Mirrors (head get : HttpResponse) : Prop where
  statusCode : head.statusCode = get.statusCode
  generalHeader : head.generalHeader = get.generalHeader
  responseHeader : head.responseHeader = get.responseHeader
  entityHeader : head.entityHeader = get.entityHeader
  messageBody : head.messageBody = []

theorem respond_mirrors (date : Bytes) (garbage garbage' : Status) (request request' : HttpRequest)
    (gresponse : GenericResponse) (h : request.httpVersion = request'.httpVersion) :
    Mirrors (respond date garbage request { gresponse with messageBody := [] })
      (respond date garbage' request' gresponse) := by
  simp only [respond, h]
  cases Handler.getHandler request'.httpVersion with
  | none => exact ⟨rfl, rfl, rfl, rfl, rfl⟩
  | some handler => cases handler <;> exact ⟨rfl, rfl, rfl, rfl, rfl⟩

theorem directoryResponse_head (env : ResourceContext) (virtualPath : Bytes)
    (request : HttpRequest) :
    directoryResponse env virtualPath { request with method := .mHead } =
      { directoryResponse env virtualPath { request with method := .mGet } with
        messageBody := [] } := by
  simp only [directoryResponse]
  cases Handler.getHandler request.httpVersion with
  | none => rfl
  | some handler =>
    cases FilesystemFactory.resource env.fs (virtualPath ++ request.requestUri) with
    | none => rfl
    | some r => simp

/-- HEAD is answered like GET, without the body, exactly when the request gives its host. -/
theorem executeIn_head_iff (bld : Build) (env : ResourceContext) (call : Call Fn)
    (virtualPath date : Bytes) (garbage garbage' : Status) (request : HttpRequest) :
    (∃ head get,
      executeIn bld env call (.directory virtualPath) date garbage
        { request with method := .mHead } = .ok head ∧
      executeIn bld env call (.directory virtualPath) date garbage'
        { request with method := .mGet } = .ok get ∧ Mirrors head get) ↔ HostGiven request := by
  simp only [executeIn_directory]
  constructor
  · intro h
    obtain ⟨head, get, ⟨hgiven, -⟩, -⟩ := h
    exact hgiven
  · intro hgiven
    refine ⟨_, _, ⟨hgiven, rfl⟩, ⟨hgiven, rfl⟩, ?_⟩
    rw [directoryResponse_head]
    exact respond_mirrors date garbage garbage' _ _ _ rfl

/-- A Request-URI of no known form is answered for no method, whatever the `Host` header says. -/
theorem executeIn_head_unanswered :
    (∃ value, (sampleRequest (lit "foo")).requestHeader.find (lit "Host") = some value ∧
      (hostRegex.regexMatch value).isSome) ∧
    ∀ (bld : Build) (env : ResourceContext) (call : Call Nat) (virtualPath date : Bytes)
      (garbage : Status) (m : Method) (response : HttpResponse),
      executeIn bld env call (.directory virtualPath) date garbage
        { sampleRequest (lit "foo") with method := m } ≠ .ok response := by
  refine ⟨⟨lit "a", by decide, by decide⟩, ?_⟩
  intro bld env call virtualPath date garbage m response h
  obtain ⟨hgiven, -⟩ := (executeIn_directory bld env call virtualPath date garbage _ response).mp h
  have hnone : extractHost (sampleRequest (lit "foo")) = .error (.invalidArgument (lit
      "Invalid Request-URI parameter in the request, could not detect a valid format.")) := by
    decide
  obtain ⟨host, hhost⟩ := (extractHost_given (sampleRequest (lit "foo"))).mpr hgiven
  rw [hnone] at hhost
  contradiction

/-- The one length that the headers give is that of the body. -/
def LengthTold (response : HttpResponse) : Prop :=
  ∀ value, (lit "Content-Length", value) ∈ response.headers ↔
    value = decimalText response.messageBody.length

/-- The path names a file, or a directory with an index to fall back to. -/
def LeadsToFile (fs : Snapshot) (path : Bytes) : Prop :=
  fs.isRegularFile path ∨ fs.isDirectory path ∧
    fs.fileExists (FilesystemFactory.indexPath path) ∧
      ¬fs.isDirectory (FilesystemFactory.indexPath path)

instance (fs : Snapshot) (path : Bytes) : Decidable (LeadsToFile fs path) :=
  inferInstanceAs (Decidable (_ ∨ _))

theorem resource_file_iff (fs : Snapshot) (path : Bytes) (r : FilesystemResource)
    (h : FilesystemFactory.resource fs path = some r) :
    LeadsToFile fs path ↔ ∃ requestUri, r = .file requestUri := by
  simp only [FilesystemFactory.resource] at h
  split_ifs at h with hfile hdir hindex
  · obtain rfl := Option.some.inj h
    exact iff_of_true (Or.inl hfile) ⟨path, rfl⟩
  · obtain rfl := Option.some.inj h
    exact iff_of_true (Or.inr ⟨hdir, hindex⟩) ⟨_, rfl⟩
  · obtain rfl := Option.some.inj h
    refine iff_of_false ?_ (by simp)
    intro hleads
    exact hleads.elim hfile fun hleads => hindex hleads.2

/-- The lengths sent with a response that a handler makes are those its resource has set. -/
theorem makeResponse_contentLength (handler : Handler) (date : Bytes) (gresponse : GenericResponse)
    (value : Bytes) :
    (lit "Content-Length", value) ∈ (handler.makeResponse date gresponse).headers ↔
      gresponse.header.find (lit "Content-Length") = some value := by
  have hother : lit "Content-Length" ≠ lit "Date" ∧ lit "Content-Length" ≠ lit "Server" := by decide
  have hfind (httpVersion : Bytes) :
      (lit "Content-Length", value) ∈ (HttpCpp.makeResponse httpVersion date gresponse).headers ↔
        gresponse.header.find (lit "Content-Length") = some value := by
    have hgeneral : (HttpCpp.makeResponse httpVersion date gresponse).generalHeader.entries =
        [(lit "Date", date)] := rfl
    have hentity : (HttpCpp.makeResponse httpVersion date gresponse).entityHeader.entries = [] :=
      rfl
    simp only [HttpResponse.headers, hgeneral, hentity, List.append_nil, List.singleton_append,
      List.mem_cons, Prod.mk.injEq, hother.1, false_and, false_or, StdMap.mem_entries,
      makeResponse_find, hother.2, if_false]
  cases handler <;> exact hfind _

/-- A GET answered with 200 tells the length of its body exactly when the path leads to a file. -/
theorem executeIn_contentLength_iff (bld : Build) (env : ResourceContext) (call : Call Fn)
    (virtualPath date : Bytes) (garbage : Status) (request : HttpRequest) (response : HttpResponse)
    (hget : request.method = .mGet)
    (hresponse : executeIn bld env call (.directory virtualPath) date garbage request =
      .ok response)
    (hok : response.statusCode = .httpOk) :
    LengthTold response ↔ LeadsToFile env.fs (virtualPath ++ request.requestUri) := by
  have hset : Status.httpBadRequest ≠ .httpOk ∧ Status.httpNotFound ≠ .httpOk := by decide
  obtain ⟨-, rfl⟩ := (executeIn_directory bld env call virtualPath date garbage request
    response).mp hresponse
  rw [respond_statusCode] at hok
  cases hhandler : Handler.getHandler request.httpVersion with
  | none => simp [directoryResponse, hhandler, hset] at hok
  | some handler =>
    cases hresource : FilesystemFactory.resource env.fs (virtualPath ++ request.requestUri) with
    | none => simp [directoryResponse, hhandler, hresource, hset] at hok
    | some r =>
      have hbody : (respond date garbage request
          (directoryResponse env virtualPath request)).messageBody = r.content env := by
        simp only [respond, hhandler, directoryResponse, hresource, hget, if_true]
        cases handler <;> rfl
      rw [resource_file_iff env.fs _ r hresource, LengthTold, hbody]
      simp only [respond, hhandler, directoryResponse, hresource, makeResponse_contentLength,
        FilesystemResource.header_contentLength]
      cases r with
      | file requestUri => simp [eq_comm]
      | listing requestUri =>
        have hne := decimalText_ne_nil ((FilesystemResource.listing requestUri).content env).length
        simp only [Option.some.injEq, reduceCtorEq, exists_false, iff_false]
        intro h
        exact hne ((h _).mpr rfl).symm

/-- The two directories of the sample, without a magic database. -/
def sampleContext : ResourceContext where
  fs := FilesystemFactory.sampleSnapshot
  special _ := (none, 0)
  localtime _ := ⟨37, 49, 8, 6, ⟨10, by decide⟩, 94, ⟨0, by decide⟩⟩
  magicFile := none

/-- The answer to a request for what a directory is for itself. -/
def sampleAnswer (virtualPath : Bytes) : Except Failure HttpResponse :=
  executeIn plainBuild sampleContext (fun (_ : Nat) _ response => (response, none))
    (.directory virtualPath) [] .httpUnknown (sampleRequest (lit "/"))

theorem executeIn_contentLength_index :
    ∃ response, sampleAnswer (lit "/srv/www") = .ok response ∧ LengthTold response := by
  have hgiven : HostGiven (sampleRequest (lit "/")) :=
    (extractHost_given _).mp ⟨⟨lit "a", 80⟩, by decide⟩
  have hresponse : sampleAnswer (lit "/srv/www") = .ok _ :=
    (executeIn_directory _ _ _ _ _ _ _ _).mpr ⟨hgiven, rfl⟩
  refine ⟨_, hresponse, ?_⟩
  exact (executeIn_contentLength_iff _ _ _ _ _ _ _ _ rfl hresponse (by decide)).mpr
    (by decide)

/-- A listing is sent with an empty length. -/
theorem executeIn_contentLength_listing :
    ∃ response, sampleAnswer (lit "/srv") = .ok response ∧ response.statusCode = .httpOk ∧
      response.messageBody = lit "[DIR] www\r\n[FILE] secret\r\n" ∧
      response.responseHeader.find (lit "Content-Length") = some [] ∧ ¬LengthTold response := by
  have hgiven : HostGiven (sampleRequest (lit "/")) :=
    (extractHost_given _).mp ⟨⟨lit "a", 80⟩, by decide⟩
  have hresponse : sampleAnswer (lit "/srv") = .ok _ :=
    (executeIn_directory _ _ _ _ _ _ _ _).mpr ⟨hgiven, rfl⟩
  refine ⟨_, hresponse, by decide, by decide, by decide, ?_⟩
  intro h
  exact absurd ((h []).mp (by decide)).symm (decimalText_ne_nil _)

end HttpService
end HttpCpp
