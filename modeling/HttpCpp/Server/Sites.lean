import HttpCpp.Filesystem.Pages
import HttpCpp.Server.SiteReplies
import HttpCpp.Server.WebsiteRouting
import HttpCpp.Service.HostedRequest

namespace HttpCpp

/-- `http_service::execute` on the bytes of a request. -/
def HttpService.executeText {Fn : Type} (bld : Build) (env : ResourceContext) (call : Call Fn)
    (service : Service Fn) (now : Moment) (request : Bytes) : Except Failure Bytes :=
  match parseRequest bld now.garbageMethod request with
  | .error e => .error (.fault e)
  | .ok structuredRequest =>
    match executeIn bld env call service (httptime now.timeptr) now.garbage structuredRequest with
    | .error e => .error e
    | .ok structuredResponse =>
      match structuredResponse.serialize with
      | .error e => .error (.fault e)
      | .ok text => .ok text

namespace HttpWorker

open HttpService

variable {Fn : Type}

/-- What a service leaves of the response to a request can be read in the text that its response is
written as. -/
theorem executeIn_reads {frame : Bytes} {request : HttpRequest} {host : Host} (bld : Build)
    (env : ResourceContext) (call : Call Fn) (now : Moment)
    (h : ParsedFor bld frame request host) (service : Service Fn) (gresponse : GenericResponse)
    (hserve : (serve now.garbage (Service.factory bld env.fs (Resource.run env call) service)
      request).map defaultStatus = .ok gresponse)
    (hplain : gresponse.Plain) :
    ∃ response text, executeIn bld env call service (httptime now.timeptr) now.garbage request =
        .ok response ∧ response.serialize = .ok text ∧
      HttpResponse.decode text =
        some (Handler.oneOne.makeResponse (httptime now.timeptr) gresponse).decoded := by
  have htidy := makeResponse_tidy .oneOne now.timeptr gresponse hplain.header
  obtain ⟨text, htext, -⟩ := HttpResponse.serialize_known
    (Handler.oneOne.makeResponse (httptime now.timeptr) gresponse) hplain.known
  refine ⟨_, text, ?_, htext, (htidy.decodes text htext).2⟩
  cases hleft : serve now.garbage (Service.factory bld env.fs (Resource.run env call) service)
      request with
  | error e => simp [hleft, Except.map] at hserve
  | ok left =>
    rw [hleft] at hserve
    obtain rfl := Except.ok.inj hserve
    simp only [executeIn, execute, h.hosted, hleft, respond, h.handler]

/-- A worker sends the text of the response that the service of the host's website returns. -/
theorem siteAnswer_executed {frame : Bytes} {request : HttpRequest} {host : Host} (bld : Build)
    (websites : Websites (Service Fn)) (env : ResourceContext) (call : Call Fn) (now : Moment)
    (h : ParsedFor bld frame request host) (service : Service Fn)
    (hservice : (host, service) ∈ websites.entries) (response : HttpResponse) (text : Bytes)
    (hexecute : executeIn bld env call service (httptime now.timeptr) now.garbage request =
      .ok response)
    (htext : response.serialize = .ok text) :
    siteAnswer bld websites env call now frame = some text := by
  have hfind := findWebsite_host websites (host, service) hservice _ h.hosted
  simp only [siteAnswer, answer, surroundings, process, h.parsed, hfind, hexecute, caught, htext]
  rfl

/-- From the bytes of a request to what can be read in the bytes of its response, through parsing,
the choice of the website, its service and the serialisation. -/
theorem siteAnswer_reads {frame : Bytes} {request : HttpRequest} {host : Host} (bld : Build)
    (websites : Websites (Service Fn)) (env : ResourceContext) (call : Call Fn) (now : Moment)
    (h : ParsedFor bld frame request host) (service : Service Fn)
    (hservice : (host, service) ∈ websites.entries) (gresponse : GenericResponse)
    (hserve : (serve now.garbage (Service.factory bld env.fs (Resource.run env call) service)
      request).map defaultStatus = .ok gresponse)
    (hplain : gresponse.Plain) :
    ∃ text, siteAnswer bld websites env call now frame = some text ∧
      HttpResponse.decode text =
        some (Handler.oneOne.makeResponse (httptime now.timeptr) gresponse).decoded := by
  obtain ⟨response, text, hexecute, htext, hdecode⟩ :=
    executeIn_reads bld env call now h service gresponse hserve hplain
  exact ⟨text, siteAnswer_executed bld websites env call now h service hservice response text
    hexecute htext, hdecode⟩

/-- The lengths that are read are those the resource has set. -/
theorem read_contentLength (timeptr : Tm) (gresponse : GenericResponse) (value : Bytes) :
    (lit "Content-Length", value) ∈
        (Handler.oneOne.makeResponse (httptime timeptr) gresponse).decoded.header ↔
      gresponse.header.find (lit "Content-Length") = some value :=
  makeResponse_contentLength .oneOne (httptime timeptr) gresponse value

/-- What is read in a response that shows a text with a length, or nothing. -/
def Reads (content : Option (Bytes × Bytes)) (m : Method) (d : HttpResponse.Decoded) : Prop :=
  match content with
  | none => d.statusCode = 404 ∧ d.messageBody = []
  | some (text, lengthText) => d.statusCode = 200 ∧
      d.messageBody = (if m = .mGet then text else []) ∧
      ∀ value, (lit "Content-Length", value) ∈ d.header ↔ value = lengthText

/-- What is read in the response for a path of a directory's website: 404 where the path leads
nowhere, and otherwise the bytes behind it, with their length where it leads to a file. -/
def ReadsPath (env : ResourceContext) (path : Bytes) (m : Method) (d : HttpResponse.Decoded) :
    Prop :=
  Reads ((FilesystemFactory.resource env.fs path).map (FilesystemFactory.shown env)) m d

/-- A directory's service leaves the path of the request to be read, whatever host it is for. -/
theorem directory_left {frame : Bytes} {request : HttpRequest} {host : Host} (bld : Build)
    (env : ResourceContext) (htypes : env.PlainTypes) (call : Call Fn) (now : Moment)
    (h : ParsedFor bld frame request host) (virtualPath : Bytes) :
    ∃ gresponse, (serve now.garbage (Service.factory bld env.fs (Resource.run env call)
        (.directory virtualPath)) request).map defaultStatus = .ok gresponse ∧ gresponse.Plain ∧
      ReadsPath env (virtualPath ++ request.requestUri) request.method
        (Handler.oneOne.makeResponse (httptime now.timeptr) gresponse).decoded := by
  have hne := hostGiven_named request ((extractHost_given request).mp ⟨host, h.hosted⟩)
  have hserve := serve_directory bld env call virtualPath now.garbage _ hne
  have hknown : Status.httpOk.Known ∧ Status.httpNotFound.Known := by decide
  rw [directoryResponse, h.handler] at hserve
  cases hresource : FilesystemFactory.resource env.fs (virtualPath ++ request.requestUri) with
  | none =>
    simp only [hresource] at hserve
    refine ⟨_, hserve, ⟨hknown.2, fun e he => absurd he List.not_mem_nil⟩, ?_⟩
    rw [ReadsPath, hresource]
    exact ⟨rfl, rfl⟩
  | some r =>
    simp only [hresource] at hserve
    refine ⟨_, hserve, ⟨hknown.1, FilesystemResource.header_plain env htypes r⟩, ?_⟩
    rw [ReadsPath, hresource]
    refine ⟨rfl, rfl, ?_⟩
    intro value
    show _ ↔ value = r.lengthText env
    rw [read_contentLength, FilesystemResource.header_lengthText, Option.some.injEq]
    exact eq_comm

/-- Every request for a directory's website, whatever its method, is answered with a text in which
just what its path leads to can be read. -/
theorem siteAnswer_directory {frame : Bytes} {request : HttpRequest} {host : Host} (bld : Build)
    (websites : Websites (Service Fn)) (env : ResourceContext) (htypes : env.PlainTypes)
    (call : Call Fn) (now : Moment) (h : ParsedFor bld frame request host) (virtualPath : Bytes)
    (hservice : (host, .directory virtualPath) ∈ websites.entries) :
    ∃ text d, siteAnswer bld websites env call now frame = some text ∧
      HttpResponse.decode text = some d ∧
      ReadsPath env (virtualPath ++ request.requestUri) request.method d := by
  obtain ⟨gresponse, hserve, hplain, hreads⟩ :=
    directory_left bld env htypes call now h virtualPath
  obtain ⟨text, htext, hdecode⟩ := siteAnswer_reads bld websites env call now h _ hservice
    gresponse hserve hplain
  exact ⟨text, _, htext, hdecode, hreads⟩

/-- What is read in the response for a place of a website. -/
def ReadsPage (page : Option Page) (m : Method) (d : HttpResponse.Decoded) : Prop :=
  Reads (page.map fun page => (page.text, page.lengthText)) m d

/-- The path of every place of a directory is answered with what stands there in the tree. Called
directly the service answers for any host, and where the host is that of a website with this service
the answer is the one that a worker sends. -/
theorem executeText_page (bld : Build) (env : ResourceContext) (htypes : env.PlainTypes)
    (call : Call Fn) (now : Moment) (frame : Bytes) (request : HttpRequest) (host : Host)
    (hparsed : ParsedFor bld frame request host) (virtualPath : Bytes) (d : List Bytes)
    (site : FsNode) (hsite : FilesystemFactory.SiteAt env.fs virtualPath d site)
    (names : List Bytes) (hnames : ∀ name ∈ names, PlainName name)
    (hpath : request.requestUri = uriOf names) :
    ∃ text dec, executeText bld env call (.directory virtualPath) now frame = .ok text ∧
      HttpResponse.decode text = some dec ∧
      ReadsPage ((site.at? names).bind FsNode.page) request.method dec ∧
      ∀ websites, (host, .directory virtualPath) ∈ websites.entries →
        siteAnswer bld websites env call now frame = some text := by
  obtain ⟨gresponse, hserve, hplain, hreads⟩ :=
    directory_left bld env htypes call now hparsed virtualPath
  obtain ⟨response, text, hexecute, htext, hdecode⟩ :=
    executeIn_reads bld env call now hparsed _ gresponse hserve hplain
  refine ⟨text, _, ?_, hdecode, ?_, ?_⟩
  · simp only [executeText, hparsed.parsed, hexecute, htext]
  · rw [ReadsPage, ← hsite.resource_page names hnames, ← hpath]
    exact hreads
  · intro websites hservice
    exact siteAnswer_executed bld websites env call now hparsed _ hservice response text hexecute
      htext

def noCall : Call Nat := fun _ _ response => (response, none)

/-- The directory of the sample under the host `a`. -/
def directorySite : Websites (Service Nat) :=
  StdMap.empty.emplace (Host.atDefaultPort (lit "a")) (.directory (lit "/srv/www"))

theorem sampleContext_types : sampleContext.PlainTypes :=
  fun magic hmagic => by simp [sampleContext] at hmagic

def sampleMoment : Moment := ⟨sampleContext.localtime 0, .mGet, .httpUnknown, .httpUnknown⟩

theorem directorySite_mem :
    (Host.atDefaultPort (lit "a"), Service.directory (lit "/srv/www")) ∈ directorySite.entries := by
  rw [StdMap.mem_entries, directorySite, StdMap.find_emplace, if_pos rfl]
  rfl

/-- What is in the directory of the sample. -/
def sampleSite : FsNode := .directory [(lit "index.html", .regular (lit "hello") 0)]

theorem sampleSite_at? (loc : List Bytes) (node : FsNode) (h : sampleSite.at? loc = some node) :
    node = sampleSite ∨ node = .regular (lit "hello") 0 := by
  cases loc with
  | nil => exact Or.inl (Option.some.inj h).symm
  | cons name loc =>
    by_cases hname : name = lit "index.html"
    · cases loc with
      | nil =>
        exact Or.inr (by simpa [sampleSite, FsNode.at?, Assoc.find, hname, eq_comm] using h)
      | cons next loc => simp [sampleSite, FsNode.at?, Assoc.find, hname] at h
    · simp [sampleSite, FsNode.at?, Assoc.find, hname] at h

theorem sampleSite_proper : sampleSite.Proper where
  names := by
    intro loc entries hat
    rcases sampleSite_at? loc _ hat with hsite | hfile
    · obtain rfl := FsNode.directory.inj hsite
      exact ⟨by decide, by decide, by decide⟩
    · simp at hfile
  regular := by
    intro loc hat
    rcases sampleSite_at? loc _ hat with hsite | hfile
    · simp [sampleSite] at hsite
    · simp at hfile

def indexNames : List Bytes := [lit "index.html"]

/-- A request for a path with a `Host` header, and others after it. -/
def hostedFrame (method rest value : Bytes) (more : List (Bytes × Bytes)) : Bytes :=
  OneOne.requestHead method (slash :: rest) ((lit "Host", value) :: more)

def hostedRequest (method rest value : Bytes) (more : List (Bytes × Bytes)) : HttpRequest :=
  writtenRequest method (slash :: rest) ((lit "Host", value) :: more)

theorem hostedFrame_parsed (host : Host) (method rest value : Bytes) (more : List (Bytes × Bytes))
    (hname : HostName host.name) (hwritten : host.Written value) (hvalue : LF ∉ value)
    (hm : method ∈ METHODS) (hrest : ∀ c ∈ rest, isSpace c = false)
    (hmore : OneOne.WellFormed more) :
    ParsedFor plainBuild (hostedFrame method rest value more)
      (hostedRequest method rest value more) host := by
  have hhost : colon ∉ lit "Host" ∧ LF ∉ lit "Host" := by decide
  have hwell : OneOne.WellFormed ((lit "Host", value) :: more) :=
    List.forall_mem_cons.mpr ⟨⟨hhost.1, hhost.2, hvalue⟩, hmore⟩
  have hlines : LF ∉ rest ∧ CR ∉ rest :=
    ⟨OneOne.notMem_of_unspaced _ _ (by decide) hrest,
      OneOne.notMem_of_unspaced _ _ (by decide) hrest⟩
  have huri : ∀ c ∈ slash :: rest, isSpace c = false :=
    List.forall_mem_cons.mpr ⟨by decide, hrest⟩
  exact .written plainBuild plainBuild_apart method _ _ hm huri hwell host hname
    (writtenRequest_named host method rest value _ hlines rfl hwritten)

theorem hostedRequest_line (method rest value : Bytes) (more : List (Bytes × Bytes)) :
    (hostedRequest method rest value more).method = .cast (METHODS.findIdx (· = method)) ∧
      (hostedRequest method rest value more).requestUri = slash :: rest :=
  writtenRequest_line method (slash :: rest) _

def indexFrame : Bytes := hostedFrame (lit "GET") (lit "index.html") (lit "a") []

def indexRequest : HttpRequest := hostedRequest (lit "GET") (lit "index.html") (lit "a") []

theorem indexFrame_parsed :
    ParsedFor plainBuild indexFrame indexRequest (Host.atDefaultPort (lit "a")) :=
  hostedFrame_parsed _ _ _ _ _ (by decide) (Or.inr ⟨rfl, rfl⟩) (by decide)
    (by decide) (lit_forall _ (by decide)) (List.forall_mem_nil _)

/-- With a header that the parser has no list for. -/
theorem executeText_page_index :
    ∃ text dec, executeText plainBuild sampleContext noCall (.directory (lit "/srv/www"))
        sampleMoment (hostedFrame (lit "GET") (lit "index.html") (lit "a")
          [(lit "Cookie", lit "b")]) = .ok text ∧
      HttpResponse.decode text = some dec ∧
      ReadsPage ((sampleSite.at? indexNames).bind FsNode.page) .mGet dec ∧
      ∀ websites,
        (Host.atDefaultPort (lit "a"), .directory (lit "/srv/www")) ∈ websites.entries →
          siteAnswer plainBuild websites sampleContext noCall sampleMoment
            (hostedFrame (lit "GET") (lit "index.html") (lit "a") [(lit "Cookie", lit "b")]) =
              some text := by
  have hparsed := hostedFrame_parsed (Host.atDefaultPort (lit "a")) (lit "GET") (lit "index.html")
    (lit "a") [(lit "Cookie", lit "b")] (by decide) (Or.inr ⟨rfl, rfl⟩)
    (by decide) (by decide) (lit_forall _ (by decide)) (by decide)
  obtain ⟨hmethod, huri⟩ := hostedRequest_line (lit "GET") (lit "index.html") (lit "a")
    [(lit "Cookie", lit "b")]
  have hget : Method.cast (METHODS.findIdx (· = lit "GET")) = .mGet := by decide
  have hnames : ∀ name ∈ indexNames, PlainName name :=
    List.forall_mem_singleton.mpr ⟨by decide, by decide, by decide⟩
  have hpage := executeText_page plainBuild sampleContext sampleContext_types noCall sampleMoment
    _ _ _ hparsed (lit "/srv/www") [lit "srv", lit "www"] sampleSite
    ⟨by decide, by decide, rfl, rfl, sampleSite_proper⟩ indexNames hnames huri
  rwa [hmethod, hget] at hpage

/-- What is read in the response for a path of a REST service's website: 404 where no route serves
it, and otherwise what the handler of the route has left. -/
def ReadsRoute (calls : List (RouteCall Fn)) (left : Fn → ParamMap → GenericResponse)
    (path : Bytes) (m : Method) (d : HttpResponse.Decoded) : Prop :=
  match RestService.tableHandler calls m path with
  | none => d.statusCode = 404 ∧ d.messageBody = []
  | some (fn, params) => d.statusCode = (defaultStatus (left fn params)).statusCode.val ∧
      d.messageBody = (left fn params).messageBody

/-- What the function of a route leaves of the response to a request for a path. -/
def left (call : Call Fn) (now : Moment) (request : HttpRequest) (fn : Fn) (params : ParamMap) :
    GenericResponse × Option Thrown :=
  call fn ⟨request.toGeneric, params⟩ (.fresh now.garbage)

/-- The function that the routes select returns, and what it leaves can be sent. -/
def LeavesPlain (call : Call Fn) (now : Moment) (request : HttpRequest)
    (calls : List (RouteCall Fn)) : Prop :=
  ∀ fn params,
    RestService.tableHandler calls request.method request.requestUri = some (fn, params) →
      ∃ gresponse, left call now request fn params = (gresponse, none) ∧
        (defaultStatus gresponse).Plain

/-- Every request for a path of a REST service's website is answered with a text in which the
response of the handler that the routes select can be read. -/
theorem siteAnswer_route {frame : Bytes} {request : HttpRequest} {host : Host} (bld : Build)
    (websites : Websites (Service Fn)) (env : ResourceContext) (call : Call Fn) (now : Moment)
    (h : ParsedFor bld frame request host) (hlead : request.requestUri.head? = some slash)
    (calls : List (RouteCall Fn)) (hservice : (host, .rest calls) ∈ websites.entries)
    (hunrepeated : RestService.Unrepeated bld calls request.requestUri)
    (hleft : LeavesPlain call now request calls) :
    ∃ text d, siteAnswer bld websites env call now frame = some text ∧
      HttpResponse.decode text = some d ∧
      ReadsRoute calls (fun fn params => (left call now request fn params).1) request.requestUri
        request.method d := by
  have hcreate := RestService.createHandle_handler bld calls request.toGeneric hlead
  have hgeneric : request.toGeneric.requestUri = request.requestUri ∧
      request.toGeneric.method = request.method := ⟨rfl, rfl⟩
  rw [hgeneric.1, hgeneric.2, if_pos hunrepeated] at hcreate
  cases hresource : ExternalFactory.createHandle (RestService.createResource bld
      (Router.addRoutes calls).1) request.toGeneric with
  | error e => simp [hresource, Except.map] at hcreate
  | ok r =>
    rw [hresource] at hcreate
    have hselected : r.handler =
        RestService.tableHandler calls request.method request.requestUri :=
      Except.ok.inj hcreate
    have hforward : ∀ gresponse, r.execute call request.toGeneric (.fresh now.garbage) =
        (gresponse, none) →
          (serve now.garbage (Service.factory bld env.fs (Resource.run env call) (.rest calls))
            request).map defaultStatus = .ok (defaultStatus gresponse) := by
      intro gresponse hrun
      simp [serve, h.handler, forward, callCreateHandle, Service.factory,
        Service.createHandle, hresource, Except.map, Resource.run, hrun]
    cases hfn : r.fn with
    | none =>
      have hnone : RestService.tableHandler calls request.method request.requestUri = none := by
        rw [← hselected, RestResource.handler, hfn]
        rfl
      have hset : Status.httpNotFound ≠ .httpUnknown ∧ Status.httpNotFound.Known := by decide
      have hserve := hforward _ (by rw [RestResource.execute, hfn])
      rw [defaultStatus, if_neg hset.1] at hserve
      obtain ⟨text, htext, hdecode⟩ := siteAnswer_reads bld websites env call now h _ hservice
        _ hserve ⟨hset.2, fun e he => absurd he List.not_mem_nil⟩
      refine ⟨text, _, htext, hdecode, ?_⟩
      rw [ReadsRoute, hnone]
      exact ⟨rfl, rfl⟩
    | some fn =>
      have hsome : RestService.tableHandler calls request.method request.requestUri =
          some (fn, r.params) := by
        rw [← hselected, RestResource.handler, hfn]
        rfl
      obtain ⟨gresponse, hcall, hplain⟩ := hleft fn r.params hsome
      have hserve := hforward gresponse (by rw [RestResource.execute, hfn]; exact hcall)
      obtain ⟨text, htext, hdecode⟩ := siteAnswer_reads bld websites env call now h _ hservice
        _ hserve hplain
      refine ⟨text, _, htext, hdecode, ?_⟩
      rw [ReadsRoute, hsome]
      simp only [hcall]
      refine ⟨rfl, ?_⟩
      show (defaultStatus gresponse).messageBody = gresponse.messageBody
      rw [defaultStatus]
      split_ifs <;> rfl

end HttpWorker

end HttpCpp
