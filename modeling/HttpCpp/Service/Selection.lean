import HttpCpp.Filesystem.Place
import HttpCpp.Rest.RouteSelection
import HttpCpp.Service.Execute
import HttpCpp.Service.HostForms

namespace HttpCpp

variable {Fn : Type}

/-- A website's service: a directory, or the REST service over the routes that calls register. -/
inductive Service (Fn : Type) where
  | directory (virtualPath : Bytes)
  | rest (calls : List (RouteCall Fn))

inductive Resource (Fn : Type) where
  | filesystem (r : FilesystemResource)
  | rest (r : RestResource Fn)
  deriving DecidableEq

/-- A file or directory by its place, or a handler with its parameters. -/
inductive Selected (Fn : Type) where
  | place (s : Served)
  | handler (fn : Fn) (params : ParamMap)

def Resource.selected (fs : Snapshot) : Resource Fn → Option (Selected Fn)
  | .filesystem r => some (.place (r.served fs))
  | .rest r => r.handler.map fun h => .handler h.1 h.2

namespace Service

/-- The `create_handle` of the service's factory. -/
def createHandle (bld : Build) (fs : Snapshot) (grequest : GenericRequest) :
    Service Fn → Except Fault (Option (Resource Fn))
  | .directory virtualPath =>
    (FilesystemFactory.createHandle bld fs virtualPath grequest).map fun r => r.map .filesystem
  | .rest calls =>
    (ExternalFactory.createHandle (RestService.createResource bld (Router.addRoutes calls).1)
      grequest).map fun r => some (.rest r)

/-- The factory over resources that run somehow. -/
def factory (bld : Build) (fs : Snapshot) (run : Resource Fn → HttpResource)
    (service : Service Fn) : HttpResourceFactory where
  createHandle grequest :=
    match service.createHandle bld fs grequest with
    | .error e => .error (.fault e)
    | .ok resource => .ok (resource.map run)

theorem createHandle_fault (bld : Build) (fs : Snapshot) (grequest : GenericRequest)
    (service : Service Fn) (e : Fault) (h : service.createHandle bld fs grequest = .error e) :
    (Failure.fault e).exception = none := by
  have hnone : e.isException = false := by
    cases service with
    | directory virtualPath => exact noexcept_error _ _ e h
    | rest calls => exact noexcept_error _ _ e h
  cases e <;> simp_all [Failure.exception, Fault.isException]

/-- What the service's factory finds for a request. -/
def selected (bld : Build) (fs : Snapshot) (service : Service Fn) (grequest : GenericRequest) :
    Except Fault (Option (Selected Fn)) :=
  (service.createHandle bld fs grequest).map (·.bind (Resource.selected fs))

/-- The factory reads the method and the Request-URI only. -/
theorem selected_congr (bld : Build) (fs : Snapshot) (service : Service Fn)
    (grequest grequest' : GenericRequest) (hmethod : grequest.method = grequest'.method)
    (huri : grequest.requestUri = grequest'.requestUri) :
    service.selected bld fs grequest = service.selected bld fs grequest' := by
  cases service <;> simp only [selected, createHandle, FilesystemFactory.createHandle,
    ExternalFactory.createHandle, RestService.createResource, hmethod, huri]

theorem selected_directory (bld : Build) (fs : Snapshot) (virtualPath : Bytes)
    (grequest : GenericRequest) (h : grequest.requestUri ≠ []) :
    selected bld fs (.directory virtualPath : Service Fn) grequest =
      .ok (((FilesystemFactory.resource fs (virtualPath ++ grequest.requestUri)).map
        (FilesystemResource.served fs)).map .place) := by
  have hne : virtualPath ++ grequest.requestUri ≠ [] := List.append_ne_nil_of_right_ne_nil _ h
  rw [selected, createHandle, FilesystemFactory.createHandle_eq bld fs virtualPath grequest hne]
  cases FilesystemFactory.resource fs (virtualPath ++ grequest.requestUri) <;> rfl

theorem selected_rest (bld : Build) (fs : Snapshot) (calls : List (RouteCall Fn))
    (grequest : GenericRequest) :
    selected bld fs (.rest calls) grequest =
      ((ExternalFactory.createHandle (RestService.createResource bld (Router.addRoutes calls).1)
        grequest).map RestResource.handler).map (·.map fun h => .handler h.1 h.2) := by
  rw [selected, createHandle]
  cases ExternalFactory.createHandle (RestService.createResource bld (Router.addRoutes calls).1)
    grequest <;> rfl

theorem place_injective : Function.Injective (Selected.place : Served → Selected Fn) := by
  intro a b h
  exact Selected.place.inj h

/-- Naming what is found forgets nothing. -/
theorem handler_injective : Function.Injective
    (Except.map (ε := Fault) (Option.map fun h : Fn × ParamMap => Selected.handler h.1 h.2)) := by
  have hpair : Function.Injective fun h : Fn × ParamMap => Selected.handler h.1 h.2 := by
    intro a b h
    exact Prod.ext (Selected.handler.inj h).1 (Selected.handler.inj h).2
  intro a b h
  cases a with
  | error e => cases b <;> simp_all [Except.map]
  | ok a =>
    cases b with
    | error e => simp [Except.map] at h
    | ok b => rw [Option.map_injective hpair (Except.ok.inj h)]

end Service

namespace HttpService

/-- The resource `execute` gets for a request; none for a version without a handler. -/
def select (bld : Build) (fs : Snapshot) (service : Service Fn) (request : HttpRequest) :
    Except Fault (Option (Resource Fn)) :=
  match extractHost request with
  | .error e => .error e
  | .ok _ =>
    match Handler.getHandler request.httpVersion with
    | none => .ok none
    | some _ => service.createHandle bld fs request.toGeneric

/-- What `execute` does with the resource that is selected. -/
def executeSelected (date : Bytes) (garbage : Status) (run : Resource Fn → HttpResource)
    (request : HttpRequest) : Except Fault (Option (Resource Fn)) → Except Failure HttpResponse
  | .error e => .error (.fault e)
  | .ok resource =>
    (serve garbage ⟨fun _ => .ok (resource.map run)⟩ request).map fun gresponse =>
      respond date garbage request (defaultStatus gresponse)

/-- `execute` takes nothing but the selected resource from the service. -/
theorem execute_select (date : Bytes) (garbage : Status) (bld : Build) (fs : Snapshot)
    (run : Resource Fn → HttpResource) (service : Service Fn) (request : HttpRequest) :
    execute date garbage (service.factory bld fs run) request =
      executeSelected date garbage run request (select bld fs service request) := by
  simp only [execute, select]
  cases hhost : extractHost request with
  | error e => rfl
  | ok host =>
    cases hhandler : Handler.getHandler request.httpVersion with
    | none => simp [executeSelected, serve, hhandler, Except.map]
    | some handler =>
      cases hcreate : service.createHandle bld fs request.toGeneric with
      | error e =>
        have hexception := service.createHandle_fault bld fs request.toGeneric e hcreate
        simp [executeSelected, serve, hhandler, forward, callCreateHandle, Service.factory, hcreate,
          hexception]
      | ok resource =>
        have hserve := serve_congr garbage (service.factory bld fs run)
          ⟨fun _ => .ok (resource.map run)⟩ request (by simp [Service.factory, hcreate])
        simp only [executeSelected, hserve]
        cases serve garbage ⟨fun _ => .ok (resource.map run)⟩ request with
        | error e => simp [Except.map]
        | ok gresponse => simp [Except.map]

/-- The same file or directory, the same handler with the same parameters, or none. -/
def SameSelection (bld : Build) (fs : Snapshot) (service : Service Fn)
    (request request' : HttpRequest) : Prop :=
  (select bld fs service request).map (·.bind (Resource.selected fs)) =
    (select bld fs service request').map (·.bind (Resource.selected fs))

/-- The request for the path alone, with a `Host` header for the same host. -/
structure PlainFor (path : Bytes) (h : Host) (request plain : HttpRequest) : Prop where
  method : plain.method = request.method
  requestUri : plain.requestUri = path
  httpVersion : plain.httpVersion = request.httpVersion
  host : extractHost plain = .ok h

/-- The request for the path alone, with the host written out. -/
def plainRequest (request : HttpRequest) (path : Bytes) (h : Host) : HttpRequest :=
  { request with
    requestUri := path
    requestHeader := request.requestHeader.assign (lit "Host") h.text }

theorem plainRequest_for (request : HttpRequest) (h : Host) (path query : Bytes)
    (hhost : extractHost request = .ok h)
    (hparts : uriParts request.requestUri = some (path, query))
    (hlead : path.head? = some slash) : PlainFor path h request (plainRequest request path h) := by
  obtain ⟨hquestion, -, -⟩ := uriParts_cases request.requestUri path query hparts
  obtain ⟨rest, rfl⟩ := List.head?_eq_some_iff.mp hlead
  have hpath : AbsolutePath (slash :: rest) := by
    rw [absolutePath_iff, PlainQuery, onward_uncut question _ hquestion]
    exact ⟨rfl, List.not_mem_nil, List.not_mem_nil⟩
  have hread := authority_written h (extractHost_name request h hhost) h.text [] (Or.inl rfl)
    (Or.inl rfl)
  rw [List.append_nil] at hread
  obtain ⟨hne, htail, hwritten⟩ := hread
  have hvalue : (plainRequest request (slash :: rest) h).requestHeader.find (lit "Host") =
      some h.text := StdMap.find_assign _ _ _
  refine ⟨rfl, rfl, rfl, ?_⟩
  have hplain := extractHost_path (plainRequest request (slash :: rest) h) h.text hpath hvalue
  rw [hplain, if_pos ⟨hne, htail⟩, hwritten]

/-- The service finds the same with the whole Request-URI as with its path. -/
def FindsSame (bld : Build) (fs : Snapshot) (m : Method) (uri path : Bytes) : Service Fn → Prop
  | .directory virtualPath =>
    FilesystemFactory.SamePlace fs (virtualPath ++ uri) (virtualPath ++ path)
  | .rest calls => AbsolutePath uri ∧
    ([slash, slash] <:+: path ∨ RestService.RoutedAlike bld calls m uri path)

/-- Nothing but the path of a request counts for its resource. -/
def PathDecides (bld : Build) (fs : Snapshot) (service : Service Fn) (request : HttpRequest)
    (path : Bytes) : Prop :=
  Handler.getHandler request.httpVersion = none ∨ request.requestUri = path ∨
    FindsSame bld fs request.method request.requestUri path service

/-- What is selected for a version with a handler. -/
theorem select_handled (bld : Build) (fs : Snapshot) (service : Service Fn) (request : HttpRequest)
    (h : Host) (handler : Handler) (hhost : extractHost request = .ok h)
    (hhandler : Handler.getHandler request.httpVersion = some handler) :
    (select bld fs service request).map (·.bind (Resource.selected fs)) =
      service.selected bld fs request.toGeneric := by
  simp only [select, hhost, hhandler, Service.selected]

theorem selected_same_directory (bld : Build) (fs : Snapshot) (virtualPath : Bytes)
    (request plain : GenericRequest) (hne : request.requestUri ≠ [])
    (hne' : plain.requestUri ≠ []) :
    Service.selected bld fs (.directory virtualPath : Service Fn) request =
        Service.selected bld fs (.directory virtualPath) plain ↔
      FilesystemFactory.SamePlace fs (virtualPath ++ request.requestUri)
        (virtualPath ++ plain.requestUri) := by
  rw [Service.selected_directory bld fs virtualPath request hne,
    Service.selected_directory bld fs virtualPath plain hne', Except.ok.injEq,
    (Option.map_injective Service.place_injective).eq_iff, FilesystemFactory.resource_same_iff]

/-- The routes give a whole Request-URI and its path the same when it is absolute and they do for
its segments, which a doubled slash in the path cuts short alike. -/
theorem selected_same_rest (bld : Build) (fs : Snapshot) (calls : List (RouteCall Fn))
    (request plain : GenericRequest) (query : Bytes)
    (hparts : uriParts request.requestUri = some (plain.requestUri, query))
    (hlead : plain.requestUri.head? = some slash) (hmethod : plain.method = request.method) :
    Service.selected bld fs (.rest calls) request =
        Service.selected bld fs (.rest calls) plain ↔
      AbsolutePath request.requestUri ∧ ([slash, slash] <:+: plain.requestUri ∨
        RestService.RoutedAlike bld calls request.method request.requestUri plain.requestUri) := by
  obtain ⟨-, -, hform⟩ := uriParts_cases request.requestUri plain.requestUri query hparts
  rw [Service.selected_rest, Service.selected_rest, Service.handler_injective.eq_iff]
  by_cases hpath : AbsolutePath request.requestUri
  · rw [RestService.createHandle_alike_iff bld calls request plain hmethod
      (absolutePath_leading _ hpath) hlead]
    constructor
    · intro h
      exact ⟨hpath, Or.inr h⟩
    · intro h
      obtain ⟨-, hslashes | h⟩ := h
      · rcases hform with hunled | ⟨-, tail, htail⟩
        · exact absurd (absolutePath_leading _ hpath) hunled
        · rw [htail]
          exact RestService.routedAlike_doubleSlash bld calls _ _ tail hslashes
      · exact h
  · refine iff_of_false ?_ (fun h => hpath h.1)
    rcases hform with hunled | ⟨hpath', -⟩
    · exact RestService.createHandle_unled bld calls request plain hunled hlead
    · exact absurd hpath' hpath

/-- The factory finds the same for two requests when the service does for their strings. -/
theorem selected_same_iff (bld : Build) (fs : Snapshot) (service : Service Fn)
    (request plain : HttpRequest) (path query : Bytes)
    (hparts : uriParts request.requestUri = some (path, query)) (hlead : path.head? = some slash)
    (hmethod : plain.method = request.method) (huri : plain.requestUri = path) :
    service.selected bld fs request.toGeneric = service.selected bld fs plain.toGeneric ↔
      FindsSame bld fs request.method request.requestUri path service := by
  subst huri
  obtain ⟨-, hne, -⟩ := uriParts_cases request.requestUri plain.requestUri query hparts
  have hne' : plain.requestUri ≠ [] := by
    intro hempty
    simp [hempty] at hlead
  cases service with
  | directory virtualPath =>
    exact selected_same_directory bld fs virtualPath request.toGeneric plain.toGeneric hne hne'
  | rest calls =>
    exact selected_same_rest bld fs calls request.toGeneric plain.toGeneric query hparts hlead
      hmethod

/-- A request is given the resource of its path alone exactly when its Request-URI is that path or
the service finds the same with the whole Request-URI. -/
theorem sameSelection_path_iff (bld : Build) (fs : Snapshot) (service : Service Fn)
    (request plain : HttpRequest) (h : Host) (path query : Bytes)
    (hhost : extractHost request = .ok h)
    (hparts : uriParts request.requestUri = some (path, query))
    (hlead : path.head? = some slash) (hplain : PlainFor path h request plain) :
    SameSelection bld fs service request plain ↔ PathDecides bld fs service request path := by
  cases hhandler : Handler.getHandler request.httpVersion with
  | none =>
    refine iff_of_true ?_ (Or.inl hhandler)
    simp only [SameSelection, select, hhost, hplain.host, hplain.httpVersion, hhandler]
  | some handler =>
    have hsame := selected_same_iff bld fs service request plain path query hparts hlead
      hplain.method hplain.requestUri
    rw [SameSelection, select_handled bld fs service request h handler hhost hhandler,
      select_handled bld fs service plain h handler hplain.host (hplain.httpVersion ▸ hhandler),
      hsame, PathDecides, hhandler]
    constructor
    · intro hfinds
      exact Or.inr (Or.inr hfinds)
    · intro hdecides
      rcases hdecides with hnone | huri | hfinds
      · contradiction
      · rw [← hsame]
        exact service.selected_congr bld fs _ _ hplain.method.symm
          (huri.trans hplain.requestUri.symm)
      · exact hfinds

/-- A request for a Request-URI on host `a`. -/
def sampleRequest (uri : Bytes) : HttpRequest :=
  { HttpRequest.fresh .mGet with
    requestUri := uri
    httpVersion := lit "HTTP/1.1"
    requestHeader := StdMap.empty.emplace (lit "Host") (lit "a") }

theorem sameSelection_path_slashes :
    SameSelection plainBuild FilesystemFactory.sampleSnapshot
      (.rest [⟨.mGet, lit "/a", some 0⟩]) (sampleRequest (lit "/a//?x"))
      (plainRequest (sampleRequest (lit "/a//?x")) (lit "/a//") ⟨lit "a", 80⟩) := by
  have hhost : extractHost (sampleRequest (lit "/a//?x")) = .ok ⟨lit "a", 80⟩ := by decide
  have hparts : uriParts (lit "/a//?x") = some (lit "/a//", lit "x") := by decide
  have hlead : (lit "/a//").head? = some slash := by decide
  apply (sameSelection_path_iff plainBuild FilesystemFactory.sampleSnapshot
    (.rest [⟨.mGet, lit "/a", some 0⟩]) _ _ ⟨lit "a", 80⟩ _ (lit "x") hhost hparts hlead
    (plainRequest_for _ _ _ (lit "x") hhost hparts hlead)).mpr
  exact Or.inr (Or.inr ⟨by decide, Or.inl ⟨lit "/a", [], by decide⟩⟩)

/-- With a query the file of the path is not found. -/
theorem query_hides_file :
    extractHost (sampleRequest (lit "/index.html?x")) = .ok ⟨lit "a", 80⟩ ∧
      uriParts (lit "/index.html?x") = some (lit "/index.html", lit "x") ∧
      ¬SameSelection plainBuild FilesystemFactory.sampleSnapshot
        (.directory (lit "/srv/www") : Service Nat) (sampleRequest (lit "/index.html?x"))
        (plainRequest (sampleRequest (lit "/index.html?x")) (lit "/index.html")
          ⟨lit "a", 80⟩) := by
  refine ⟨by decide, by decide, ?_⟩
  have hquery : select plainBuild FilesystemFactory.sampleSnapshot
      (.directory (lit "/srv/www") : Service Nat) (sampleRequest (lit "/index.html?x")) =
      .ok none := by
    decide
  have hfile : select plainBuild FilesystemFactory.sampleSnapshot
      (.directory (lit "/srv/www") : Service Nat)
      (plainRequest (sampleRequest (lit "/index.html?x")) (lit "/index.html") ⟨lit "a", 80⟩) =
      .ok (some (.filesystem (.file (lit "/srv/www/index.html")))) := by
    decide
  intro h
  rw [SameSelection, hquery, hfile] at h
  simp [Except.map, Resource.selected] at h

end HttpService
end HttpCpp
