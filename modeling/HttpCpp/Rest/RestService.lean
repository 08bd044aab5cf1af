import HttpCpp.Rest.Dispatch
import HttpCpp.Service.Host

namespace HttpCpp

structure RestResource (Fn : Type) where
  requestUri : Bytes
  fn : StdFunction Fn
  params : ParamMap
  deriving DecidableEq

/-- `http_external_resource_factory::create_handle` over the `create_resource` of its service. -/
def ExternalFactory.createHandle {Resource : Type}
    (createResource : GenericRequest → Except Fault Resource) (request : GenericRequest) :
    Except Fault Resource :=
  noexcept (createResource request)

namespace RestService

variable {Fn : Type}

/-- `rest_service::create_resource`. -/
def createResource (bld : Build) (router : Router Fn) (request : GenericRequest) :
    Except Fault (RestResource Fn) := do
  let r ← router.getDispatch bld request.method request.requestUri .empty
  return ⟨request.requestUri, r.1, r.2⟩

end RestService

namespace RestService

open HttpService

variable {Fn : Type}

/-- Among the requests whose host can be extracted, those of the absolute path form get through
the REST factory, all others end the process. -/
theorem createHandle_survives_iff (bld : Build) (calls : List (RouteCall Fn))
    (request : HttpRequest) (h : Host) (haccept : extractHost request = .ok h) :
    ExternalFactory.createHandle (createResource bld (Router.addRoutes calls).1)
        request.toGeneric ≠ .error .terminate ↔ AbsolutePath request.requestUri := by
  rw [← extractHost_leading request h haccept]
  have huri : request.toGeneric.requestUri = request.requestUri := rfl
  by_cases hlead : request.requestUri.head? = some slash
  · simp only [hlead, iff_true, ExternalFactory.createHandle, createResource, huri,
      Router.getDispatch_eq bld calls _ _ hlead]
    split_ifs with hbound
    · simp [bind, Except.bind, pure, Except.pure, noexcept]
    · simp [bind, Except.bind, noexcept, Fault.isException]
  · simp [hlead, ExternalFactory.createHandle, createResource, huri, Router.getDispatch,
      leadingSlash, bind, Except.bind, noexcept, Fault.isException]

theorem createHandle_survives_message :
    ExternalFactory.createHandle (createResource plainBuild
        (Router.addRoutes [⟨.mGet, lit "/message/:id", some 0⟩]).1)
      (HttpRequest.toGeneric { HttpRequest.fresh .mGet with
        requestUri := lit "/message/7?raw"
        requestHeader := StdMap.empty.emplace (lit "Host") (lit "localhost") }) ≠
      .error .terminate :=
  (createHandle_survives_iff plainBuild _ { HttpRequest.fresh .mGet with
    requestUri := lit "/message/7?raw"
    requestHeader := StdMap.empty.emplace (lit "Host") (lit "localhost") } ⟨lit "localhost", 80⟩
    (by decide)).mpr (by decide)

/-- An absolute URI passes the host extraction and ends the process in the REST factory. -/
theorem absolute_uri_terminates :
    extractHost { HttpRequest.fresh .mGet with requestUri := lit "http://h/" } = .ok ⟨lit "h", 80⟩ ∧
      ExternalFactory.createHandle (createResource plainBuild
          (Router.addRoutes [⟨.mGet, lit "/a", some 0⟩]).1)
        (HttpRequest.toGeneric { HttpRequest.fresh .mGet with requestUri := lit "http://h/" }) =
        .error .terminate := by
  decide

end RestService

end HttpCpp
