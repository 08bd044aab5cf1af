import HttpCpp.Filesystem.Disclosure
import HttpCpp.Server.SiteRuns

namespace HttpCpp

namespace HttpService

variable {Fn : Type} {env env' : ResourceContext} {virtualPath : Bytes} {d : List Bytes}

open FilesystemFactory

/-- A path that keeps to the website is served alike in both contexts. -/
theorem executeIn_same (h : env.SameFor env' virtualPath d) (bld : Build) (call : Call Fn)
    (date : Bytes) (garbage : Status) (request : HttpRequest)
    (hlead : request.requestUri.head? = some slash)
    (hkeeps : KeepsInside d virtualPath request.requestUri) :
    executeIn bld env call (.directory virtualPath) date garbage request =
      executeIn bld env' call (.directory virtualPath) date garbage request := by
  have hpath := samePaths_uri h request.requestUri hlead hkeeps
  have hresource := resource_same h _ hpath
  have hresponse : directoryResponse env virtualPath request =
      directoryResponse env' virtualPath request := by
    simp only [directoryResponse, ← hresource]
    cases Handler.getHandler request.httpVersion with
    | none => rfl
    | some handler =>
      cases hr : resource env.fs (virtualPath ++ request.requestUri) with
      | none => rfl
      | some r =>
        obtain ⟨hcontent, hheader⟩ := resource_same_content h _ hpath r hr
        simp only [hcontent, hheader]
  by_cases hgiven : HostGiven request
  · have hexecute := (executeIn_directory bld env call virtualPath date garbage request _).mpr
      ⟨hgiven, rfl⟩
    have hexecute' := (executeIn_directory bld env' call virtualPath date garbage request _).mpr
      ⟨hgiven, rfl⟩
    rw [hexecute, hexecute', hresponse]
  · cases hhost : extractHost request with
    | error e => simp only [executeIn, execute, hhost]
    | ok host => exact absurd ((extractHost_given request).mp ⟨host, hhost⟩) hgiven

/-- A library is asked without a look at the tree. -/
theorem executeIn_rest (bld : Build) (env env' : ResourceContext) (call : Call Fn)
    (calls : List (RouteCall Fn)) (date : Bytes) (garbage : Status) (request : HttpRequest) :
    executeIn bld env call (.rest calls) date garbage request =
      executeIn bld env' call (.rest calls) date garbage request := by
  have hcreate : ∀ grequest,
      (Service.factory bld env.fs (Resource.run env call) (.rest calls)).createHandle grequest =
        (Service.factory bld env'.fs (Resource.run env' call) (.rest calls)).createHandle
          grequest := by
    intro grequest
    simp only [Service.factory, Service.createHandle]
    generalize ExternalFactory.createHandle (RestService.createResource bld
      (Router.addRoutes calls).1) grequest = created
    cases created with
    | error e => simp only [Except.map]
    | ok r => simp only [Except.map, Option.map_some, Resource.run]
  have hfactory : Service.factory bld env.fs (Resource.run env call) (.rest calls) =
      Service.factory bld env'.fs (Resource.run env' call) (.rest calls) :=
    congrArg HttpResourceFactory.mk (funext hcreate)
  rw [executeIn, hfactory, executeIn]

end HttpService

namespace HttpWorker

open HttpService FilesystemFactory

variable {Fn : Type}

/-- If the bytes are a request for a directory's website, it is one for a path that keeps to the
website, and the contexts have the website in common. -/
def Confined (bld : Build) (websites : Websites (Service Fn)) (env env' : ResourceContext)
    (frame : Bytes) : Prop :=
  ∀ request host virtualPath, ParsedFor bld frame request host →
    (host, .directory virtualPath) ∈ websites.entries →
      request.requestUri.head? = some slash ∧
        ∃ d, env.SameFor env' virtualPath d ∧ KeepsInside d virtualPath request.requestUri

/-- The answer to such bytes says nothing of what lies beside the website. -/
theorem siteAnswer_confined (bld : Build) (websites : Websites (Service Fn))
    (env env' : ResourceContext) (call : Call Fn) (now : Moment) (frame : Bytes)
    (h : Confined bld websites env env' frame) :
    siteAnswer bld websites env call now frame = siteAnswer bld websites env' call now frame := by
  have hprocess : process bld now.garbageMethod websites
        (surroundings bld env call now).execute frame =
      process bld now.garbageMethod websites (surroundings bld env' call now).execute frame := by
    simp only [process]
    cases hparse : parseRequest bld now.garbageMethod frame with
    | error e => rfl
    | ok request =>
      cases hfind : findWebsite websites request with
      | error e => simp only [hfind]
      | ok website =>
        obtain ⟨hmem, hhost⟩ := findWebsite_found websites request website hfind
        obtain ⟨host, service⟩ := website
        simp only [hfind, surroundings]
        cases service with
        | rest calls => exact executeIn_rest bld env env' call calls _ _ request
        | directory virtualPath =>
          obtain ⟨hlead, d, hsame, hkeeps⟩ :=
            h request host virtualPath (.of_parsed _ hparse hhost) hmem
          exact executeIn_same hsame bld call _ _ request hlead hkeeps
  simp only [surroundings] at hprocess
  simp only [siteAnswer, answer, surroundings, hprocess]

end HttpWorker

namespace Process

open HttpService HttpWorker FilesystemFactory

variable {Fn : Type}

section Sample

/-- The sample, with a directory in the place of the file beside the website. -/
def besideContext : ResourceContext where
  fs :=
    { root := .directory [(lit "srv", .directory [(lit "public", .directory []),
        (lit "www", .directory [(lit "index.html", .regular (lit "hello") 0)])])]
      cwd := []
      cwdDirectory := rfl }
  special := sampleContext.special
  localtime := sampleContext.localtime
  magicFile := sampleContext.magicFile

theorem sampleContext_at? :
    sampleContext.fs.root.at? [lit "srv", lit "www"] = some sampleSite := rfl

theorem besideContext_at? :
    besideContext.fs.root.at? [lit "srv", lit "www"] = some sampleSite := rfl

theorem besideContext_same : sampleContext.SameFor besideContext (lit "/srv/www")
    [lit "srv", lit "www"] where
  resolve := by decide
  resolve' := by decide
  below := ⟨sampleContext_at?.trans besideContext_at?.symm, by rw [sampleContext_at?]; rfl⟩
  localtime := rfl
  special := fun _ _ _ _ _ => rfl
  types := fun _ _ _ _ _ => rfl
  proper := by
    rintro loc entries ⟨rest, rfl⟩ hat
    rw [FsNode.at?_append, sampleContext_at?, Option.bind_some] at hat
    exact sampleSite_proper.names rest entries hat

theorem indexFrame_confined :
    Confined plainBuild directorySite sampleContext besideContext indexFrame := by
  intro request host virtualPath hparsed hmem
  obtain rfl := Except.ok.inj ((hparsed.parsed .mGet).symm.trans (indexFrame_parsed.parsed .mGet))
  rw [StdMap.mem_entries, directorySite, StdMap.find_emplace] at hmem
  split_ifs at hmem
  · obtain rfl := Service.directory.inj (Option.some.inj hmem).symm
    exact ⟨rfl, [lit "srv", lit "www"], besideContext_same, by decide⟩
  · simp at hmem

/-- A path that comes back from beside the website finds out what is there. -/
example : siteAnswer plainBuild directorySite sampleContext noCall sampleMoment
      (OneOne.requestHead (lit "GET") (lit "/../public/../www/") [(lit "Host", lit "a")]) ≠
    siteAnswer plainBuild directorySite besideContext noCall sampleMoment
      (OneOne.requestHead (lit "GET") (lit "/../public/../www/") [(lit "Host", lit "a")]) := by
  decide

end Sample

end Process

end HttpCpp
