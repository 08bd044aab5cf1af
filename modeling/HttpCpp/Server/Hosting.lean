import HttpCpp.Server.Connect
import HttpCpp.Server.SiteRuns

namespace HttpCpp

namespace HttpServer

open HttpService HttpWorker

/-- The call returned and a website was added for the host. -/
def Made.Opened (made : Made) (host : Host) (website : HttpWebsite) : Prop :=
  made.out.2 = .ok () ∧ made.call.host = host ∧ made.out.1.websites.find host = some website

def Made.returned (made : Made) : Bool := made.out.2 = .ok ()

/-- What the calls of a list leave: the websites of those that returned, and the ports they bound,
the last one first. -/
structure Opens (s : Endpoints) (made : List Made) (s' : Endpoints) : Prop where
  websites : ∀ host website, s'.websites.find host = some website ↔
    s.websites.find host = some website ∨ ∃ m ∈ made, m.Opened host website
  bound : s'.bound = ((made.filter Made.returned).map (·.call.port)).reverse ++ s.bound
  hosts : ((made.filter Made.returned).map (·.call.host)).Nodup
  fresh : ∀ m ∈ made, m.out.2 = .ok () → s.websites.find m.call.host = none

theorem opens_nil (s : Endpoints) : Opens s [] s :=
  ⟨by simp, by simp, by simp, by simp⟩

/-- A call that returned, and what the others leave after it. -/
theorem Opens.returned {s s' : Endpoints} {call : ConnectCall} {website : HttpWebsite}
    {made : List Made} (hnew : s.websites.find call.host = none)
    (h : Opens ⟨s.websites.emplace call.host website, call.port :: s.bound⟩ made s') :
    Opens s
      (⟨s, call, (⟨s.websites.emplace call.host website, call.port :: s.bound⟩, .ok ())⟩ :: made)
      s' := by
  have hadded : ∀ host found, (s.websites.emplace call.host website).find host = some found ↔
      s.websites.find host = some found ∨ call.host = host ∧ found = website := by
    intro host found
    rw [StdMap.find_emplace]
    by_cases hhost : host = call.host
    · subst hhost
      simp [hnew, eq_comm]
    · simp [hhost, Ne.symm hhost]
  refine ⟨?_, ?_, ?_, ?_⟩
  · intro host found
    rw [h.websites host found, hadded, List.exists_mem_cons_iff, or_assoc]
    refine or_congr_right (or_congr_left ?_)
    simp only [Made.Opened, true_and]
    constructor
    · rintro ⟨rfl, rfl⟩
      exact ⟨rfl, (hadded _ _).mpr (Or.inr ⟨rfl, rfl⟩)⟩
    · rintro ⟨rfl, hfound⟩
      refine ⟨rfl, ?_⟩
      rcases (hadded _ _).mp hfound with hold | ⟨-, hsame⟩
      · simp [hnew] at hold
      · exact hsame
  · rw [h.bound]
    simp [Made.returned]
  · rw [List.filter_cons_of_pos (by simp [Made.returned]), List.map_cons, List.nodup_cons]
    refine ⟨?_, h.hosts⟩
    rintro hin
    obtain ⟨m, hm, hhost⟩ := List.mem_map.mp hin
    obtain ⟨hmade, hreturned⟩ := List.mem_filter.mp hm
    have hfree := h.fresh m hmade (by simpa [Made.returned] using hreturned)
    have hthere := (hadded m.call.host website).mpr (Or.inr ⟨hhost.symm, rfl⟩)
    simp [hfree] at hthere
  · intro m hm hreturned
    rcases List.mem_cons.mp hm with rfl | hm
    · exact hnew
    · have hfree := h.fresh m hm hreturned
      by_contra hne
      obtain ⟨found, hfound⟩ := Option.ne_none_iff_exists'.mp hne
      rw [(hadded _ found).mpr (Or.inl hfound)] at hfree
      simp at hfree

/-- A call that threw leaves things to the others. -/
theorem Opens.threw {s s' : Endpoints} {call : ConnectCall} {e : Failure} {made : List Made}
    (h : Opens s made s') : Opens s (⟨s, call, (s, .error e)⟩ :: made) s' := by
  refine ⟨?_, ?_, ?_, ?_⟩
  · intro host found
    rw [h.websites host found, List.exists_mem_cons_iff]
    simp [Made.Opened]
  · rw [h.bound, List.filter_cons_of_neg (by simp [Made.returned])]
  · rw [List.filter_cons_of_neg (by simp [Made.returned])]
    exact h.hosts
  · intro m hm hreturned
    rcases List.mem_cons.mp hm with rfl | hm
    · simp at hreturned
    · exact h.fresh m hm hreturned

/-- A call adds a website for a new host and returns, or leaves everything as it was. -/
theorem connect_cases (c : Circumstances) (s : Endpoints) (call : ConnectCall) :
    (s.websites.find call.host = none ∧ ∃ website, connect c s call =
        (⟨s.websites.emplace call.host website, call.port :: s.bound⟩, .ok ())) ∨
      ∃ e, connect c s call = (s, .error e) := by
  by_cases hconnectable : Connectable c call.websitePath
  · rcases (connect_allOrNothing_iff c s call).mpr hconnectable with h | ⟨e, -, h⟩
    · exact Or.inl h
    · exact Or.inr ⟨e, h⟩
  · have hcreate := create_unconnectable c call.websitePath call.websiteName hconnectable
    have hexists : c.fs.fileExists call.websitePath := by
      by_contra hno
      exact hconnectable fun hexists => absurd hexists hno
    exact Or.inr ⟨_, by simp only [connect, hexists, hcreate]; rfl⟩

/-- After any sequence of calls, wherever they failed, the server has the websites and the ports of
those that returned and no others. -/
theorem history_opens (s : Endpoints) (calls : List (Circumstances × ConnectCall)) :
    Opens s (history s calls) (connectAll s calls) := by
  induction calls generalizing s with
  | nil => exact opens_nil s
  | cons first calls ih =>
    obtain ⟨c, call⟩ := first
    simp only [history, connectAll]
    rcases connect_cases c s call with ⟨hnew, website, heq⟩ | ⟨e, heq⟩
    · rw [heq]
      exact Opens.returned hnew (ih _)
    · rw [heq]
      split_ifs
      · exact Opens.threw (opens_nil s)
      · exact Opens.threw (ih s)

variable {Fn : Type}

/-- The service of a website; `routes` are those the library at a path adds when it is set up. -/
def serviceOf (routes : Bytes → List (RouteCall Fn)) (website : HttpWebsite) : Service Fn :=
  match website.resourceFactory with
  | .filesystem virtualPath => .directory virtualPath
  | .external libraryPath => .rest (routes libraryPath)

/-- The websites the workers are given. -/
def sites (routes : Bytes → List (RouteCall Fn)) (calls : List (Circumstances × ConnectCall)) :
    Websites (Service Fn) :=
  (connectAll .initial calls).websites.mapValues (serviceOf routes)

theorem sites_find (routes : Bytes → List (RouteCall Fn))
    (calls : List (Circumstances × ConnectCall)) (host : Host) (service : Service Fn) :
    (sites routes calls).find host = some service ↔
      ∃ made ∈ history .initial calls, ∃ website, made.Opened host website ∧
        serviceOf routes website = service := by
  have hopens := history_opens .initial calls
  rw [sites, StdMap.find_mapValues, Option.map_eq_some_iff]
  constructor
  · rintro ⟨website, hwebsite, hservice⟩
    rcases (hopens.websites host website).mp hwebsite with hnone | ⟨made, hmade, hopened⟩
    · simp [Endpoints.initial] at hnone
    · exact ⟨made, hmade, website, hopened, hservice⟩
  · rintro ⟨made, hmade, website, hopened, hservice⟩
    exact ⟨website, (hopens.websites host website).mpr (Or.inr ⟨made, hmade, hopened⟩), hservice⟩

/-- What is read in the response to a request for some host, once the calls have been made: for a
directory that was connected what the path leads to there, for a library what the route leaves that
serves the path, and for a host that was not connected that the request is bad. -/
structure ReadsHost (bld : Build) (calls : List (Circumstances × ConnectCall))
    (routes : Bytes → List (RouteCall Fn)) (env : ResourceContext) (call : Call Fn) (now : Moment)
    (request : HttpRequest) (host : Host) (text : Bytes) : Prop where
  directory : ∀ made ∈ history .initial calls, ∀ website, made.Opened host website →
    ∀ virtualPath, website.resourceFactory = .filesystem virtualPath →
      ∃ d, HttpResponse.decode text = some d ∧
        ReadsPath env (virtualPath ++ request.requestUri) request.method d
  library : ∀ made ∈ history .initial calls, ∀ website, made.Opened host website →
    ∀ libraryPath, website.resourceFactory = .external libraryPath →
      request.requestUri.head? = some slash →
      RestService.Unrepeated bld (routes libraryPath) request.requestUri →
      LeavesPlain call now request (routes libraryPath) →
        ∃ d, HttpResponse.decode text = some d ∧
          ReadsRoute (routes libraryPath) (fun fn params => (left call now request fn params).1)
            request.requestUri request.method d
  unknown : (∀ made ∈ history .initial calls, made.out.2 = .ok () → made.call.host ≠ host) →
    HttpResponse.decode text = some ⟨HttpResponse.DEFAULT_HTTP_VERSION, 400, [], []⟩

end HttpServer

namespace HttpWorker

open HttpService HttpServer

variable {Fn : Type} {frame : Bytes} {request : HttpRequest} {host : Host}

/-- A host without a website is told that its request is bad. -/
theorem siteAnswer_unknown (bld : Build) (websites : Websites (Service Fn))
    (env : ResourceContext) (call : Call Fn) (now : Moment) (h : ParsedFor bld frame request host)
    (hunknown : websites.find host = none) :
    ∃ text, siteAnswer bld websites env call now frame = some text ∧
      HttpResponse.decode text = some ⟨HttpResponse.DEFAULT_HTTP_VERSION, 400, [], []⟩ := by
  have hnone : websites.entries.find? (fun website => website.1 = host) = none := by
    apply List.find?_eq_none.mpr
    intro w hw hsame
    have hfind := (StdMap.mem_entries websites w.1 w.2).mp hw
    simp only [decide_eq_true_eq] at hsame
    rw [hsame, hunknown] at hfind
    contradiction
  have hbad : Status.httpBadRequest.Known := by decide
  have htidy := HttpResponse.fresh_tidy now.garbageStatus .httpBadRequest
  obtain ⟨text, htext, -⟩ := HttpResponse.serialize_known
    { HttpResponse.fresh now.garbageStatus with statusCode := .httpBadRequest } hbad
  refine ⟨text, ?_, (htidy.decodes text htext).2⟩
  simp only [siteAnswer, answer, surroundings, process, h.parsed, findWebsite, h.hosted, hnone,
    caught, Failure.exception, htext]
  rfl

/-- After any calls every request for a host is answered as that host was connected. -/
theorem siteAnswer_host (bld : Build) (calls : List (Circumstances × ConnectCall))
    (routes : Bytes → List (RouteCall Fn)) (env : ResourceContext) (htypes : env.PlainTypes)
    (call : Call Fn) (now : Moment) (h : ParsedFor bld frame request host) (text : Bytes)
    (hanswer : siteAnswer bld (sites routes calls) env call now frame = some text) :
    ReadsHost bld calls routes env call now request host text := by
  have hserved : ∀ made ∈ history .initial calls, ∀ website, made.Opened host website →
      (host, serviceOf routes website) ∈ (sites routes calls).entries := by
    intro made hmade website hopened
    apply (StdMap.mem_entries _ _ _).mpr
    exact (sites_find routes calls host _).mpr ⟨made, hmade, website, hopened, rfl⟩
  refine ⟨?_, ?_, ?_⟩
  · intro made hmade website hopened virtualPath hfactory
    have hmem := hserved made hmade website hopened
    rw [serviceOf, hfactory] at hmem
    obtain ⟨text', d, htext, hdecode, hreads⟩ := siteAnswer_directory bld (sites routes calls) env
      htypes call now h virtualPath hmem
    obtain rfl := Option.some.inj (hanswer.symm.trans htext)
    exact ⟨d, hdecode, hreads⟩
  · intro made hmade website hopened libraryPath hfactory hlead hunrepeated hleft
    have hmem := hserved made hmade website hopened
    rw [serviceOf, hfactory] at hmem
    obtain ⟨text', d, htext, hdecode, hreads⟩ := siteAnswer_route bld (sites routes calls) env call
      now h hlead (routes libraryPath) hmem hunrepeated hleft
    obtain rfl := Option.some.inj (hanswer.symm.trans htext)
    exact ⟨d, hdecode, hreads⟩
  · intro hnever
    have hunknown : (sites routes calls).find host = none := by
      by_contra hsome
      obtain ⟨service, hservice⟩ := Option.ne_none_iff_exists'.mp hsome
      obtain ⟨made, hmade, website, hopened, -⟩ :=
        (sites_find routes calls host service).mp hservice
      exact hnever made hmade hopened.1 hopened.2.1
    obtain ⟨text', htext, hdecode⟩ := siteAnswer_unknown bld _ env call now h hunknown
    obtain rfl := Option.some.inj (hanswer.symm.trans htext)
    exact hdecode

end HttpWorker

namespace Process

open HttpService HttpWorker HttpServer

variable {Fn : Type}

section Main

/-- The directory and the library that `main` names, below the working directory. -/
def mainSnapshot : Snapshot where
  root := .directory [(lit "srv", .directory
    [(lit "hello_world", .directory [(lit "index.html", .regular (lit "hello") 0)]),
      (lit "example", .directory [(lit "rest_webservice.dll", .regular [] 0)])])]
  cwd := [lit "srv"]
  cwdDirectory := rfl

def mainCircumstances : Circumstances :=
  { sampleCircumstances with fs := mainSnapshot, loads := fun _ => true }

/-- The calls that `main` makes. -/
def mainCalls : List (Circumstances × ConnectCall) :=
  [(mainCircumstances, ⟨lit "hello_world", lit "localhost", ⟨8081, by decide⟩, []⟩),
    (mainCircumstances,
      ⟨lit "example/rest_webservice.dll", lit "localhost", ⟨8082, by decide⟩, []⟩)]

def mainSites : Websites (Service MyService.Function) := sites (fun _ => MyService.setup) mainCalls

def mainContext : ResourceContext := { sampleContext with fs := mainSnapshot }

def mainHost : Host := ⟨lit "localhost", ⟨8081, by decide⟩⟩

def mainFrame : Bytes := hostedFrame (lit "GET") [] mainHost.text []

def mainRequest : HttpRequest := hostedRequest (lit "GET") [] mainHost.text []

theorem mainFrame_parsed : ParsedFor plainBuild mainFrame mainRequest mainHost :=
  hostedFrame_parsed _ _ _ _ _ (by decide) (Or.inl rfl) (by decide) (by decide)
    (by simp) (List.forall_mem_nil _)

/-- The program when it has answered one client. -/
def mainProcess : Process :=
  afterActions (siteAnswer plainBuild mainSites mainContext MyService.call)
    ⟨HttpServer.sampleClient, [mainFrame]⟩ sampleMoment 38

end Main

end Process

end HttpCpp
