import HttpCpp.Filesystem.Containment
import HttpCpp.Server.WebsiteRouting

namespace HttpCpp

/-- What a call finds outside the program: the filesystem, whether the library at a path loads and
sets itself up, and whether a socket that is bound to some ports can be bound to another. -/
structure Circumstances where
  fs : Snapshot
  loads : Bytes → Bool
  binds : List (Fin 65536) → Fin 65536 → Bool

/-- An `http_website`: the members of its service besides the host. -/
structure HttpWebsite where
  servicePath : Bytes
  name : Bytes
  resourceFactory : ResourceFactory
  deriving DecidableEq

/-- `create_resource_factory` with the constructors of the factories; that of
`http_external_resource_factory` throws what `import_alias` throws. -/
def ResourceFactory.create (c : Circumstances) (servicePath : Bytes) :
    Except Failure ResourceFactory :=
  match createResourceFactory c.fs servicePath with
  | .error e => .error (.fault e)
  | .ok (.filesystem virtualPath) => .ok (.filesystem virtualPath)
  | .ok (.external libraryPath) =>
    if c.loads libraryPath then .ok (.external libraryPath) else .error (.thrown .stdException)

/-- `http_website::http_website`, which is `noexcept`, over the constructor of its service. -/
def HttpWebsite.create (c : Circumstances) (websitePath websiteName : Bytes) :
    Except Failure HttpWebsite :=
  match ResourceFactory.create c websitePath with
  | .ok factory => .ok ⟨websitePath, websiteName, factory⟩
  | .error e => .error (if e.exception.isSome then .fault .terminate else e)

namespace HttpServer

open HttpService HttpWorker

structure ConnectCall where
  websitePath : Bytes
  hostName : Bytes
  port : Fin 65536
  websiteName : Bytes
  deriving DecidableEq

def ConnectCall.host (call : ConnectCall) : Host := ⟨call.hostName, call.port⟩

/-- The members of `http_server` that `connect` changes: the websites, and the ports the stream
socket is bound to. -/
structure Endpoints where
  websites : Websites HttpWebsite
  bound : List (Fin 65536)
  deriving DecidableEq

def Endpoints.initial : Endpoints := ⟨.empty, []⟩

/-- `http_server::connect`, with the members as they are left. `emplace` makes the website before
it looks for the host. -/
def connect (c : Circumstances) (s : Endpoints) (call : ConnectCall) :
    Endpoints × Except Failure Unit :=
  if ¬c.fs.fileExists call.websitePath then
    (s, .error (.fault (.invalidArgument (lit
      "Invalid website root directory. The directory must exist on the filesystem."))))
  else
    match HttpWebsite.create c call.websitePath call.websiteName with
    | .error e => (s, .error e)
    | .ok website =>
      if (s.websites.find call.host).isSome then
        (s, .error (.fault (.invalidArgument (lit
          "Invalid website identifier. Is the port and name combination already used ?"))))
      else
        let websites := s.websites.emplace call.host website
        if c.binds s.bound call.port then (⟨websites, call.port :: s.bound⟩, .ok ())
        else ({ s with websites := websites.erase call.host }, .error (.thrown .stdException))

/-- The path does not exist, or there is a service to be made for it. -/
def Connectable (c : Circumstances) (path : Bytes) : Prop :=
  c.fs.fileExists path → c.fs.isDirectory path ∨ c.fs.isRegularFile path ∧ c.loads path

instance (c : Circumstances) (path : Bytes) : Decidable (Connectable c path) :=
  inferInstanceAs (Decidable (_ → _))

theorem exists_of_directory (fs : Snapshot) (path : Bytes) (h : fs.isDirectory path) :
    fs.fileExists path := by
  simp only [Snapshot.isDirectory, Snapshot.fileExists] at h ⊢
  cases hnode : fs.status path with
  | none => simp [hnode] at h
  | some node => rfl

theorem create_unconnectable (c : Circumstances) (path name : Bytes) (h : ¬Connectable c path) :
    HttpWebsite.create c path name = .error (.fault .terminate) := by
  simp only [Connectable, not_forall, not_or, not_and] at h
  obtain ⟨hexists, hdirectory, hfile⟩ := h
  simp only [HttpWebsite.create, ResourceFactory.create, createResourceFactory, hexists, true_and,
    hdirectory]
  by_cases hregular : c.fs.isRegularFile path
  · simp [hregular, hfile hregular, Failure.exception]
  · simp [hregular, Failure.exception, Fault.isException]

theorem create_directory (c : Circumstances) (path name : Bytes) (h : c.fs.isDirectory path) :
    HttpWebsite.create c path name = .ok ⟨path, name, .filesystem path⟩ := by
  simp [HttpWebsite.create, ResourceFactory.create, createResourceFactory, h,
    exists_of_directory c.fs path h]

theorem create_connectable (c : Circumstances) (path name : Bytes) (hexists : c.fs.fileExists path)
    (h : Connectable c path) : ∃ website, HttpWebsite.create c path name = .ok website := by
  by_cases hdirectory : c.fs.isDirectory path
  · exact ⟨_, create_directory c path name hdirectory⟩
  · obtain ⟨hfile, hloads⟩ := (h hexists).resolve_left hdirectory
    exact ⟨⟨path, name, .external path⟩, by
      simp [HttpWebsite.create, ResourceFactory.create, createResourceFactory, hexists, hdirectory,
        hfile, hloads]⟩

/-- Either the call returned and a website for its host was added and bound, or it threw and
changed nothing. -/
def AllOrNothing (s : Endpoints) (call : ConnectCall) (out : Endpoints × Except Failure Unit) :
    Prop :=
  (s.websites.find call.host = none ∧
    ∃ website, out = (⟨s.websites.emplace call.host website, call.port :: s.bound⟩, .ok ())) ∨
  ∃ e : Failure, e.exception.isSome ∧ out = (s, .error e)

/-- A call is all or nothing exactly when no website needs to be made or there is a service for
it. -/
theorem connect_allOrNothing_iff (c : Circumstances) (s : Endpoints) (call : ConnectCall) :
    AllOrNothing s call (connect c s call) ↔ Connectable c call.websitePath := by
  by_cases hconnectable : Connectable c call.websitePath
  · refine iff_of_true ?_ hconnectable
    by_cases hexists : c.fs.fileExists call.websitePath
    · obtain ⟨website, hcreate⟩ :=
        create_connectable c call.websitePath call.websiteName hexists hconnectable
      cases hfind : s.websites.find call.host with
      | some site =>
        refine Or.inr ⟨_, ?_, by simp only [connect, hexists, hcreate, hfind]; rfl⟩
        rfl
      | none =>
        by_cases hbinds : c.binds s.bound call.port
        · exact Or.inl ⟨hfind, website, by simp [connect, hexists, hcreate, hfind, hbinds]⟩
        · refine Or.inr ⟨.thrown .stdException, rfl, ?_⟩
          simp [connect, hexists, hcreate, hfind, hbinds, StdMap.erase_emplace]
    · refine Or.inr ⟨_, ?_, by simp only [connect, hexists]; rfl⟩
      rfl
  · refine iff_of_false ?_ hconnectable
    have hexists : c.fs.fileExists call.websitePath := by
      by_contra h
      exact hconnectable fun hexists => absurd hexists h
    have hcreate := create_unconnectable c call.websitePath call.websiteName hconnectable
    simp [AllOrNothing, connect, hexists, hcreate, Failure.exception, Fault.isException]

/-- The process has ended, which no `catch` clause sees. -/
def ended : Except Failure Unit → Bool
  | .ok _ => false
  | .error e => e.exception.isNone

/-- A call with the members before it and what it left. -/
structure Made where
  before : Endpoints
  call : ConnectCall
  out : Endpoints × Except Failure Unit

/-- The calls of a list that are made: the caller catches exceptions, and when the process has
ended there are no more. -/
def history : Endpoints → List (Circumstances × ConnectCall) → List Made
  | _, [] => []
  | s, (c, call) :: calls =>
    let out := connect c s call
    ⟨s, call, out⟩ :: if ended out.2 then [] else history out.1 calls

/-- The members when all calls have been made. -/
def connectAll : Endpoints → List (Circumstances × ConnectCall) → Endpoints
  | s, [] => s
  | s, (c, call) :: calls =>
    let out := connect c s call
    if ended out.2 then out.1 else connectAll out.1 calls

theorem allOrNothing_goes_on (s : Endpoints) (call : ConnectCall)
    (out : Endpoints × Except Failure Unit) (h : AllOrNothing s call out) :
    ended out.2 = false := by
  rcases h with ⟨-, website, rfl⟩ | ⟨e, he, rfl⟩
  · rfl
  · simpa [ended] using he

theorem hosts_nodup {Site : Type} (websites : Websites Site) :
    (websites.entries.map Prod.fst).Nodup :=
  List.pairwise_map.mpr (websites.sorted.imp fun hlt => ne_of_lt hlt)

/-- In a sequence of calls each is all or nothing, with distinct hosts after it, exactly when none
is for a path that exists and has no service. -/
theorem history_allOrNothing_iff (s : Endpoints) (calls : List (Circumstances × ConnectCall)) :
    (∀ made ∈ history s calls, AllOrNothing made.before made.call made.out ∧
        (made.out.1.websites.entries.map Prod.fst).Nodup) ↔
      ∀ c ∈ calls, Connectable c.1 c.2.websitePath := by
  induction calls generalizing s with
  | nil => simp [history]
  | cons first calls ih =>
    obtain ⟨c, call⟩ := first
    simp only [history, List.forall_mem_cons, connect_allOrNothing_iff, hosts_nodup, and_true]
      at ih ⊢
    by_cases hconnectable : Connectable c call.websitePath
    · have hout := (connect_allOrNothing_iff c s call).mpr hconnectable
      simp only [allOrNothing_goes_on s call _ hout, Bool.false_eq_true, if_false, ih]
    · simp [hconnectable]

/-- A website's directory beside a file that is no library. -/
def sampleCircumstances : Circumstances where
  fs := FilesystemFactory.sampleSnapshot
  loads _ := false
  binds bound port := port ∉ bound

/-- Connecting to a file that is no library ends the process. -/
theorem connect_terminates :
    ∃ made ∈ history .initial
        [(sampleCircumstances, ⟨lit "/srv/secret", lit "a", 8080, lit "secret"⟩)],
      made.out = (.initial, .error (.fault .terminate)) ∧
        ¬AllOrNothing made.before made.call made.out := by
  have hout : connect sampleCircumstances .initial
      ⟨lit "/srv/secret", lit "a", 8080, lit "secret"⟩ =
        (.initial, .error (.fault .terminate)) := by
    decide
  refine ⟨_, List.mem_cons_self, hout, ?_⟩
  rw [connect_allOrNothing_iff]
  decide

/-- Binding a socket to a port it is bound to raises an error, and every other port is free. -/
structure BindsOnce (c : Circumstances) : Prop where
  busy : ∀ bound port, port ∈ bound → c.binds bound port = false
  free : ∀ bound port, port ∉ bound → c.binds bound port = true

/-- The website of a call for a directory. -/
def ConnectCall.website (call : ConnectCall) : HttpWebsite :=
  ⟨call.websitePath, call.websiteName, .filesystem call.websitePath⟩

/-- A call for a directory under a new host comes down to the binding. -/
theorem connect_directory (c : Circumstances) (s : Endpoints) (call : ConnectCall)
    (hdirectory : c.fs.isDirectory call.websitePath) (hhost : s.websites.find call.host = none) :
    connect c s call =
      if c.binds s.bound call.port then
        (⟨s.websites.emplace call.host call.website, call.port :: s.bound⟩, .ok ())
      else (s, .error (.thrown .stdException)) := by
  have hexists := exists_of_directory c.fs call.websitePath hdirectory
  have hcreate := create_directory c call.websitePath call.websiteName hdirectory
  simp only [connect, hexists, not_true_eq_false, if_false, hcreate, hhost, Option.isSome_none,
    Bool.false_eq_true, StdMap.erase_emplace s.websites call.host _ hhost]
  rfl

theorem hosts_still_new (websites : Websites HttpWebsite) (call : ConnectCall)
    (calls : List (Circumstances × ConnectCall))
    (hhost : call.host ∉ calls.map fun c => c.2.host)
    (hnew : ∀ c ∈ calls, websites.find c.2.host = none) :
    ∀ c ∈ calls, (websites.emplace call.host call.website).find c.2.host = none := by
  intro c hc
  have hne : c.2.host ≠ call.host := by
    intro heq
    exact hhost (List.mem_map.mpr ⟨c, hc, heq⟩)
  rw [StdMap.find_emplace, if_neg hne, hnew c hc]

/-- The calls of a list under new hosts return one after the other exactly when no two are for the
same port and none is for a port that is bound. -/
theorem history_returns_iff (s : Endpoints) (calls : List (Circumstances × ConnectCall))
    (hdirectory : ∀ c ∈ calls, c.1.fs.isDirectory c.2.websitePath)
    (hbinds : ∀ c ∈ calls, BindsOnce c.1) (hnew : ∀ c ∈ calls, s.websites.find c.2.host = none)
    (hhosts : (calls.map fun c => c.2.host).Nodup) :
    (∀ made ∈ history s calls, made.out.2 = .ok ()) ↔
      (calls.map fun c => c.2.port).Nodup ∧ ∀ c ∈ calls, c.2.port ∉ s.bound := by
  induction calls generalizing s with
  | nil => simp [history]
  | cons first calls ih =>
    obtain ⟨c, call⟩ := first
    obtain ⟨hdir, hdirs⟩ := List.forall_mem_cons.mp hdirectory
    obtain ⟨hbind, hbindings⟩ := List.forall_mem_cons.mp hbinds
    obtain ⟨hfirst, hrest⟩ := List.forall_mem_cons.mp hnew
    rw [List.map_cons, List.nodup_cons] at hhosts
    have hconnect := connect_directory c s call hdir hfirst
    by_cases hport : call.port ∈ s.bound
    · rw [hbind.busy s.bound call.port hport] at hconnect
      simp [history, hconnect, hport]
    · rw [hbind.free s.bound call.port hport] at hconnect
      have hstill := hosts_still_new s.websites call calls hhosts.1 hrest
      have htail := ih ⟨s.websites.emplace call.host call.website, call.port :: s.bound⟩ hdirs
        hbindings hstill hhosts.2
      have hmade : (∀ made ∈ history s ((c, call) :: calls), made.out.2 = .ok ()) ↔
          ∀ made ∈ history ⟨s.websites.emplace call.host call.website, call.port :: s.bound⟩ calls,
            made.out.2 = .ok () := by
        simp [history, hconnect, ended]
      have hbound : (∀ d ∈ calls, d.2.port ∉ call.port :: s.bound) ↔
          call.port ∉ calls.map (fun d => d.2.port) ∧ ∀ d ∈ calls, d.2.port ∉ s.bound := by
        simp only [List.mem_cons, not_or, List.mem_map, not_exists, not_and, ← forall₂_and]
      rw [hmade, htail, hbound, List.map_cons, List.nodup_cons, List.forall_mem_cons]
      tauto

theorem connectAll_find (s : Endpoints) (calls : List (Circumstances × ConnectCall)) (host : Host)
    (website : HttpWebsite) (hdirectory : ∀ c ∈ calls, c.1.fs.isDirectory c.2.websitePath)
    (h : s.websites.find host = some website) :
    (connectAll s calls).websites.find host = some website := by
  induction calls generalizing s with
  | nil => exact h
  | cons first calls ih =>
    obtain ⟨c, call⟩ := first
    obtain ⟨hdir, hdirs⟩ := List.forall_mem_cons.mp hdirectory
    have hout := (connect_allOrNothing_iff c s call).mpr fun _ => Or.inl hdir
    have hkept : (connect c s call).1.websites.find host = some website := by
      rcases hout with ⟨hnew, site, heq⟩ | ⟨e, -, heq⟩
      · have hne : host ≠ call.host := by
          intro hhost
          rw [hhost, hnew] at h
          contradiction
        rw [heq, StdMap.find_emplace, if_neg hne, h]
      · rw [heq, h]
    simp only [connectAll, allOrNothing_goes_on s call _ hout, Bool.false_eq_true, if_false]
    exact ih _ hdirs hkept

/-- The websites of calls that return are all there in the end. -/
theorem connectAll_finds (s : Endpoints) (calls : List (Circumstances × ConnectCall))
    (hdirectory : ∀ c ∈ calls, c.1.fs.isDirectory c.2.websitePath)
    (hnew : ∀ c ∈ calls, s.websites.find c.2.host = none)
    (hhosts : (calls.map fun c => c.2.host).Nodup)
    (hreturns : ∀ made ∈ history s calls, made.out.2 = .ok ()) :
    ∀ c ∈ calls, (connectAll s calls).websites.find c.2.host = some c.2.website := by
  induction calls generalizing s with
  | nil => simp
  | cons first calls ih =>
    obtain ⟨c, call⟩ := first
    obtain ⟨hdir, hdirs⟩ := List.forall_mem_cons.mp hdirectory
    obtain ⟨hfirst, hrest⟩ := List.forall_mem_cons.mp hnew
    rw [List.map_cons, List.nodup_cons] at hhosts
    simp only [history, List.forall_mem_cons] at hreturns
    obtain ⟨hreturn, hreturns⟩ := hreturns
    have hconnect := connect_directory c s call hdir hfirst
    by_cases hbinds : c.binds s.bound call.port
    · rw [if_pos hbinds] at hconnect
      simp only [hconnect, ended, Bool.false_eq_true, if_false] at hreturns
      have hall : connectAll s ((c, call) :: calls) =
          connectAll ⟨s.websites.emplace call.host call.website, call.port :: s.bound⟩ calls := by
        simp [connectAll, hconnect, ended]
      have hstill := hosts_still_new s.websites call calls hhosts.1 hrest
      rw [hall, List.forall_mem_cons]
      refine ⟨connectAll_find _ calls call.host call.website hdirs ?_, ?_⟩
      · rw [StdMap.find_emplace, if_pos rfl, hfirst, Option.getD_none]
      · exact ih _ hdirs hstill hhosts.2 hreturns
    · rw [if_neg hbinds] at hconnect
      simp [hconnect] at hreturn

/-- Calls for directories under distinct hosts all return, and every website is found by its host,
exactly when no two of them are for the same port. -/
theorem history_nameBased_iff (calls : List (Circumstances × ConnectCall))
    (hdirectory : ∀ c ∈ calls, c.1.fs.isDirectory c.2.websitePath)
    (hbinds : ∀ c ∈ calls, BindsOnce c.1) (hhosts : (calls.map fun c => c.2.host).Nodup) :
    ((∀ made ∈ history .initial calls, made.out.2 = .ok ()) ∧
      ∀ c ∈ calls, ∀ request, extractHost request = .ok c.2.host →
        findWebsite (connectAll .initial calls).websites request =
          .ok (c.2.host, c.2.website)) ↔
      (calls.map fun c => c.2.port).Nodup := by
  have hreturns := history_returns_iff .initial calls hdirectory hbinds (fun _ _ => rfl) hhosts
  have hfree : ∀ c ∈ calls, c.2.port ∉ Endpoints.initial.bound := fun _ _ => List.not_mem_nil
  rw [hreturns, and_iff_left hfree]
  constructor
  · intro h
    exact h.1
  · intro hports
    refine ⟨hports, ?_⟩
    intro c hc request hhost
    have hfind := connectAll_finds .initial calls hdirectory (fun _ _ => rfl) hhosts
      (hreturns.mpr ⟨hports, hfree⟩) c hc
    exact findWebsite_host _ (c.2.host, c.2.website) ((StdMap.mem_entries _ _ _).mpr hfind)
      request hhost

theorem sampleCircumstances_bindsOnce : BindsOnce sampleCircumstances where
  busy bound port h := by simpa [sampleCircumstances] using h
  free bound port h := by simpa [sampleCircumstances] using h

/-- Two websites of one name. -/
def sampleConnects (first second : Fin 65536) : List (Circumstances × ConnectCall) :=
  [(sampleCircumstances, ⟨lit "/srv/www", lit "a", first, lit "first"⟩),
    (sampleCircumstances, ⟨lit "/srv", lit "a", second, lit "second"⟩)]

theorem history_nameBased_two :
    (∀ made ∈ history .initial (sampleConnects 8080 8081), made.out.2 = .ok ()) ∧
      ∀ c ∈ sampleConnects 8080 8081, ∀ request, extractHost request = .ok c.2.host →
        findWebsite (connectAll .initial (sampleConnects 8080 8081)).websites request =
          .ok (c.2.host, c.2.website) := by
  refine (history_nameBased_iff _ (by decide) ?_ (by decide)).mpr
    (by decide)
  refine List.forall_mem_cons.mpr ⟨sampleCircumstances_bindsOnce, ?_⟩
  exact List.forall_mem_cons.mpr ⟨sampleCircumstances_bindsOnce, List.forall_mem_nil _⟩

/-- Two websites on one port: the second call throws and leaves no website. -/
theorem connect_second_name :
    ∃ s, connect sampleCircumstances .initial ⟨lit "/srv/www", lit "a", 8080, lit "first"⟩ =
        (s, .ok ()) ∧
      connect sampleCircumstances s ⟨lit "/srv", lit "b", 8080, lit "second"⟩ =
        (s, .error (.thrown .stdException)) ∧
      s.websites.find ⟨lit "b", 8080⟩ = none :=
  ⟨⟨StdMap.empty.emplace ⟨lit "a", 8080⟩
    ⟨lit "/srv/www", lit "first", .filesystem (lit "/srv/www")⟩, [8080]⟩, by decide,
    by decide, by decide⟩

end HttpServer
end HttpCpp
