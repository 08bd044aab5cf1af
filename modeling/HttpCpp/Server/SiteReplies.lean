import HttpCpp.Server.ProcessEnd
import HttpCpp.Service.ResourceOutcome

namespace HttpCpp

/-- A header that is read back as it was written: no separators in it. -/
def PlainHeader (e : Bytes × Bytes) : Prop :=
  (colon ∉ e.1 ∧ CR ∉ e.1 ∧ LF ∉ e.1) ∧ CR ∉ e.2 ∧ LF ∉ e.2

instance (e : Bytes × Bytes) : Decidable (PlainHeader e) := inferInstanceAs (Decidable (_ ∧ _))

def GenericResponse.PlainHeaders (gresponse : GenericResponse) : Prop :=
  ∀ e ∈ gresponse.header.entries, PlainHeader e

theorem plainHeaders_empty (statusCode : Status) (messageBody : Bytes) (complete : Bool) :
    GenericResponse.PlainHeaders ⟨statusCode, .empty, messageBody, complete⟩ :=
  fun _ he => absurd he List.not_mem_nil

structure GenericResponse.Plain (gresponse : GenericResponse) : Prop where
  known : gresponse.statusCode.Known
  header : gresponse.PlainHeaders

theorem httptime_plain (timeptr : Tm) : CR ∉ httptime timeptr ∧ LF ∉ httptime timeptr := by
  constructor
  · intro h
    exact absurd (httptime_printable timeptr CR h) (by decide)
  · intro h
    exact absurd (httptime_printable timeptr LF h) (by decide)

namespace HttpResponse

/-- The response is of a version the program speaks, and its headers are plain. -/
structure Tidy (response : HttpResponse) : Prop where
  version : response.httpVersion = OneOne.httpVersion ∨ response.httpVersion = OneZero.httpVersion
  headers : ∀ e ∈ response.headers, PlainHeader e

/-- What is written for a tidy response is read back. -/
theorem Tidy.decodes {response : HttpResponse} (h : response.Tidy) (text : Bytes)
    (htext : response.serialize = .ok text) :
    response.statusCode.Known ∧ decode text = some response.decoded := by
  have hversions : (SP ∉ OneOne.httpVersion ∧ CR ∉ OneOne.httpVersion ∧ LF ∉ OneOne.httpVersion) ∧
      SP ∉ OneZero.httpVersion ∧ CR ∉ OneZero.httpVersion ∧ LF ∉ OneZero.httpVersion := by
    decide
  have hknown : response.statusCode.Known := by
    by_contra hno
    rw [serialize_unknown response hno] at htext
    simp at htext
  have hversion : SP ∉ response.httpVersion ∧ CR ∉ response.httpVersion ∧
      LF ∉ response.httpVersion := by
    rcases h.version with hone | hzero
    · exact hone ▸ hversions.1
    · exact hzero ▸ hversions.2
  obtain ⟨bytes, hbytes, hdecode⟩ := decode_serialize response ⟨hknown, hversion,
    fun e he => (h.headers e he).1, fun e he => (h.headers e he).2⟩
  obtain rfl := Except.ok.inj (htext.symm.trans hbytes)
  exact ⟨hknown, hdecode⟩

theorem fresh_tidy (garbage statusCode : Status) :
    { fresh garbage with statusCode := statusCode }.Tidy := by
  have hversion : DEFAULT_HTTP_VERSION = OneOne.httpVersion := rfl
  exact ⟨Or.inl hversion, fun _ he => absurd he List.not_mem_nil⟩

end HttpResponse

theorem makeResponse_tidy (handler : Handler) (timeptr : Tm) (gresponse : GenericResponse)
    (h : gresponse.PlainHeaders) : (handler.makeResponse (httptime timeptr) gresponse).Tidy := by
  have hdate : colon ∉ lit "Date" ∧ CR ∉ lit "Date" ∧ LF ∉ lit "Date" := by decide
  have hserver : PlainHeader (lit "Server", lit "http-cpp v0.1") := by decide
  have hshared : ∀ version, ∀ e ∈ (makeResponse version (httptime timeptr) gresponse).headers,
      PlainHeader e := by
    intro version e he
    rcases List.mem_cons.mp (HttpResponse.makeResponse_headers .. ▸ he) with rfl | he
    · exact ⟨hdate, httptime_plain timeptr⟩
    have hfind := (StdMap.mem_entries _ e.1 e.2).mp he
    rw [makeResponse_find] at hfind
    split_ifs at hfind with hkey
    · rw [show e = (lit "Server", lit "http-cpp v0.1") from
        Prod.ext hkey (Option.some.inj hfind).symm]
      exact hserver
    · exact h e ((StdMap.mem_entries _ e.1 e.2).mpr hfind)
  cases handler with
  | oneOne => exact ⟨Or.inl rfl, hshared _⟩
  | oneZero => exact ⟨Or.inr rfl, hshared _⟩

/-- The magic database names types on one line. -/
def ResourceContext.PlainTypes (env : ResourceContext) : Prop :=
  ∀ magic ∈ env.magicFile, ∀ path, ∀ text ∈ magic path, CR ∉ text ∧ LF ∉ text

theorem getContentType_plain (env : ResourceContext) (htypes : env.PlainTypes) (path : Bytes) :
    CR ∉ FilesystemResource.getContentType env path ∧
      LF ∉ FilesystemResource.getContentType env path := by
  have hdefault : CR ∉ lit "text/plain" ∧ LF ∉ lit "text/plain" := by decide
  rw [FilesystemResource.getContentType]
  cases hmagic : env.magicFile with
  | none => exact hdefault
  | some magic =>
    cases htext : magic (cString path) with
    | none => simpa [htext] using hdefault
    | some text => simpa [htext] using htypes magic hmagic (cString path) text htext

theorem FilesystemResource.header_plain (env : ResourceContext) (htypes : env.PlainTypes)
    (r : FilesystemResource) : ∀ e ∈ (r.header env).entries, PlainHeader e := by
  have hnames : PlainHeader (lit "Content-Length", []) ∧ PlainHeader (lit "Content-Type", []) ∧
      PlainHeader (lit "Last-Modified", []) := by decide
  obtain ⟨hlength, htype, hmodified⟩ := hnames
  have hempty : ∀ e ∈ (StdMap.empty : HeaderMap).entries, PlainHeader e :=
    fun e he => absurd he List.not_mem_nil
  have hdigits : ∀ n, CR ∉ decimalText n ∧ LF ∉ decimalText n := by
    intro n
    exact ⟨fun h => absurd (decimalText_digit n CR h) (by decide),
      fun h => absurd (decimalText_digit n LF h) (by decide)⟩
  cases r with
  | file requestUri =>
    refine StdMap.forall_assign PlainHeader _ _ _ ?_ ⟨hmodified.1, httptime_plain _⟩
    refine StdMap.forall_assign PlainHeader _ _ _ ?_
      ⟨htype.1, getContentType_plain env htypes requestUri⟩
    exact StdMap.forall_assign PlainHeader _ _ _ hempty ⟨hlength.1, hdigits _⟩
  | listing requestUri =>
    refine StdMap.forall_assign PlainHeader _ _ _ ?_ hmodified
    refine StdMap.forall_assign PlainHeader _ _ _ ?_ hlength
    exact StdMap.forall_assign PlainHeader _ _ _ hempty htype

/-- The functions behind the routes leave plain headers, also where they throw. -/
def PlainCall {Fn : Type} (call : Call Fn) : Prop :=
  ∀ fn request garbage, (call fn request (.fresh garbage)).1.PlainHeaders

theorem MyService.call_plain : PlainCall MyService.call := by
  intro fn request garbage
  cases fn <;> exact plainHeaders_empty _ _ _

/-- What changes from one request to the next: the time, and what is left uninitialised in the
request and in the responses. -/
structure Moment where
  timeptr : Tm
  garbageMethod : Method
  garbageStatus : Status
  garbage : Status

namespace HttpService

variable {Fn : Type}

theorem run_plain (env : ResourceContext) (htypes : env.PlainTypes) (call : Call Fn)
    (hcall : PlainCall call) (resource : Resource Fn) (grequest : GenericRequest)
    (garbage : Status) :
    ((Resource.run env call resource).execute grequest (.fresh garbage)).1.PlainHeaders := by
  cases resource with
  | filesystem r =>
    show (r.execute env grequest (.fresh garbage)).PlainHeaders
    rw [FilesystemResource.execute_eq]
    exact r.header_plain env htypes
  | rest r =>
    show (r.execute call grequest (.fresh garbage)).1.PlainHeaders
    cases hfn : r.fn with
    | none =>
      rw [RestResource.execute, hfn]
      exact plainHeaders_empty _ _ _
    | some fn =>
      rw [RestResource.execute, hfn]
      exact hcall fn _ garbage

/-- Whatever way a request goes, the headers it leaves are those of its resource. -/
theorem serve_plain (bld : Build) (env : ResourceContext) (htypes : env.PlainTypes)
    (call : Call Fn) (hcall : PlainCall call) (service : Service Fn) (garbage : Status)
    (request : HttpRequest) (gresponse : GenericResponse)
    (h : serve garbage (service.factory bld env.fs (Resource.run env call)) request =
      .ok gresponse) : gresponse.PlainHeaders := by
  cases hhandler : Handler.getHandler request.httpVersion with
  | none =>
    simp only [serve, hhandler] at h
    obtain rfl := Except.ok.inj h
    exact plainHeaders_empty _ _ _
  | some handler =>
    cases hcreate : service.createHandle bld env.fs request.toGeneric with
    | error e => simp [serve, hhandler, forward, callCreateHandle, Service.factory, hcreate] at h
    | ok resource =>
      simp only [serve, hhandler, forward, callCreateHandle, Service.factory, hcreate] at h
      cases resource with
      | none =>
        obtain rfl := Except.ok.inj h
        exact plainHeaders_empty _ _ _
      | some resource =>
        have hrun := run_plain env htypes call hcall resource request.toGeneric garbage
        rcases hout : (Resource.run env call resource).execute request.toGeneric (.fresh garbage)
          with ⟨left, e⟩
        rw [hout] at hrun
        simp only [Option.map_some, hout] at h
        rcases e with _ | _ | _ | _
        · obtain rfl := Except.ok.inj h
          exact hrun
        · obtain rfl := Except.ok.inj h
          exact hrun
        · obtain rfl := Except.ok.inj h
          exact hrun
        · simp at h

theorem executeIn_tidy (bld : Build) (env : ResourceContext) (htypes : env.PlainTypes)
    (call : Call Fn) (hcall : PlainCall call) (service : Service Fn) (timeptr : Tm)
    (garbage : Status) (request : HttpRequest) (response : HttpResponse)
    (h : executeIn bld env call service (httptime timeptr) garbage request = .ok response) :
    response.Tidy := by
  simp only [executeIn, execute] at h
  cases hhost : extractHost request with
  | error e => simp [hhost] at h
  | ok host =>
    cases hserve : serve garbage (service.factory bld env.fs (Resource.run env call)) request with
    | error e => simp [hhost, hserve] at h
    | ok gresponse =>
      simp only [hhost, hserve] at h
      obtain rfl := Except.ok.inj h
      have hplain := serve_plain bld env htypes call hcall service garbage request gresponse hserve
      have hdefault : (defaultStatus gresponse).PlainHeaders := by
        rw [defaultStatus]
        split_ifs <;> exact hplain
      cases hhandler : Handler.getHandler request.httpVersion with
      | none =>
        simp only [respond, hhandler]
        exact HttpResponse.fresh_tidy _ _
      | some handler =>
        simp only [respond, hhandler]
        exact makeResponse_tidy handler timeptr _ hdefault

end HttpService

namespace HttpWorker

open HttpService

variable {Fn : Type}

/-- The websites run their services in one context. -/
def surroundings (bld : Build) (env : ResourceContext) (call : Call Fn) (now : Moment) :
    Surroundings (Service Fn) where
  garbageMethod := now.garbageMethod
  garbageStatus := now.garbageStatus
  execute service request :=
    executeIn bld env call service (httptime now.timeptr) now.garbage request

/-- What a worker answers for such websites. -/
def siteAnswer (bld : Build) (websites : Websites (Service Fn)) (env : ResourceContext)
    (call : Call Fn) (now : Moment) (frame : Bytes) : Option Bytes :=
  answer bld websites (surroundings bld env call now) frame

/-- What is caught or executed for a frame is tidy. -/
theorem caught_tidy (bld : Build) (websites : Websites (Service Fn)) (env : ResourceContext)
    (htypes : env.PlainTypes) (call : Call Fn) (hcall : PlainCall call) (now : Moment)
    (frame : Bytes) (response : HttpResponse)
    (h : caught now.garbageStatus (process bld now.garbageMethod websites
      (surroundings bld env call now).execute frame) = .ok response) : response.Tidy := by
  cases hprocess : process bld now.garbageMethod websites
      (surroundings bld env call now).execute frame with
  | error e =>
    simp only [hprocess, caught] at h
    split at h
    · obtain rfl := Except.ok.inj h
      exact HttpResponse.fresh_tidy _ _
    · obtain rfl := Except.ok.inj h
      exact HttpResponse.fresh_tidy _ _
    · simp at h
  | ok executed =>
    rw [hprocess] at h
    obtain rfl := Except.ok.inj h
    simp only [process] at hprocess
    split at hprocess
    · simp at hprocess
    · split at hprocess
      · simp at hprocess
      · exact executeIn_tidy bld env htypes call hcall _ now.timeptr now.garbage _ _ hprocess

/-- What can be read in a response of the program. -/
structure Readable (d : HttpResponse.Decoded) : Prop where
  version : d.httpVersion = OneOne.httpVersion ∨ d.httpVersion = OneZero.httpVersion
  status : d.statusCode ∈ Status.reasonPhrases.map Prod.fst

/-- Whatever bytes come from a client, what it is sent is one response that can be read. -/
theorem siteAnswer_readable (bld : Build) (websites : Websites (Service Fn))
    (env : ResourceContext) (htypes : env.PlainTypes) (call : Call Fn) (hcall : PlainCall call)
    (now : Moment) (frame text : Bytes)
    (h : siteAnswer bld websites env call now frame = some text) :
    ∃ d, HttpResponse.decode text = some d ∧ Readable d := by
  simp only [siteAnswer, answer] at h
  split at h
  · simp at h
  · rename_i response hcaught
    have htidy := caught_tidy bld websites env htypes call hcall now frame response hcaught
    have htext : response.serialize = .ok text := by
      cases hserialize : response.serialize with
      | error e => simp [hserialize, Except.toOption] at h
      | ok bytes => simpa [hserialize, Except.toOption] using h
    obtain ⟨hknown, hdecode⟩ := htidy.decodes text htext
    exact ⟨_, hdecode, htidy.version, hknown⟩

end HttpWorker

end HttpCpp
