import HttpCpp.Framework.Asking
import HttpCpp.Protocol.WarmCache
import HttpCpp.Server.SiteRuns

namespace HttpCpp

/-- A computation that calls `get_handler` with versions, each time given the class of the handler
returned, or none for a null pointer. -/
abbrev HandlerAsking (R : Type) := Asking Bytes (Option Handler) R

namespace HttpService

/-- `http_service::parse_request` with its call of `get_handler`. -/
def parseRequestAsking (bld : Build) (garbage : Method) (request : Bytes) :
    HandlerAsking (Except Fault HttpRequest) :=
  match Handler.extractHttpVersion request with
  | .error e => .done (.error e)
  | .ok httpVersion => .ask httpVersion fun
    | none => .done (.error (.httpInvalidRequest (lit "Invalid request.")))
    | some handler =>
      match handler.parseRequest bld request (.fresh garbage) with
      | .error e => .done (.error e)
      | .ok (code, structuredRequest) =>
        if code ≠ .success then .done (.error (.httpInvalidRequest (lit "Invalid request.")))
        else .done (.ok structuredRequest)

/-- `http_service::execute` on a structured request with its call of `get_handler`. -/
def executeAsking (date : Bytes) (garbage : Status) (factory : HttpResourceFactory)
    (request : HttpRequest) : HandlerAsking (Except Failure HttpResponse) :=
  match extractHost request with
  | .error e => .done (.error (.fault e))
  | .ok _ => .ask request.httpVersion fun handler =>
    let gresponse := GenericResponse.fresh garbage
    let served : Except Failure GenericResponse :=
      match handler with
      | none => .ok { gresponse with statusCode := .httpBadRequest }
      | some _ => forward factory request.toGeneric gresponse
    match served with
    | .error e => .done (.error e)
    | .ok gresponse =>
      let gresponse := defaultStatus gresponse
      .done (.ok (match handler with
      | none => { HttpResponse.fresh garbage with statusCode := gresponse.statusCode }
      | some handler => handler.makeResponse date gresponse))

theorem parseRequestAsking_answered (bld : Build) (garbage : Method) (request : Bytes) :
    (parseRequestAsking bld garbage request).answered Handler.getHandler =
      parseRequest bld garbage request := by
  simp only [parseRequestAsking, parseRequest]
  cases Handler.extractHttpVersion request with
  | error e => rfl
  | ok httpVersion =>
    cases hhandler : Handler.getHandler httpVersion with
    | none => simp [hhandler]
    | some handler =>
      cases hparse : handler.parseRequest bld request (.fresh garbage) with
      | error e => simp [hhandler, hparse]
      | ok out =>
        simp only [Asking.answered_ask, hhandler, hparse]
        split_ifs <;> rfl

theorem executeAsking_answered (date : Bytes) (garbage : Status) (factory : HttpResourceFactory)
    (request : HttpRequest) :
    (executeAsking date garbage factory request).answered Handler.getHandler =
      execute date garbage factory request := by
  simp only [executeAsking, execute]
  cases extractHost request with
  | error e => rfl
  | ok host =>
    cases hhandler : Handler.getHandler request.httpVersion with
    | none => simp [serve, respond, hhandler]
    | some handler =>
      cases hforward : forward factory request.toGeneric (GenericResponse.fresh garbage) with
      | error e => simp [serve, hhandler, hforward]
      | ok gresponse => simp [serve, respond, hhandler, hforward]

end HttpService

namespace HttpWorker

open HttpService

variable {Fn : Type}

/-- What leaves the `try` block of `handle_request`, with its calls of `get_handler`. The date is
one of this computation alone: the static buffers of `localtime` and `httptime` are not shared. -/
def processAsking (bld : Build) (websites : Websites (Service Fn)) (env : ResourceContext)
    (call : Call Fn) (now : Moment) (frame : Bytes) :
    HandlerAsking (Except Failure HttpResponse) :=
  (parseRequestAsking bld now.garbageMethod frame).bind fun
    | .error e => .done (.error (.fault e))
    | .ok request =>
      match findWebsite websites request with
      | .error e => .done (.error (.fault e))
      | .ok website => executeAsking (httptime now.timeptr) now.garbage
        (website.2.factory bld env.fs (Resource.run env call)) request

theorem processAsking_answered (bld : Build) (websites : Websites (Service Fn))
    (env : ResourceContext) (call : Call Fn) (now : Moment) (frame : Bytes) :
    (processAsking bld websites env call now frame).answered Handler.getHandler =
      process bld now.garbageMethod websites (surroundings bld env call now).execute frame := by
  simp only [processAsking, Asking.answered_bind, parseRequestAsking_answered, process]
  cases parseRequest bld now.garbageMethod frame with
  | error e => rfl
  | ok request =>
    cases hfind : findWebsite websites request with
    | error e => simp [hfind]
    | ok website => simp [hfind, executeAsking_answered, surroundings, executeIn]

/-- What `handle_request` computes between its last `recv` and its first `send`, with its calls of
`get_handler`: the text it sends, none where an exception leaves it. -/
def siteAsking (bld : Build) (websites : Websites (Service Fn)) (env : ResourceContext)
    (call : Call Fn) (now : Moment) (frame : Bytes) : HandlerAsking (Option Bytes) :=
  (processAsking bld websites env call now frame).bind fun outcome => .done
    (match caught now.garbageStatus outcome with
    | .error _ => none
    | .ok response => response.serialize.toOption)

/-- Where the cache serves the calls the text is the answer. -/
theorem siteAsking_answered (bld : Build) (websites : Websites (Service Fn))
    (env : ResourceContext) (call : Call Fn) (now : Moment) (frame : Bytes) :
    (siteAsking bld websites env call now frame).answered Handler.getHandler =
      siteAnswer bld websites env call now frame := by
  rw [siteAsking, Asking.answered_bind, processAsking_answered]
  rfl

end HttpWorker

namespace CacheAction

def worker : CacheAction → Nat
  | getHandler worker _ | contains worker | get worker | insert worker => worker

/-- A call that is entered is one for the version; the others go on with it. -/
def asks (version : Bytes) : CacheAction → Bool
  | getHandler _ httpVersion => httpVersion = version
  | _ => true

end CacheAction

/-- The class of the handler that the call returned whose step led from one state to the other. -/
def SharedCache.returnedBy (s s' : SharedCache) : Option (Option Handler) :=
  s'.returned[s.returned.length]?.map fun e => e.2.map HandlerInstance.handler

/-- The actions of a thread besides computing a response. -/
def WorkerAction.lift {World : Type} : WorkerAction Empty → WorkerAction World
  | .connect => .connect
  | .test => .test
  | .poll status request => .poll status request
  | .pollThrows => .pollThrows
  | .recvStatus => .recvStatus
  | .recvRequest => .recvRequest
  | .send => .send
  | .leave => .leave

def ProcessAction.lift {World : Type} : ProcessAction Empty → ProcessAction World
  | .deliver m => .deliver m
  | .launch => .launch
  | .announce heard => .announce heard
  | .poll stream replies => .poll stream replies
  | .throws => .throws
  | .recvHttp => .recvHttp
  | .sendRequest i => .sendRequest i
  | .recvReply i => .recvReply i
  | .sendHttp => .sendHttp
  | .leave => .leave
  | .worker i a => .worker i a.lift

/-- The threads of the server and the handler cache that its workers share; `computing` is what is
left of the computation of each worker that has begun one. -/
structure SharedProcess where
  process : Process
  cache : SharedCache
  computing : List (Option (HandlerAsking (Option Bytes)))

/-- A step of a thread outside `handle_request`'s computation, the beginning of one, a step of the
cache within it, and its end. -/
inductive SharedAction (World : Type) where
  | process (a : ProcessAction Empty)
  | compute (worker : Nat) (world : World)
  | cache (a : CacheAction)
  | respond (worker : Nat)

namespace SharedProcess

variable {World : Type}

/-- No worker has been launched, and no handler has been made. -/
def start : SharedProcess where
  process := .start
  cache := .start Process.workerCount
  computing := List.replicate Process.workerCount none

/-- An exception has left a worker, or an assertion has failed in the cache. -/
def ended (s : SharedProcess) : Bool := s.process.terminated || s.cache.ended

/-- What is left of the computations after a step of a worker's call, which may have returned. -/
def resume (computing : List (Option (HandlerAsking (Option Bytes)))) (i : Nat)
    (next : Option Handler → HandlerAsking (Option Bytes)) :
    Option (Option Handler) → List (Option (HandlerAsking (Option Bytes)))
  | none => computing
  | some handler => computing.set i (some (next handler))

def step (bld : Build) (program : World → Bytes → HandlerAsking (Option Bytes))
    (s : SharedProcess) (a : SharedAction World) : Option SharedProcess :=
  if s.ended then none
  else match a with
  | .process a =>
    (s.process.step (fun world _ => world.elim) a).map fun process => { s with process := process }
  | .compute i world =>
    match s.process.workers[i]?, s.computing[i]? with
    | some t, some none =>
      match t.place with
      | .answering _ frame =>
        some { s with computing := s.computing.set i (some (program world frame)) }
      | _ => none
    | _, _ => none
  | .cache a =>
    match s.computing[a.worker]? with
    | some (some (.ask version next)) =>
      if a.asks version then
        (s.cache.step bld a).map fun cache => { s with
          cache := cache
          computing := resume s.computing a.worker next (s.cache.returnedBy cache) }
      else none
    | _ => none
  | .respond i =>
    match s.computing[i]? with
    | some (some (.done text)) =>
      (s.process.step (fun (_ : Unit) _ => text) (.worker i (.answer ()))).map fun process =>
        { s with process := process, computing := s.computing.set i none }
    | _ => none

def machine (bld : Build) (program : World → Bytes → HandlerAsking (Option Bytes)) :
    Machine SharedProcess (SharedAction World) where
  Initial := fun s => s = start
  step := step bld program

/-- A worker that is about to find its version missing is the only one to have found that. -/
def alone (s : SharedProcess) : SharedAction World → Bool
  | .cache a => s.cache.alone a
  | _ => true

/-- The runs all of whose steps are taken alone. -/
def aloneMachine (bld : Build) (program : World → Bytes → HandlerAsking (Option Bytes)) :
    Machine SharedProcess (SharedAction World) where
  Initial := fun s => s = start
  step := fun s a => if s.alone a then step bld program s a else none

end SharedProcess

end HttpCpp
