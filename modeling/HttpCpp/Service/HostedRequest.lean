import HttpCpp.Service.HeaderClasses
import HttpCpp.Service.HostForms

namespace HttpCpp

theorem OneOne.parseRequest_garbage (bld : Build) (garbage garbage' : Method) (frame : Bytes) :
    parseRequest bld frame (.fresh garbage) = parseRequest bld frame (.fresh garbage') ∨
      ∃ code ≠ .success, parseRequest bld frame (.fresh garbage) = .ok (code, .fresh garbage) ∧
        parseRequest bld frame (.fresh garbage') = .ok (code, .fresh garbage') := by
  by_cases hframe : frame = []
  · subst hframe
    exact Or.inr ⟨.emptyRequest, by decide, rfl, rfl⟩
  · simp only [parseRequest, parseRequestBody_eq bld frame _ hframe]
    have hinvalid : ParsingStatus.invalidRequestLine ≠ .success := by decide
    rcases splitRequestLine (requestLineOf frame) with
      _ | ⟨rawMethod, _ | ⟨rawRequestUri, _ | ⟨rawHttpVersion, _ | ⟨more, tokens⟩⟩⟩⟩
    · exact Or.inr ⟨_, hinvalid, rfl, rfl⟩
    · exact Or.inr ⟨_, hinvalid, rfl, rfl⟩
    · exact Or.inr ⟨_, hinvalid, rfl, rfl⟩
    · by_cases hmethod : rawMethod ∈ METHODS
      · simp only [if_pos hmethod]
        exact Or.inl rfl
      · simp only [if_neg hmethod]
        exact Or.inr ⟨_, hinvalid, rfl, rfl⟩
    · exact Or.inr ⟨_, hinvalid, rfl, rfl⟩

namespace HttpService

/-- What is read of a request does not depend on the method that was there before, unless nothing
is read of it at all. -/
theorem parseRequest_garbage (bld : Build) (garbage garbage' : Method) (frame : Bytes) :
    parseRequest bld garbage frame = parseRequest bld garbage' frame ∨
      parseRequest bld garbage frame = .ok (.fresh garbage) ∧
        parseRequest bld garbage' frame = .ok (.fresh garbage') := by
  simp only [parseRequest]
  cases Handler.extractHttpVersion frame with
  | error e => exact Or.inl rfl
  | ok httpVersion =>
    cases hhandler : Handler.getHandler httpVersion with
    | none => simp [hhandler]
    | some handler =>
      simp only [hhandler]
      cases handler with
      | oneZero => exact Or.inr ⟨rfl, rfl⟩
      | oneOne =>
        left
        rcases OneOne.parseRequest_garbage bld garbage garbage' frame with
          hsame | ⟨code, hcode, hparse, hparse'⟩
        · simp only [Handler.parseRequest, hsame]
        · simp only [Handler.parseRequest, hparse, hparse', if_pos hcode]

/-- A request of which nothing was read is for no host. -/
theorem extractHost_fresh (garbage : Method) : extractHost (.fresh garbage) =
    .error (.invalidArgument (lit
      "Invalid Request-URI parameter in the request, could not detect a valid format.")) := by
  have hsame : extractHost (.fresh garbage) = extractHost (.fresh .mGet) := rfl
  rw [hsame]
  decide

/-- The bytes are parsed to a request for a host, whatever method was in memory before. -/
structure ParsedFor (bld : Build) (frame : Bytes) (request : HttpRequest) (host : Host) : Prop where
  parsed : ∀ garbage, parseRequest bld garbage frame = .ok request
  hosted : extractHost request = .ok host

namespace ParsedFor

variable {bld : Build} {frame : Bytes} {request : HttpRequest} {host : Host}

/-- It is enough that they are parsed over one method. -/
theorem of_parsed (garbage : Method) (h : parseRequest bld garbage frame = .ok request)
    (hhost : extractHost request = .ok host) : ParsedFor bld frame request host := by
  refine ⟨?_, hhost⟩
  intro garbage'
  rcases parseRequest_garbage bld garbage garbage' frame with hsame | ⟨hfresh, -⟩
  · rw [← hsame, h]
  · obtain rfl := Except.ok.inj (h.symm.trans hfresh)
    rw [extractHost_fresh] at hhost
    contradiction

/-- Nothing is read of a request of the older version, so it is for no host. -/
theorem version (h : ParsedFor bld frame request host) :
    request.httpVersion = OneOne.httpVersion := by
  rcases (parseRequest_ok bld .mGet frame request (h.parsed .mGet)).2 with
    ⟨hone, hbody⟩ | ⟨-, rfl⟩
  · obtain ⟨method, uri, version, hsplit, -, hline⟩ := oneOne_line bld frame _ request hbody
    obtain ⟨-, hversion⟩ := splitRequestLine_spaces _ method uri version hsplit hone
    simp only [lineOf, Prod.mk.injEq] at hline
    rw [hline.2.2, hversion]
  · have hhost := h.hosted
    rw [extractHost_fresh] at hhost
    contradiction

theorem handler (h : ParsedFor bld frame request host) :
    Handler.getHandler request.httpVersion = some .oneOne := by
  rw [h.version]
  exact if_pos rfl

end ParsedFor

open OneOne

/-- What is parsed from a head that a client writes. -/
def writtenRequest (method uri : Bytes) (headers : List (Bytes × Bytes)) : HttpRequest :=
  { recordAll (withRequestLine (.fresh .mGet) method uri) headers with messageBody := [] }

theorem writtenRequest_line (method uri : Bytes) (headers : List (Bytes × Bytes)) :
    (writtenRequest method uri headers).method = .cast (METHODS.findIdx (· = method)) ∧
      (writtenRequest method uri headers).requestUri = uri := by
  have hline := lineOf_recordAll (withRequestLine (.fresh .mGet) method uri) headers
  simp only [lineOf, Prod.mk.injEq] at hline
  exact ⟨hline.1, hline.2.1⟩

/-- A path with a `Host` header among any others names the host. -/
theorem writtenRequest_named (host : Host) (method rest value : Bytes)
    (headers : List (Bytes × Bytes)) (hrest : LF ∉ rest ∧ CR ∉ rest)
    (hvalue : Assoc.find (lit "Host") headers = some value) (hwritten : host.Written value) :
    NamedBy host (writtenRequest method (slash :: rest) headers) := by
  have hlisted : lit "Host" ∈ REQUEST_HEADER := by decide
  obtain ⟨-, hfind, -⟩ := recordAll_find (withRequestLine (.fresh .mGet) method (slash :: rest))
    headers (lit "Host")
  rw [if_pos hlisted, hvalue] at hfind
  exact Or.inl ⟨rest, (writtenRequest_line method _ headers).2, hrest, value, hfind, hwritten⟩

/-- A head that a client writes, its headers in one line each, is parsed for the host that it
names. -/
theorem ParsedFor.written (bld : Build) (hadj : ¬bld.Adjacent) (method uri : Bytes)
    (headers : List (Bytes × Bytes)) (hm : method ∈ METHODS) (hu : ∀ c ∈ uri, isSpace c = false)
    (hw : WellFormed headers) (host : Host) (hname : HostName host.name)
    (hnamed : NamedBy host (writtenRequest method uri headers)) :
    ParsedFor bld (requestHead method uri headers) (writtenRequest method uri headers) host where
  parsed garbage := parseRequest_wellFormed bld hadj garbage method uri headers hm hu hw
  hosted := extractHost_named host hname _ hnamed

end HttpService

end HttpCpp
