import HttpCpp.Framework.Decimal
import HttpCpp.Protocol.Handler

namespace HttpCpp

/-- `http_constants::status`: any value of the underlying `uint16_t`, enumerator or not. -/
abbrev Status := Fin 65536

namespace Status

def httpUnknown : Status := ⟨0, by decide⟩
def httpOk : Status := ⟨200, by decide⟩
def httpBadRequest : Status := ⟨400, by decide⟩
def httpNotFound : Status := ⟨404, by decide⟩
def httpInternalServerError : Status := ⟨500, by decide⟩

/-- The enumerators, each with its reason phrase. -/
def reasonPhrases : List (Nat × Bytes) :=
  [(0, lit "Unknown"), (100, lit "Continue"), (101, lit "Switching Protocols"), (200, lit "OK"),
    (201, lit "Created"), (202, lit "Accepted"), (203, lit "Non-Authoritative Information"),
    (204, lit "No Content"), (205, lit "Reset Content"), (206, lit "Partial Content"),
    (300, lit "Multiple Choices"), (301, lit "Moved Permanently"), (302, lit "Found"),
    (303, lit "See Other"), (304, lit "Not Modified"), (305, lit "Use Proxy"),
    (307, lit "Temporary Redirect"), (400, lit "Bad Request"), (401, lit "Unauthorized"),
    (402, lit "Payment Required"), (403, lit "Forbidden"), (404, lit "Not Found"),
    (405, lit "Method Not Allowed"), (406, lit "Not Acceptable"),
    (407, lit "Proxy Authentication Required"), (408, lit "Request Time-out"),
    (409, lit "Conflict"), (410, lit "Gone"), (411, lit "Length Required"),
    (412, lit "Precondition Failed"), (413, lit "Request Entity Too Large"),
    (414, lit "Request-URI Too Large"), (415, lit "Unsupported Media Type"),
    (416, lit "Requested range not satisfiable"), (417, lit "Expectation Failed"),
    (500, lit "Internal Server Error"), (501, lit "Not Implemented"), (502, lit "Bad Gateway"),
    (503, lit "Service Unavailable"), (504, lit "Gateway Time-out"),
    (505, lit "HTTP Version not supported")]

def reasonPhrase (code : Status) : Except Fault Bytes :=
  match Assoc.find code.val reasonPhrases with
  | some phrase => .ok phrase
  | none => .error (.invalidArgument (lit "The HTTP status code provided is invalid."))

/-- The value is an enumerator. -/
def Known (code : Status) : Prop := code.val ∈ reasonPhrases.map Prod.fst

instance (code : Status) : Decidable (Known code) := inferInstanceAs (Decidable (_ ∈ _))

theorem reasonPhrase_known (code : Status) (h : Known code) :
    ∃ phrase, reasonPhrase code = .ok phrase := by
  cases hfind : Assoc.find code.val reasonPhrases with
  | some phrase => exact ⟨phrase, by simp [reasonPhrase, hfind]⟩
  | none =>
    obtain ⟨e, he, hcode⟩ := List.mem_map.mp h
    exact absurd hcode.symm ((Assoc.find_none _ _).mp hfind e he)

theorem reasonPhrase_unknown (code : Status) (h : ¬Known code) :
    reasonPhrase code =
      .error (.invalidArgument (lit "The HTTP status code provided is invalid.")) := by
  have hnone : Assoc.find code.val reasonPhrases = none := by
    apply (Assoc.find_none _ _).mpr
    intro e he hcode
    exact h (List.mem_map.mpr ⟨e, he, hcode.symm⟩)
  simp [reasonPhrase, hnone]

end Status

structure GenericResponse where
  statusCode : Status
  header : HeaderMap
  messageBody : Bytes
  messageBodyComplete : Bool
  deriving DecidableEq

/-- A default-initialised `generic_response`; `garbage` is its uninitialised status code. -/
def GenericResponse.fresh (garbage : Status) : GenericResponse := ⟨garbage, .empty, [], true⟩

structure HttpResponse where
  httpVersion : Bytes
  statusCode : Status
  generalHeader : HeaderMap
  responseHeader : HeaderMap
  entityHeader : HeaderMap
  messageBody : Bytes
  deriving DecidableEq

namespace HttpResponse

def DEFAULT_HTTP_VERSION : Bytes := lit "HTTP/1.1"

/-- A default-initialised `http_response`; `garbage` is its uninitialised status code. -/
def fresh (garbage : Status) : HttpResponse :=
  ⟨DEFAULT_HTTP_VERSION, garbage, .empty, .empty, .empty, []⟩

def ofGeneric (gresponse : GenericResponse) (httpVersion : Bytes) : HttpResponse :=
  ⟨httpVersion, gresponse.statusCode, .empty, .empty, .empty, gresponse.messageBody⟩

/-- `operator<<`. -/
def serialize (response : HttpResponse) : Except Fault Bytes :=
  match response.statusCode.reasonPhrase with
  | .error e => .error e
  | .ok phrase => .ok (response.httpVersion ++ SP :: decimalText response.statusCode.val ++
      SP :: phrase ++ CRLF ++ emitHeaders response.generalHeader.entries ++
      emitHeaders response.responseHeader.entries ++ emitHeaders response.entityHeader.entries ++
      CRLF ++ response.messageBody)

/-- A response is written when its status is an enumerator, and then it is not empty. -/
theorem serialize_known (response : HttpResponse) (h : response.statusCode.Known) :
    ∃ bytes, response.serialize = .ok bytes ∧ bytes ≠ [] := by
  obtain ⟨phrase, hphrase⟩ := Status.reasonPhrase_known _ h
  simp only [serialize, hphrase]
  refine ⟨_, rfl, ?_⟩
  simp

theorem serialize_unknown (response : HttpResponse) (h : ¬response.statusCode.Known) :
    response.serialize =
      .error (.invalidArgument (lit "The HTTP status code provided is invalid.")) := by
  simp [serialize, Status.reasonPhrase_unknown _ h]

end HttpResponse

/-- The body both handlers' `make_response` share; `date` is the text of `http_date()`. -/
def makeResponse (httpVersion date : Bytes) (gresponse : GenericResponse) : HttpResponse :=
  let response := HttpResponse.ofGeneric gresponse httpVersion
  let headers := gresponse.header.entries.foldl
    (fun headers headerValue => headers.assign headerValue.1 headerValue.2)
    response.responseHeader
  { response with
    responseHeader := headers.assign (lit "Server") (lit "http-cpp v0.1")
    generalHeader := response.generalHeader.assign (lit "Date") date }

theorem makeResponse_find (httpVersion date : Bytes) (gresponse : GenericResponse) (name : Bytes) :
    (makeResponse httpVersion date gresponse).responseHeader.find name =
      if name = lit "Server" then some (lit "http-cpp v0.1") else gresponse.header.find name := by
  have hall := StdMap.find_assignAll StdMap.empty gresponse.header.entries
    gresponse.header.sorted name
  simp only [makeResponse, HttpResponse.ofGeneric]
  split_ifs with hname
  · rw [hname, StdMap.find_assign]
  · rw [StdMap.find_assign_ne _ _ _ _ hname, hall, StdMap.find_empty, Option.or_none]
    rfl

namespace Handler

def makeResponse (date : Bytes) (gresponse : GenericResponse) : Handler → HttpResponse
  | .oneOne => HttpCpp.makeResponse OneOne.httpVersion date gresponse
  | .oneZero => HttpCpp.makeResponse OneZero.httpVersion date gresponse

theorem makeResponse_statusCode (date : Bytes) (gresponse : GenericResponse) (handler : Handler) :
    (handler.makeResponse date gresponse).statusCode = gresponse.statusCode := by
  cases handler <;> rfl

end Handler

end HttpCpp
