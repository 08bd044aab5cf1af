import HttpCpp.Protocol.Handler
import HttpCpp.Protocol.ParseSafety
import HttpCpp.Protocol.RequestHead

namespace HttpCpp
namespace HttpService

/-- `http_service::parse_request`; `garbage` is the method of the uninitialised request. -/
def parseRequest (bld : Build) (garbage : Method) (request : Bytes) : Except Fault HttpRequest :=
  match Handler.extractHttpVersion request with
  | .error e => .error e
  | .ok httpVersion =>
    match Handler.getHandler httpVersion with
    | none => .error (.httpInvalidRequest (lit "Invalid request."))
    | some handler =>
      match handler.parseRequest bld request (.fresh garbage) with
      | .error e => .error e
      | .ok (code, structuredRequest) =>
        if code ≠ .success then .error (.httpInvalidRequest (lit "Invalid request."))
        else .ok structuredRequest

open OneOne

/-- A head written for `HTTP/1.1` goes to that version's handler. -/
theorem parseRequest_requestHead (bld : Build) (garbage : Method) (method uri : Bytes)
    (headers : List (Bytes × Bytes)) (body : Bytes) (hm : method ∈ METHODS)
    (hu : ∀ c ∈ uri, isSpace c = false) (r : HttpRequest)
    (h : OneOne.parseRequest bld (requestHead method uri headers ++ body) (.fresh garbage) =
      .ok (.success, r)) :
    parseRequest bld garbage (requestHead method uri headers ++ body) = .ok r := by
  have hlf := lf_notMem_requestLine method uri hm hu
  have hassoc : requestHead method uri headers ++ body =
      method ++ SP :: (uri ++ SP :: httpVersion) ++ [CR] ++
        LF :: (emitHeaders headers ++ CRLF ++ body) := by
    simp [requestHead, requestLine, CRLF]
  have hsp : isSpace SP = true := by decide
  have hversion := Handler.extractHttpVersion_line method uri httpVersion
    (emitHeaders headers ++ CRLF ++ body)
    (notMem_of_unspaced method SP hsp (methods_unspaced method hm))
    (notMem_of_unspaced uri SP hsp hu) hlf
  rw [← hassoc] at hversion
  have hhandler : Handler.getHandler httpVersion = some .oneOne := if_pos rfl
  simp only [parseRequest, hversion, hhandler, Handler.parseRequest, h]
  rfl

/-- The first line has a space when it is not empty, and no header line stops the parser that its
version selects. -/
def ParseEnds (bld : Build) (request : Bytes) : Prop :=
  (requestLineOf request = [] ∨ SP ∈ Handler.versionLine request) ∧
    ¬(Handler.versionToken (Handler.versionLine request) = OneOne.httpVersion ∧
      RequestLineAccepted request ∧
        ∃ line ∈ headerLines request, EndsAtColon line ∨ LineFires bld line)

/-- Parsing comes to an end, with a request or an exception, exactly when the process survives
it. -/
theorem parseRequest_ends_iff (bld : Build) (garbage : Method) (request : Bytes) :
    (∀ e, parseRequest bld garbage request = .error e → e.isException) ↔
      ParseEnds bld request := by
  simp only [parseRequest, Handler.extractHttpVersion_eq, ParseEnds]
  by_cases hempty : requestLineOf request = []
  · have hversion : Handler.versionToken (Handler.versionLine request) = [] := by
      rw [Handler.versionLine, hempty]
      rfl
    have hnot : Handler.versionToken (Handler.versionLine request) ≠ OneOne.httpVersion := by
      rw [hversion]
      decide
    have hnone : Handler.getHandler [] = none := by decide
    simp [hempty, hnot, hnone, Fault.isException]
  · by_cases hspace : SP ∈ Handler.versionLine request
    · rw [if_neg hempty, if_pos hspace]
      simp only [hempty, hspace, or_true, true_and, Handler.getHandler]
      by_cases hone : Handler.versionToken (Handler.versionLine request) = OneOne.httpVersion
      · have hbody := parseRequestBody_ok_iff bld request (.fresh garbage)
        simp only [hone, if_true, true_and, ← hbody, Handler.parseRequest, OneOne.parseRequest]
        cases hrun : parseRequestBody bld request (.fresh garbage) with
        | error e => cases e <;> simp [noexcept, Fault.isException]
        | ok out =>
          obtain ⟨code, r⟩ := out
          by_cases hcode : code = .success <;> simp [noexcept, hcode, Fault.isException]
      · simp only [hone, if_false, false_and, not_false_eq_true, iff_true]
        by_cases hzero : Handler.versionToken (Handler.versionLine request) = OneZero.httpVersion
        · simp [hzero, Handler.parseRequest, OneZero.parseRequest]
        · simp [hzero, Fault.isException]
    · simp [hempty, hspace, Fault.isException]

/-- Reading the version of the first line is defined. -/
def SpacedLine (request : Bytes) : Prop :=
  requestLineOf request = [] ∨ SP ∈ Handler.versionLine request

instance (request : Bytes) : Decidable (SpacedLine request) := inferInstanceAs (Decidable (_ ∨ _))

/-- A header line of an accepted request of version 1.1 stops the parser. -/
def HeaderStops (bld : Build) (request : Bytes) : Prop :=
  Handler.versionToken (Handler.versionLine request) = OneOne.httpVersion ∧
    RequestLineAccepted request ∧
      ∃ line ∈ headerLines request, EndsAtColon line ∨ LineFires bld line

/-- Where nothing is undefined, it is only a header line that keeps parsing from its end. -/
theorem parseEnds_spaced (bld : Build) (request : Bytes) (h : SpacedLine request) :
    ParseEnds bld request ↔ ¬HeaderStops bld request :=
  and_iff_right h

end HttpService
end HttpCpp
