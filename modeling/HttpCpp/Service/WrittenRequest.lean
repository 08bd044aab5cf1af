import HttpCpp.Framework.LetterCase
import HttpCpp.Service.HeaderValue

namespace HttpCpp
namespace HttpService

open OneOne StringStream

/-- A well-formed request of version 1.1. At most one of its headers is a `Host`, in whatever
letters. -/
structure WrittenRequest where
  method : Bytes
  uri : Bytes
  headers : List (Bytes × Bytes)
  body : Bytes
  method_mem : method ∈ METHODS
  uri_unspaced : ∀ c ∈ uri, isSpace c = false
  wellFormed : WellFormed headers
  hostOnce : (headers.filter fun h => SameLetters h.1 (lit "Host")).length ≤ 1

namespace WrittenRequest

def text (w : WrittenRequest) : Bytes := requestHead w.method w.uri w.headers ++ w.body

/-- The headers that are read from the beginning of the body. -/
def bodyHeaders (w : WrittenRequest) : List (Bytes × Bytes) :=
  (lineBlock w.body).filterMap lineHeader

/-- The loop reads all that is written as headers, and more from the body. -/
theorem firstValue_text (w : WrittenRequest) (name : Bytes) :
    firstValue name (headerLines w.text) = Assoc.find name (w.headers ++ w.bodyHeaders) := by
  have hlf := lf_notMem_requestLine w.method w.uri w.method_mem w.uri_unspaced
  have hlines := headLines_mem w.headers w.wellFormed
  have hheads : (headLines w.headers).filterMap lineHeader = w.headers := by
    have hcr : lineHeader [CR] = none := by decide
    have hwritten : ∀ h ∈ w.headers, lineHeader (headerLine h) = some h := by
      intro h hh
      exact lineHeader_fieldLine h.1 1 h.2 (w.wellFormed h hh).1
    rw [headLines, List.filterMap_append, List.filterMap_map,
      List.filterMap_cons_none hcr, List.filterMap_nil, List.append_nil]
    exact (List.filterMap_congr hwritten).trans List.filterMap_some
  rw [firstValue, text, requestHead_cut, headerLines, afterRequestLine_cut _ _ hlf,
    lineBlock_writeLines _ w.body hlines, List.filterMap_append, hheads, bodyHeaders]

theorem versionLine_text (w : WrittenRequest) :
    Handler.versionLine w.text = requestLine w.method w.uri := by
  have hlf := lf_notMem_requestLine w.method w.uri w.method_mem w.uri_unspaced
  rw [Handler.versionLine, text, requestHead_cut, requestLineOf_cut _ _ hlf, popBack_append_self]

/-- A written request is found by its Request-URI, and by the first value among its headers and
those read from its body. -/
theorem parseRequest_host (bld : Build) (garbage : Method) (w : WrittenRequest) (r : HttpRequest)
    (h : parseRequest bld garbage w.text = .ok r) :
    r.requestUri = w.uri ∧
      r.requestHeader.find (lit "Host") = Assoc.find (lit "Host") (w.headers ++ w.bodyHeaders) := by
  rw [← firstValue_text]
  exact parseRequest_read bld garbage w.text r h w.method w.uri w.method_mem w.uri_unspaced
    w.versionLine_text

/-- A written request is not turned away: its parsing does not come to an end, or it is parsed. -/
theorem parseRequest_ended (bld : Build) (garbage : Method) (w : WrittenRequest)
    (h : ParseEnds bld w.text) : ∃ r, parseRequest bld garbage w.text = .ok r := by
  have hversion : Handler.versionToken (Handler.versionLine w.text) = OneOne.httpVersion := by
    rw [versionLine_text]
    exact versionToken_requestLine w.method w.uri w.method_mem w.uri_unspaced
  have hsplit := splitRequestLine_versionLine w.text w.method w.uri w.method_mem w.uri_unspaced
    w.versionLine_text
  have haccepted : RequestLineAccepted w.text := ⟨_, _, _, hsplit, w.method_mem⟩
  have hlines : ∀ line ∈ headerLines w.text, ¬(EndsAtColon line ∨ LineFires bld line) :=
    fun line hl hbad => h.2 ⟨hversion, haccepted, line, hl, hbad⟩
  rcases parseRequest_oneOne bld garbage w.text hversion fun _ => hlines with
    ⟨-, r, hr, -⟩ | hreject
  · exact ⟨r, hr⟩
  · exact absurd haccepted hreject.1

end WrittenRequest

end HttpService
end HttpCpp
