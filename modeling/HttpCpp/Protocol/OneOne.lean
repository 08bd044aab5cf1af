import HttpCpp.Framework.StringStream
import HttpCpp.Protocol.Structure

namespace HttpCpp
namespace OneOne

def httpVersion : Bytes := lit "HTTP/1.1"

/-- `boost::split` at white space, then one empty last token is dropped. -/
def splitRequestLine (requestLine : Bytes) : List Bytes :=
  let requestLineSplit := requestLine.splitOnP isSpace
  if requestLineSplit.getLast? = some [] then requestLineSplit.dropLast else requestLineSplit

/-- The three-way dispatch of a header. The third test compares a pointer into
`ENTITY_HEADER` with the end of `REQUEST_HEADER`, as the source does. -/
def storeHeader (bld : Build) (r : HttpRequest) (header property : Bytes) :
    Except Fault HttpRequest :=
  let generalIter := arrayFind bld.generalHeader GENERAL_HEADER header
  let requestIter := arrayFind bld.requestHeader REQUEST_HEADER header
  let entityIter := arrayFind bld.entityHeader ENTITY_HEADER header
  if generalIter ≠ arrayEnd bld.generalHeader GENERAL_HEADER then
    .ok { r with generalHeader := r.generalHeader.emplace header property }
  else if requestIter ≠ arrayEnd bld.requestHeader REQUEST_HEADER then
    .ok { r with requestHeader := r.requestHeader.emplace header property }
  else if entityIter ≠ arrayEnd bld.requestHeader REQUEST_HEADER then
    .ok { r with entityHeader := r.entityHeader.emplace header property }
  else
    match bld.assert false with
    | .error e => .error e
    | .ok _ => .ok r

/-- The body of the header loop; a `continue` returns the request unchanged. -/
def parseHeaderLine (bld : Build) (r : HttpRequest) (line : Bytes) : Except Fault HttpRequest :=
  match line.findIdx? (· = colon) with
  | none => .ok r
  | some colonPosition =>
    if line.length < 2 then .ok r
    else
      let line := popBack CR (popBack LF line)
      let header := line.take colonPosition
      match substr line (colonPosition + 2) with
      | .error e => .error e
      | .ok property => storeHeader bld r header property

/-- The body of `http_protocol_one_one::parse_request`. -/
def parseRequestBody (bld : Build) (request : Bytes) (structuredRequest : HttpRequest) :
    Except Fault (ParsingStatus × HttpRequest) :=
  if request.isEmpty then .ok (.emptyRequest, structuredRequest)
  else
    let (requestLine, input) := (StringStream.ofString request).getline
    match splitRequestLine (requestLine.getD []) with
    | [rawMethod, rawRequestUri, rawHttpVersion] =>
      let findIndex := METHODS.findIdx (· = rawMethod)
      if findIndex = METHODS.length then .ok (.invalidRequestLine, structuredRequest)
      else
        let structuredRequest := { structuredRequest with
          method := .cast findIndex, requestUri := rawRequestUri, httpVersion := rawHttpVersion }
        match StringStream.forLines (parseHeaderLine bld) (request.length + 1) input
            structuredRequest with
        | .error e => .error e
        | .ok (r, input) =>
          .ok (.success, { r with messageBody := StringStream.remainder request input })
    | _ => .ok (.invalidRequestLine, structuredRequest)

/-- `http_protocol_one_one::parse_request`, declared `noexcept`. -/
def parseRequest (bld : Build) (request : Bytes) (structuredRequest : HttpRequest) :
    Except Fault (ParsingStatus × HttpRequest) :=
  noexcept (parseRequestBody bld request structuredRequest)

/-- The first line of a request, and what stands after its line feed. -/
def requestLineOf (request : Bytes) : Bytes := before LF request
def afterRequestLine (request : Bytes) : Bytes := (onward LF request).tail

theorem requestLineOf_cut (a b : Bytes) (ha : LF ∉ a) : requestLineOf (a ++ LF :: b) = a :=
  before_cut LF a b ha

theorem afterRequestLine_cut (a b : Bytes) (ha : LF ∉ a) : afterRequestLine (a ++ LF :: b) = b := by
  simp [afterRequestLine, onward_cut LF a b ha]

/-- The headers recorded from a request and the body, in terms of its lines. -/
def parseFields (bld : Build) (rest : Bytes) (r : HttpRequest) :
    Except Fault (ParsingStatus × HttpRequest) :=
  ((StringStream.lineBlock rest).foldlM (parseHeaderLine bld) r).map fun r =>
    (.success, { r with messageBody := StringStream.afterBlock rest })

theorem parseFields_ok_iff (bld : Build) (rest : Bytes) (r : HttpRequest) :
    (∃ out, parseFields bld rest r = .ok out) ↔
      ∃ s, (StringStream.lineBlock rest).foldlM (parseHeaderLine bld) r = .ok s := by
  unfold parseFields
  cases (StringStream.lineBlock rest).foldlM (parseHeaderLine bld) r <;> simp [Except.map]

/-- The header loop and the body slice, started where the request line has been read. -/
theorem forLines_fields (bld : Build) (consumed rest : Bytes) (r : HttpRequest) (fuel : Nat)
    (hf : rest.length < fuel) :
    (match StringStream.forLines (parseHeaderLine bld) fuel
        ⟨consumed.length, rest, false, false⟩ r with
      | .error e => .error e
      | .ok (r, input) => .ok (.success,
          { r with messageBody := StringStream.remainder (consumed ++ rest) input })) =
      parseFields bld rest r := by
  have h := StringStream.forLines_eq (parseHeaderLine bld) fuel consumed rest r hf
  unfold parseFields
  cases hl : StringStream.forLines (parseHeaderLine bld) fuel
      ⟨consumed.length, rest, false, false⟩ r with
  | error e =>
    cases hr : (StringStream.lineBlock rest).foldlM (parseHeaderLine bld) r with
    | error e' => simpa [hl, hr, Except.map] using h
    | ok r' => simp [hl, hr, Except.map] at h
  | ok s =>
    cases hr : (StringStream.lineBlock rest).foldlM (parseHeaderLine bld) r with
    | error e' => simp [hl, hr, Except.map] at h
    | ok r' =>
      simp only [hl, hr, Except.map, Except.ok.injEq, Prod.mk.injEq] at h
      simp [Except.map, h.1, h.2]

/-- `parse_request` as a function of the request's lines. -/
theorem parseRequestBody_eq (bld : Build) (request : Bytes) (r : HttpRequest)
    (hne : request ≠ []) :
    parseRequestBody bld request r =
      match splitRequestLine (requestLineOf request) with
      | [rawMethod, rawRequestUri, rawHttpVersion] =>
        if rawMethod ∈ METHODS then
          parseFields bld (afterRequestLine request)
            { r with
              method := .cast (METHODS.findIdx (· = rawMethod))
              requestUri := rawRequestUri
              httpVersion := rawHttpVersion }
        else .ok (.invalidRequestLine, r)
      | _ => .ok (.invalidRequestLine, r) := by
  have hfind (x : Bytes) : METHODS.findIdx (· = x) = METHODS.length ↔ x ∉ METHODS := by
    simpa [arrayFind, arrayEnd] using arrayFind_eq_end 0 METHODS x
  have hempty : request.isEmpty = false := by simpa using hne
  rcases cut_cases LF request with hl | ⟨a, b, rfl, ha⟩
  · have hget := StringStream.getline_uncut 0 request hl hne
    have hrest : afterRequestLine request = [] := by
      simp [afterRequestLine, onward_uncut LF request hl]
    simp only [parseRequestBody, hempty, Bool.false_eq_true, if_false, StringStream.ofString, hget,
      Option.getD_some, requestLineOf, before_uncut LF request hl, hrest, hfind]
    split
    · simp only [ite_not]
      split_ifs
      · simp [StringStream.forLines, StringStream.getline_spent, StringStream.remainder_spent,
          parseFields, StringStream.lineBlock_nil, StringStream.afterBlock_uncut, Except.map,
          pure, Except.pure]
      · rfl
    · rfl
  · have hget := StringStream.getline_cut 0 a b ha
    have hpos : 0 + a.length + 1 = (a ++ [LF]).length := by simp
    have hwhole : a ++ LF :: b = (a ++ [LF]) ++ b := by simp
    have hfuel : b.length < (a ++ LF :: b).length + 1 := by simp; omega
    simp only [parseRequestBody, hempty, Bool.false_eq_true, if_false, StringStream.ofString, hget,
      Option.getD_some, requestLineOf, before_cut LF a b ha, afterRequestLine_cut a b ha, hfind]
    split
    · simp only [ite_not]
      split_ifs
      · rw [hpos, ← forLines_fields bld (a ++ [LF]) b _ _ hfuel, ← hwhole]
      · rfl
    · rfl

end OneOne
end HttpCpp
