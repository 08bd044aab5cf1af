import HttpCpp.Service.RequestLine

namespace HttpCpp
namespace HttpService

open OneOne

/-- A method, a Request-URI without white space and the version 1.1, at single spaces. -/
def InGrammar (line : Bytes) : Prop :=
  ∃ method ∈ METHODS, ∃ uri, uri ≠ [] ∧ (∀ c ∈ uri, isSpace c = false) ∧
    line = requestLine method uri

theorem versionToken_requestLine (method uri : Bytes) (hm : method ∈ METHODS)
    (hu : ∀ c ∈ uri, isSpace c = false) :
    Handler.versionToken (requestLine method uri) = OneOne.httpVersion := by
  have hsp : isSpace SP = true := by decide
  exact Handler.versionToken_cut method uri _
    (notMem_of_unspaced method SP hsp (methods_unspaced method hm))
    (notMem_of_unspaced uri SP hsp hu)

/-- A first line in which a version is found is not empty and has a space. -/
theorem extractHttpVersion_token (request : Bytes)
    (h : Handler.versionToken (Handler.versionLine request) ≠ []) :
    Handler.extractHttpVersion request =
      .ok (Handler.versionToken (Handler.versionLine request)) := by
  have hline : requestLineOf request ≠ [] := by
    intro hempty
    rw [Handler.versionLine, hempty] at h
    exact h rfl
  have hspace : SP ∈ Handler.versionLine request := by
    obtain ⟨a, b, hcut, -⟩ := Handler.versionToken_cases _ h
    rw [hcut]
    simp
  rw [Handler.extractHttpVersion_eq, if_neg hline, if_pos hspace]

/-- A first line that is a request line is cut into its three tokens. -/
theorem splitRequestLine_versionLine (request method uri : Bytes) (hm : method ∈ METHODS)
    (hu : ∀ c ∈ uri, isSpace c = false)
    (h : Handler.versionLine request = requestLine method uri) :
    splitRequestLine (requestLineOf request) = [method, uri, OneOne.httpVersion] := by
  rw [splitRequestLine_pieces (requestLineOf request) method uri h,
    List.splitOnP_eq_singleton (methods_unspaced method hm), List.splitOnP_eq_singleton hu]
  rfl

/-- The parser accepts a first line of version 1.1 when it has a method and a Request-URI without
white space, which may be empty. -/
theorem requestLineAccepted_iff (request : Bytes)
    (h : Handler.versionToken (Handler.versionLine request) = OneOne.httpVersion) :
    RequestLineAccepted request ↔
      ∃ method ∈ METHODS, ∃ uri, (∀ c ∈ uri, isSpace c = false) ∧
        Handler.versionLine request = requestLine method uri := by
  have hne : Handler.versionToken (Handler.versionLine request) ≠ [] := by
    rw [h]
    decide
  obtain ⟨a, b, hline, -, -⟩ := Handler.versionToken_cases _ hne
  rw [h] at hline
  have hpieces := splitRequestLine_pieces (requestLineOf request) a b hline
  constructor
  · intro haccepted
    obtain ⟨method, uri, version, hsplit, hm⟩ := haccepted
    rw [hpieces] at hsplit
    obtain ⟨hmethod, huri, -⟩ := three_pieces a b _ method uri version hsplit
    obtain ⟨rfl, -⟩ := (splitOnP_single_iff isSpace a method).mp hmethod
    obtain ⟨rfl, hunspaced⟩ := (splitOnP_single_iff isSpace b uri).mp huri
    exact ⟨a, hm, b, hunspaced, hline⟩
  · intro hgrammar
    obtain ⟨method, hm, uri, hu, hwritten⟩ := hgrammar
    exact ⟨method, uri, _, splitRequestLine_versionLine request method uri hm hu hwritten, hm⟩

/-- A request of version 1.1 is returned when its first line is accepted, and is invalid when it is
not. -/
theorem parseRequest_oneOne (bld : Build) (garbage : Method) (request : Bytes)
    (hversion : Handler.versionToken (Handler.versionLine request) = OneOne.httpVersion)
    (hlines : RequestLineAccepted request →
      ∀ line ∈ headerLines request, ¬(EndsAtColon line ∨ LineFires bld line)) :
    (RequestLineAccepted request ∧ ∃ r, parseRequest bld garbage request = .ok r ∧
        r.httpVersion = OneOne.httpVersion) ∨
      ¬RequestLineAccepted request ∧
        parseRequest bld garbage request =
          .error (.httpInvalidRequest (lit "Invalid request.")) := by
  have hne : Handler.versionToken (Handler.versionLine request) ≠ [] := by
    rw [hversion]
    decide
  have hextract : Handler.extractHttpVersion request = .ok OneOne.httpVersion :=
    hversion ▸ extractHttpVersion_token request hne
  have hhandler : Handler.getHandler OneOne.httpVersion = some .oneOne := if_pos rfl
  have hsuccess := oneOne_success_iff bld request (.fresh garbage)
  by_cases haccepted : RequestLineAccepted request
  · obtain ⟨r, hbody⟩ := hsuccess.mpr ⟨haccepted, hlines haccepted⟩
    obtain ⟨method, uri, version, hsplit, -, hkept⟩ := oneOne_line bld request _ r hbody
    obtain ⟨-, hv⟩ := splitRequestLine_spaces _ method uri version hsplit hversion
    simp only [lineOf, Prod.mk.injEq] at hkept
    refine Or.inl ⟨haccepted, r, ?_, hkept.2.2.trans hv⟩
    simp [parseRequest, hextract, hhandler, Handler.parseRequest, OneOne.parseRequest,
      (noexcept_ok _ _).mpr hbody]
  · obtain ⟨⟨code, r⟩, hbody⟩ := (parseRequestBody_ok_iff bld request (.fresh garbage)).mpr
      fun h => haccepted h.1
    have hcode : code ≠ .success := by
      intro hcode
      exact haccepted (hsuccess.mp ⟨r, hcode ▸ hbody⟩).1
    refine Or.inr ⟨haccepted, ?_⟩
    simp [parseRequest, hextract, hhandler, Handler.parseRequest, OneOne.parseRequest,
      (noexcept_ok _ _).mpr hbody, hcode]

/-- Nothing is read of a request of version 1.0. -/
theorem parseRequest_oneZero (bld : Build) (garbage : Method) (request : Bytes)
    (hversion : Handler.versionToken (Handler.versionLine request) = OneZero.httpVersion) :
    parseRequest bld garbage request = .ok (.fresh garbage) := by
  have hne : Handler.versionToken (Handler.versionLine request) ≠ [] := by
    rw [hversion]
    decide
  have hextract : Handler.extractHttpVersion request = .ok OneZero.httpVersion :=
    hversion ▸ extractHttpVersion_token request hne
  have hhandler : Handler.getHandler OneZero.httpVersion = some .oneZero := by decide
  simp [parseRequest, hextract, hhandler, Handler.parseRequest, OneZero.parseRequest]

/-- Exactly the requests whose first line is in the grammar are returned with the version 1.1, and
of the others those that name this version are invalid. -/
structure ParsesGrammar (bld : Build) (garbage : Method) (request : Bytes) : Prop where
  accepts : (∃ r, parseRequest bld garbage request = .ok r ∧ r.httpVersion = OneOne.httpVersion) ↔
    InGrammar (Handler.versionLine request)
  rejects : Handler.versionToken (Handler.versionLine request) = OneOne.httpVersion →
    ¬InGrammar (Handler.versionLine request) →
    parseRequest bld garbage request = .error (.httpInvalidRequest (lit "Invalid request."))

theorem inGrammar_version (line : Bytes) (h : InGrammar line) :
    Handler.versionToken line = OneOne.httpVersion := by
  obtain ⟨method, hm, uri, -, hu, rfl⟩ := h
  exact versionToken_requestLine method uri hm hu

theorem emptyUri_notGrammar (method : Bytes) (hm : method ∈ METHODS) :
    ¬InGrammar (requestLine method []) := by
  intro h
  obtain ⟨method', hm', uri, hne, hu, hline⟩ := h
  have hsp : isSpace SP = true := by decide
  obtain ⟨-, hrest⟩ := cut_unique SP
    (notMem_of_unspaced method SP hsp (methods_unspaced method hm))
    (notMem_of_unspaced method' SP hsp (methods_unspaced method' hm')) hline
  obtain ⟨huri, -⟩ := cut_unique SP List.not_mem_nil (notMem_of_unspaced uri SP hsp hu) hrest
  exact hne huri.symm

/-- A request of another version is neither in the grammar nor returned with this one. -/
theorem parsesGrammar_other (bld : Build) (garbage : Method) (request : Bytes)
    (h : Handler.versionToken (Handler.versionLine request) ≠ OneOne.httpVersion) :
    ParsesGrammar bld garbage request := by
  have hnot := mt (inGrammar_version (Handler.versionLine request)) h
  refine ⟨iff_of_false ?_ hnot, fun hversion => absurd hversion h⟩
  intro hreturned
  obtain ⟨r, hparse, hr⟩ := hreturned
  obtain ⟨-, ⟨hone, -⟩ | ⟨-, rfl⟩⟩ := parseRequest_ok bld garbage request r hparse
  · exact h hone
  · have hempty : (HttpRequest.fresh garbage).httpVersion ≠ OneOne.httpVersion := by
      show [] ≠ OneOne.httpVersion
      decide
    exact hempty hr

theorem requestLineAccepted_grammar (request : Bytes)
    (hversion : Handler.versionToken (Handler.versionLine request) = OneOne.httpVersion)
    (h : ∀ method ∈ METHODS, Handler.versionLine request ≠ requestLine method []) :
    RequestLineAccepted request ↔ InGrammar (Handler.versionLine request) := by
  rw [requestLineAccepted_iff request hversion]
  constructor
  · intro hline
    obtain ⟨method, hm, uri, hu, hwritten⟩ := hline
    refine ⟨method, hm, uri, ?_, hu, hwritten⟩
    intro hempty
    exact h method hm (hempty ▸ hwritten)
  · intro hgrammar
    obtain ⟨method, hm, uri, -, hu, hwritten⟩ := hgrammar
    exact ⟨method, hm, uri, hu, hwritten⟩

/-- Where the remaining lines end no process, the parser accepts its grammar exactly when the first
line is not a method and the version with an empty Request-URI between them. -/
theorem parseRequest_grammar_iff (bld : Build) (garbage : Method) (request : Bytes)
    (hlines : RequestLineAccepted request →
      ∀ line ∈ headerLines request, ¬(EndsAtColon line ∨ LineFires bld line)) :
    ParsesGrammar bld garbage request ↔
      ∀ method ∈ METHODS, Handler.versionLine request ≠ requestLine method [] := by
  by_cases hversion : Handler.versionToken (Handler.versionLine request) = OneOne.httpVersion
  · have hparse := parseRequest_oneOne bld garbage request hversion hlines
    constructor
    · intro h method hm hempty
      have hnot : ¬InGrammar (Handler.versionLine request) := by
        rw [hempty]
        exact emptyUri_notGrammar method hm
      rcases hparse with ⟨-, hreturned⟩ | ⟨hrejected, -⟩
      · exact hnot (h.accepts.mp hreturned)
      · have hline := requestLineAccepted_iff request hversion
        exact hrejected (hline.mpr ⟨method, hm, [], by simp, hempty⟩)
    · intro h
      have hsame := requestLineAccepted_grammar request hversion h
      rcases hparse with ⟨haccept, hreturned⟩ | ⟨hreject, herror⟩
      · exact ⟨iff_of_true hreturned (hsame.mp haccept),
          fun _ hnot => absurd (hsame.mp haccept) hnot⟩
      · refine ⟨iff_of_false ?_ (mt hsame.mpr hreject), fun _ _ => herror⟩
        intro hreturned
        obtain ⟨r, hr, -⟩ := hreturned
        rw [herror] at hr
        contradiction
  · refine iff_of_true (parsesGrammar_other bld garbage request hversion) ?_
    intro method hm hempty
    rw [hempty] at hversion
    exact hversion (versionToken_requestLine method [] hm (by simp))

theorem parseRequest_grammar_get :
    ParsesGrammar plainBuild .mGet (lit "GET / HTTP/1.1\nHost: a\n\n") := by
  have hout : OneOne.parseRequest plainBuild (lit "GET / HTTP/1.1\nHost: a\n\n") (.fresh .mGet) =
      .ok (.success, ⟨.mGet, lit "/", lit "HTTP/1.1", .empty,
        StdMap.empty.emplace (lit "Host") (lit "a"), .empty, []⟩) := by
    decide
  have hsurvives := (parseRequest_survives_iff plainBuild _ _).mp ⟨_, hout⟩
  exact (parseRequest_grammar_iff plainBuild .mGet _ (fun haccepted line hl hbad =>
    hsurvives ⟨haccepted, line, hl, hbad⟩)).mpr (by decide)

/-- A request without a Request-URI is returned. -/
theorem parseRequest_emptyUri :
    (∃ r, parseRequest plainBuild .mHead (lit "GET  HTTP/1.1\r\n\r\n") = .ok r ∧
        r.httpVersion = OneOne.httpVersion) ∧
      ¬InGrammar (Handler.versionLine (lit "GET  HTTP/1.1\r\n\r\n")) := by
  refine ⟨⟨{ HttpRequest.fresh .mGet with httpVersion := lit "HTTP/1.1" }, by decide,
    by decide⟩, ?_⟩
  have hline : Handler.versionLine (lit "GET  HTTP/1.1\r\n\r\n") = requestLine (lit "GET") [] := by
    decide
  rw [hline]
  exact emptyUri_notGrammar (lit "GET") (by decide)

end HttpService
end HttpCpp
