import HttpCpp.Service.ParseRequest

namespace HttpCpp
namespace HttpService

open OneOne

/-- What a request keeps of its request line. -/
def lineOf (r : HttpRequest) : Method × Bytes × Bytes := (r.method, r.requestUri, r.httpVersion)

theorem storeHeader_line (bld : Build) (r s : HttpRequest) (header property : Bytes)
    (h : storeHeader bld r header property = .ok s) : lineOf s = lineOf r := by
  simp only [storeHeader] at h
  split_ifs at h with hgeneral hrequest hentity
  · rw [← Except.ok.inj h]
    rfl
  · rw [← Except.ok.inj h]
    rfl
  · rw [← Except.ok.inj h]
    rfl
  · cases hassert : bld.assert false with
    | error e => simp [hassert] at h
    | ok u =>
      simp only [hassert] at h
      rw [← Except.ok.inj h]

theorem parseHeaderLine_line (bld : Build) (r s : HttpRequest) (line : Bytes)
    (h : parseHeaderLine bld r line = .ok s) : lineOf s = lineOf r := by
  unfold parseHeaderLine at h
  split at h
  · rw [← Except.ok.inj h]
  · split_ifs at h with hshort
    · rw [← Except.ok.inj h]
    · dsimp only at h
      split at h
      · contradiction
      · exact storeHeader_line bld r s _ _ h

theorem headerLoop_line (bld : Build) (lines : List Bytes) (r s : HttpRequest)
    (h : lines.foldlM (parseHeaderLine bld) r = .ok s) : lineOf s = lineOf r := by
  induction lines generalizing r with
  | nil => rw [← Except.ok.inj h]
  | cons line lines ih =>
    rw [List.foldlM_cons] at h
    cases hstep : parseHeaderLine bld r line with
    | error e => simp [hstep, bind, Except.bind] at h
    | ok r' =>
      rw [hstep] at h
      have hrest := ih r' h
      rw [hrest, parseHeaderLine_line bld r r' line hstep]

/-- A request that is parsed with success is what the header loop leaves of the three tokens that
white space cuts the first line into, with the body. -/
theorem oneOne_loop (bld : Build) (request : Bytes) (r₀ r : HttpRequest)
    (h : parseRequestBody bld request r₀ = .ok (.success, r)) :
    ∃ method uri version s, splitRequestLine (requestLineOf request) = [method, uri, version] ∧
      method ∈ METHODS ∧
      (headerLines request).foldlM (parseHeaderLine bld) { r₀ with
        method := .cast (METHODS.findIdx (· = method))
        requestUri := uri
        httpVersion := version } = .ok s ∧
      r = { s with messageBody := StringStream.afterBlock (afterRequestLine request) } := by
  have hne : request ≠ [] := by
    intro hempty
    subst hempty
    simp [parseRequestBody] at h
  rw [parseRequestBody_eq bld request r₀ hne] at h
  split at h
  · rename_i method uri version hsplit
    split_ifs at h with hm
    · unfold parseFields at h
      cases hloop : (StringStream.lineBlock (afterRequestLine request)).foldlM
          (parseHeaderLine bld) { r₀ with
            method := .cast (METHODS.findIdx (· = method))
            requestUri := uri
            httpVersion := version } with
      | error e => simp [hloop, Except.map] at h
      | ok s =>
        simp only [hloop, Except.map, Except.ok.injEq, Prod.mk.injEq, true_and] at h
        exact ⟨method, uri, version, s, hsplit, hm, hloop, h.symm⟩
    · simp at h
  · simp at h

theorem oneOne_line (bld : Build) (request : Bytes) (r₀ r : HttpRequest)
    (h : parseRequestBody bld request r₀ = .ok (.success, r)) :
    ∃ method uri version, splitRequestLine (requestLineOf request) = [method, uri, version] ∧
      method ∈ METHODS ∧ lineOf r = (.cast (METHODS.findIdx (· = method)), uri, version) := by
  obtain ⟨method, uri, version, s, hsplit, hm, hloop, rfl⟩ := oneOne_loop bld request r₀ r h
  exact ⟨method, uri, version, hsplit, hm, headerLoop_line bld _ _ s hloop⟩

theorem parseFields_success (bld : Build) (rest : Bytes) (r s : HttpRequest)
    (code : ParsingStatus) (h : parseFields bld rest r = .ok (code, s)) : code = .success := by
  unfold parseFields at h
  cases hloop : (StringStream.lineBlock rest).foldlM (parseHeaderLine bld) r with
  | error e => simp [hloop, Except.map] at h
  | ok t =>
    simp only [hloop, Except.map, Except.ok.injEq, Prod.mk.injEq] at h
    exact h.1.symm

/-- Parsing succeeds with an accepted request line and lines that do not stop the loop. -/
theorem oneOne_success_iff (bld : Build) (request : Bytes) (r₀ : HttpRequest) :
    (∃ r, parseRequestBody bld request r₀ = .ok (.success, r)) ↔
      RequestLineAccepted request ∧
        ∀ line ∈ headerLines request, ¬(EndsAtColon line ∨ LineFires bld line) := by
  have hends := parseRequestBody_ok_iff bld request r₀
  constructor
  · intro h
    obtain ⟨r, hr⟩ := h
    obtain ⟨method, uri, version, s, hsplit, hm, -⟩ := oneOne_loop bld request r₀ r hr
    have haccepted : RequestLineAccepted request := ⟨method, uri, version, hsplit, hm⟩
    exact ⟨haccepted, fun line hl hbad => hends.mp ⟨_, hr⟩ ⟨haccepted, line, hl, hbad⟩⟩
  · intro h
    obtain ⟨⟨method, uri, version, hsplit, hm⟩, hlines⟩ := h
    obtain ⟨⟨code, r⟩, hr⟩ := hends.mpr fun hbad => by
      obtain ⟨-, line, hl, hbad⟩ := hbad
      exact hlines line hl hbad
    have hne : request ≠ [] := by
      intro hempty
      have hnil : splitRequestLine (requestLineOf []) = [] := by decide
      rw [hempty, hnil] at hsplit
      contradiction
    refine ⟨r, ?_⟩
    rw [hr]
    rw [parseRequestBody_eq bld request r₀ hne, hsplit] at hr
    simp only [hm, if_true] at hr
    rw [parseFields_success bld _ _ _ _ hr]

theorem text_cast (method : Bytes) (h : method ∈ METHODS) :
    (Method.cast (METHODS.findIdx (· = method))).text = method := by
  have hall : ∀ m ∈ METHODS, (Method.cast (METHODS.findIdx (· = m))).text = m := by
    decide
  exact hall method h

/-- The handler that `parse_request` picks. -/
def parserOf (request : Bytes) : Option Handler :=
  match Handler.extractHttpVersion request with
  | .error _ => none
  | .ok version => Handler.getHandler version

/-- The request is the one its first line announces: its three tokens at single spaces, and the
version whose handler parsed it. -/
structure CarriesRequestLine (request : Bytes) (r : HttpRequest) : Prop where
  tokens : (Handler.versionLine request).splitOn SP = [r.method.text, r.requestUri, r.httpVersion]
  version : Handler.extractHttpVersion request = .ok r.httpVersion
  handler : ∃ handler, parserOf request = some handler ∧
    Handler.getHandler r.httpVersion = some handler

/-- What is left when a first line is accepted: one handler for each version. -/
theorem parseRequest_ok (bld : Build) (garbage : Method) (request : Bytes) (r : HttpRequest)
    (h : parseRequest bld garbage request = .ok r) :
    Handler.extractHttpVersion request =
        .ok (Handler.versionToken (Handler.versionLine request)) ∧
      (Handler.versionToken (Handler.versionLine request) = OneOne.httpVersion ∧
          parseRequestBody bld request (.fresh garbage) = .ok (.success, r) ∨
        Handler.versionToken (Handler.versionLine request) = OneZero.httpVersion ∧
          r = .fresh garbage) := by
  have hversion := Handler.extractHttpVersion_eq request
  by_cases hempty : requestLineOf request = []
  · have hnone : Handler.getHandler [] = none := by decide
    rw [if_pos hempty] at hversion
    simp [parseRequest, hversion, hnone] at h
  · rw [if_neg hempty] at hversion
    split_ifs at hversion with hspace
    · refine ⟨hversion, ?_⟩
      simp only [parseRequest, hversion, Handler.getHandler] at h
      split_ifs at h with hone hzero
      · apply Or.inl
        refine ⟨hone, ?_⟩
        simp only [Handler.parseRequest, OneOne.parseRequest] at h
        cases hrun : noexcept (parseRequestBody bld request (.fresh garbage)) with
        | error e => simp [hrun] at h
        | ok out =>
          obtain ⟨code, s⟩ := out
          rw [← noexcept_ok, hrun]
          simp only [hrun] at h
          split_ifs at h with hcode
          rw [← Except.ok.inj h, not_not.mp hcode]
      · apply Or.inr
        refine ⟨hzero, ?_⟩
        simp only [Handler.parseRequest, OneZero.parseRequest, ne_eq, not_true_eq_false,
          if_false, Except.ok.injEq] at h
        exact h.symm
    · simp [parseRequest, hversion] at h

/-- The carriage return that `extract_http_version` drops is an empty last token, which the parser
drops. -/
theorem splitRequestLine_pieces (line a b : Bytes)
    (hline : popBack CR line = a ++ SP :: (b ++ SP :: OneOne.httpVersion)) :
    splitRequestLine line = a.splitOnP isSpace ++ b.splitOnP isSpace ++ [OneOne.httpVersion] := by
  have hsp : isSpace SP = true := by decide
  have hcr : isSpace CR = true := by decide
  have hpopped : line = popBack CR line ∨ line = popBack CR line ++ [CR] := by
    unfold popBack
    split_ifs with hlast
    · exact Or.inr (List.dropLast_append_getLast? CR hlast).symm
    · exact Or.inl rfl
  rw [hline] at hpopped
  rcases hpopped with hpopped | hpopped
  · have hwhole : line.splitOnP isSpace =
        a.splitOnP isSpace ++ b.splitOnP isSpace ++ [OneOne.httpVersion] := by
      rw [hpopped, List.splitOnP_append_cons a _ hsp, List.splitOnP_append_cons b _ hsp,
        List.splitOnP_eq_singleton version_unspaced, List.append_assoc]
    have hlast : OneOne.httpVersion ≠ [] := by decide
    simp [splitRequestLine, hwhole, hlast]
  · have hwhole : line.splitOnP isSpace =
        a.splitOnP isSpace ++ b.splitOnP isSpace ++ [OneOne.httpVersion] ++ [[]] := by
      have hassoc : a ++ SP :: (b ++ SP :: OneOne.httpVersion) ++ [CR] =
          a ++ SP :: (b ++ SP :: (OneOne.httpVersion ++ [CR])) := by simp
      rw [hpopped, hassoc, List.splitOnP_append_cons a _ hsp, List.splitOnP_append_cons b _ hsp,
        List.splitOnP_append_cons_of_forall_mem version_unspaced CR hcr, List.splitOnP_nil]
      simp
    have hlast : (line.splitOnP isSpace).getLast? = some [] := by
      rw [hwhole, List.getLast?_concat]
    rw [splitRequestLine, if_pos hlast, hwhole, List.dropLast_concat]

theorem three_pieces (a b version method uri version' : Bytes)
    (h : a.splitOnP isSpace ++ b.splitOnP isSpace ++ [version] = [method, uri, version']) :
    a.splitOnP isSpace = [method] ∧ b.splitOnP isSpace = [uri] ∧ version = version' := by
  obtain ⟨x, xs, hx⟩ := List.exists_cons_of_ne_nil (List.splitOnP_ne_nil isSpace a)
  obtain ⟨y, ys, hy⟩ := List.exists_cons_of_ne_nil (List.splitOnP_ne_nil isSpace b)
  have hlen := congrArg List.length h
  simp only [hx, hy, List.length_append, List.length_cons, List.length_nil] at hlen
  have hxs : xs = [] := List.length_eq_zero_iff.mp (by omega)
  have hys : ys = [] := List.length_eq_zero_iff.mp (by omega)
  rw [hx, hy, hxs, hys] at h
  simp only [List.cons_append, List.nil_append, List.cons.injEq, and_true] at h
  exact ⟨by rw [hx, hxs, h.1], by rw [hy, hys, h.2.1], h.2.2⟩

/-- Cut at white space, a first line of version 1.1 has the tokens it has at single spaces. -/
theorem splitRequestLine_spaces (line method uri version : Bytes)
    (hsplit : splitRequestLine line = [method, uri, version])
    (hversion : Handler.versionToken (popBack CR line) = OneOne.httpVersion) :
    (popBack CR line).splitOn SP = [method, uri, version] ∧ version = OneOne.httpVersion := by
  have hne : Handler.versionToken (popBack CR line) ≠ [] := by
    rw [hversion]
    decide
  obtain ⟨a, b, hline, ha, hb⟩ := Handler.versionToken_cases _ hne
  rw [hversion] at hline
  rw [splitRequestLine_pieces line a b hline] at hsplit
  obtain ⟨hmethod, huri, rfl⟩ := three_pieces a b _ method uri version hsplit
  have hsp : isSpace SP = true := by decide
  have hunspaced : SP ∉ OneOne.httpVersion := notMem_of_unspaced _ SP hsp version_unspaced
  rw [hline, List.splitOn_append_cons_self_of_not_mem ha,
    List.splitOn_append_cons_self_of_not_mem hb, List.splitOn_eq_singleton hunspaced,
    ((splitOnP_single_iff isSpace a method).mp hmethod).1,
    ((splitOnP_single_iff isSpace b uri).mp huri).1]
  exact ⟨rfl, rfl⟩

/-- The parsed request carries its own request line for the version 1.1, and never for the
version 1.0, whose parser fills nothing in. -/
theorem parseRequest_carries_iff (bld : Build) (garbage : Method) (request : Bytes)
    (r : HttpRequest) (h : parseRequest bld garbage request = .ok r) :
    CarriesRequestLine request r ↔
      Handler.versionToken (Handler.versionLine request) ≠ OneZero.httpVersion := by
  obtain ⟨hversion, ⟨hone, hbody⟩ | ⟨hzero, hfresh⟩⟩ := parseRequest_ok bld garbage request r h
  · have hdistinct : OneOne.httpVersion ≠ OneZero.httpVersion := by decide
    refine iff_of_true ?_ (by rw [hone]; exact hdistinct)
    obtain ⟨method, uri, version, hsplit, hm, hline⟩ := oneOne_line bld request _ r hbody
    obtain ⟨htokens, hv⟩ := splitRequestLine_spaces _ method uri version hsplit hone
    simp only [lineOf, Prod.mk.injEq] at hline
    obtain ⟨hmethod, huri, hrversion⟩ := hline
    have hparsed : Handler.extractHttpVersion request = .ok r.httpVersion := by
      rw [hversion, hone, hrversion, hv]
    refine ⟨?_, hparsed, .oneOne, ?_, ?_⟩
    · rw [hmethod, text_cast method hm, huri, hrversion]
      exact htokens
    · rw [parserOf, hversion, hone]
      decide
    · rw [hrversion, hv]
      decide
  · refine iff_of_false ?_ (not_not.mpr hzero)
    intro hcarries
    have hsame := hcarries.version
    have hempty : (HttpRequest.fresh garbage).httpVersion = [] := rfl
    rw [hversion, hzero, hfresh, hempty] at hsame
    exact absurd (Except.ok.inj hsame) (by decide)

theorem parseRequest_carries_iff_get :
    parseRequest plainBuild .mHead (lit "GET / HTTP/1.1\r\nHost: a\r\n\r\n") = .ok
        ⟨.mGet, lit "/", lit "HTTP/1.1", .empty, StdMap.empty.emplace (lit "Host") (lit "a"),
          .empty, []⟩ ∧
      CarriesRequestLine (lit "GET / HTTP/1.1\r\nHost: a\r\n\r\n")
        ⟨.mGet, lit "/", lit "HTTP/1.1", .empty, StdMap.empty.emplace (lit "Host") (lit "a"),
          .empty, []⟩ := by
  have hparse : parseRequest plainBuild .mHead (lit "GET / HTTP/1.1\r\nHost: a\r\n\r\n") = .ok
      ⟨.mGet, lit "/", lit "HTTP/1.1", .empty, StdMap.empty.emplace (lit "Host") (lit "a"),
        .empty, []⟩ := by
    decide
  exact ⟨hparse, (parseRequest_carries_iff plainBuild .mHead _ _ hparse).mpr (by decide)⟩

/-- A request of version 1.0 is taken with none of its tokens. -/
theorem oneZero_carries_nothing :
    ∃ r, parseRequest plainBuild .mGet (lit "GET / HTTP/1.0\r\n\r\n") = .ok r ∧
      ¬CarriesRequestLine (lit "GET / HTTP/1.0\r\n\r\n") r := by
  refine ⟨.fresh .mGet, by decide, ?_⟩
  intro h
  have hversion := h.version
  exact absurd hversion (by decide)

end HttpService
end HttpCpp
