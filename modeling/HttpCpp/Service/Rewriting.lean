import HttpCpp.Service.HeaderClasses

namespace HttpCpp

/-- The headers of a request, one map after the other. -/
def HttpRequest.headers (r : HttpRequest) : List (Bytes × Bytes) :=
  r.generalHeader.entries ++ r.requestHeader.entries ++ r.entityHeader.entries

/-- A request written out again, without its body. -/
def HttpRequest.head (r : HttpRequest) : Bytes :=
  OneOne.requestHead r.method.text r.requestUri r.headers

namespace HttpService

open OneOne

theorem find_headers (r : HttpRequest) (k : Bytes) : Assoc.find k r.headers =
    ((r.generalHeader.find k).or (r.requestHeader.find k)).or (r.entityHeader.find k) := by
  rw [HttpRequest.headers, Assoc.find_append, Assoc.find_append]
  rfl

theorem popBack_subset (c : Byte) (s : Bytes) : popBack c s ⊆ s := by
  unfold popBack
  split_ifs
  · exact List.dropLast_subset s
  · exact List.Subset.refl s

/-- A line gives a header without line feeds, its name without a colon. -/
theorem lineHeader_wellFormed (line : Bytes) (hlf : LF ∉ line) (h : Bytes × Bytes)
    (hheader : lineHeader line = some h) : colon ∉ h.1 ∧ LF ∉ h.1 ∧ LF ∉ h.2 := by
  rcases cut_cases colon line with hc | ⟨name, rest, rfl, hn⟩
  · simp [lineHeader_uncut line hc] at hheader
  · rw [lineHeader_cut name rest hn] at hheader
    split_ifs at hheader
    obtain rfl := Option.some.inj hheader
    have hrest : LF ∉ rest := fun hin => hlf (by simp [hin])
    refine ⟨hn, fun hin => hlf (by simp [hin]), fun hin => hrest ?_⟩
    exact popBack_subset CR rest (List.drop_subset 1 _ hin)

/-- What the loop stores can be written again. -/
theorem storedHeaders_wellFormed (bld : Build) (request : Bytes) :
    ∀ h ∈ storedHeaders bld request, (colon ∉ h.1 ∧ LF ∉ h.1 ∧ LF ∉ h.2) ∧ ¬Dropped bld h.1 := by
  intro h hh
  obtain ⟨line, hl, hstored⟩ := List.mem_filterMap.mp hh
  have hlf := (StringStream.lineBlock_mem _ line hl).2
  have hkept := Option.filter_eq_some_iff.mp hstored
  exact ⟨lineHeader_wellFormed line hlf h hkept.1, by simpa using hkept.2⟩

/-- The header loop over a written head records the headers it does not drop. -/
theorem headLines_kept (bld : Build) (r : HttpRequest) (headers : List (Bytes × Bytes))
    (hw : WellFormed headers) (hkept : ∀ h ∈ headers, ¬Dropped bld h.1) :
    (headLines headers).foldlM (parseHeaderLine bld) r = .ok (recordAll r headers) := by
  induction headers generalizing r with
  | nil =>
    show [[CR]].foldlM (parseHeaderLine bld) r = _
    rw [List.foldlM_cons, parseHeaderLine_plain bld r [CR] (by decide)]
    rfl
  | cons h headers ih =>
    obtain ⟨⟨hc, h1, h2⟩, hrest⟩ := List.forall_mem_cons.mp hw
    obtain ⟨hhead, htail⟩ := List.forall_mem_cons.mp hkept
    show (headerLine h :: headLines headers).foldlM (parseHeaderLine bld) r = _
    rw [List.foldlM_cons, parseHeaderLine_headerLine bld r h hc h1 h2,
      storeHeader_apart bld r h.1 h.2 hhead]
    exact ih (record r h.1 h.2) hrest htail

/-- The Request-URI that is read has no white space in it. -/
theorem splitRequestLine_unspaced (line method uri version : Bytes)
    (hsplit : splitRequestLine line = [method, uri, version])
    (hversion : Handler.versionToken (popBack CR line) = OneOne.httpVersion) :
    ∀ c ∈ uri, isSpace c = false := by
  have hne : Handler.versionToken (popBack CR line) ≠ [] := by
    rw [hversion]
    decide
  obtain ⟨a, b, hline, -, -⟩ := Handler.versionToken_cases _ hne
  rw [hversion] at hline
  rw [splitRequestLine_pieces line a b hline] at hsplit
  obtain ⟨-, huri, -⟩ := three_pieces a b _ method uri version hsplit
  obtain ⟨rfl, hunspaced⟩ := (splitOnP_single_iff isSpace b uri).mp huri
  exact hunspaced

/-- A header of a parsed request is the first one stored under its name. -/
theorem headers_stored (bld : Build) (garbage : Method) (frame : Bytes) (r : HttpRequest)
    (h : OneOne.parseRequest bld frame (.fresh garbage) = .ok (.success, r)) (k : Bytes) :
    Assoc.find k r.headers = Assoc.find k (storedHeaders bld frame) := by
  obtain ⟨hgeneral, hrequest, hentity⟩ := oneOne_find bld garbage frame r h k
  rw [find_headers, hgeneral, hrequest, hentity]
  by_cases hg : k ∈ GENERAL_HEADER
  · by_cases hr : k ∈ REQUEST_HEADER <;> simp [hg, hr]
  · by_cases hr : k ∈ REQUEST_HEADER <;> simp [hg, hr]

theorem headers_mem (bld : Build) (garbage : Method) (frame : Bytes) (r : HttpRequest)
    (h : OneOne.parseRequest bld frame (.fresh garbage) = .ok (.success, r)) :
    ∀ e ∈ r.headers, e ∈ storedHeaders bld frame := by
  intro e he
  obtain ⟨hgeneral, hrequest, hentity⟩ := oneOne_find bld garbage frame r h e.1
  have hthere : ∀ m : HeaderMap, e ∈ m.entries →
      (∃ p : Prop, ∃ _ : Decidable p, m.find e.1 =
        if p then Assoc.find e.1 (storedHeaders bld frame) else none) →
      e ∈ storedHeaders bld frame := by
    rintro m hin ⟨p, _, hm⟩
    rw [(StdMap.mem_entries m e.1 e.2).mp hin] at hm
    split_ifs at hm
    exact Assoc.find_mem e.1 e.2 _ hm.symm
  rcases List.mem_append.mp he with he | he
  · rcases List.mem_append.mp he with he | he
    · exact hthere _ he ⟨_, _, hgeneral⟩
    · exact hthere _ he ⟨_, _, hrequest⟩
  · rw [← ite_not] at hentity
    exact hthere _ he ⟨_, _, hentity⟩

/-- A parsed request can be written out again and is read back from what is written, its body
apart; whatever stood in the original between the headers is not needed for them. -/
theorem parseRequest_head (bld : Build) (garbage garbage' : Method) (frame : Bytes)
    (r : HttpRequest) (h : parseRequest bld garbage frame = .ok r)
    (hversion : r.httpVersion = OneOne.httpVersion) :
    parseRequest bld garbage' r.head = .ok { r with messageBody := [] } := by
  have hnone : ([] : Bytes) ≠ OneOne.httpVersion := by decide
  obtain ⟨hone, hbody⟩ : Handler.versionToken (Handler.versionLine frame) = OneOne.httpVersion ∧
      parseRequestBody bld frame (.fresh garbage) = .ok (.success, r) := by
    rcases (parseRequest_ok bld garbage frame r h).2 with hone | ⟨-, rfl⟩
    · exact hone
    · exact absurd hversion hnone
  have hsuccess : OneOne.parseRequest bld frame (.fresh garbage) = .ok (.success, r) := by
    rw [OneOne.parseRequest, noexcept_ok, hbody]
  obtain ⟨method, uri, version, hsplit, hm, hline⟩ := oneOne_line bld frame _ r hbody
  simp only [lineOf, Prod.mk.injEq] at hline
  obtain ⟨hmethod, rfl, rfl⟩ := hline
  have hunspaced := splitRequestLine_unspaced _ method _ _ hsplit hone
  have htext : r.method.text = method := by rw [hmethod, text_cast method hm]
  have hwritten : ∀ e ∈ r.headers, (colon ∉ e.1 ∧ LF ∉ e.1 ∧ LF ∉ e.2) ∧ ¬Dropped bld e.1 :=
    fun e he => storedHeaders_wellFormed bld frame e
      (headers_mem bld garbage frame r hsuccess e he)
  have hparse := parseRequestBody_head bld (.fresh garbage') method r.requestUri r.headers [] hm
    hunspaced fun e he => (hwritten e he).1
  have hloop := headLines_kept bld (withRequestLine (.fresh garbage') method r.requestUri) r.headers
    (fun e he => (hwritten e he).1) (fun e he => (hwritten e he).2)
  simp only [StringStream.lineBlock_nil, List.append_nil, hloop] at hparse
  rw [HttpRequest.head, htext, ← List.append_nil (requestHead method r.requestUri r.headers)]
  apply parseRequest_requestHead bld garbage' method r.requestUri r.headers [] hm hunspaced
  rw [OneOne.parseRequest, noexcept_ok, List.append_nil, hparse]
  have hlineOf := lineOf_recordAll (withRequestLine (.fresh garbage') method r.requestUri)
    r.headers
  simp only [lineOf, Prod.mk.injEq] at hlineOf
  have hrecord := recordAll_find (withRequestLine (.fresh garbage') method r.requestUri) r.headers
  have hfind := oneOne_find bld garbage frame r hsuccess
  have hsame : { recordAll (withRequestLine (.fresh garbage') method r.requestUri) r.headers with
      messageBody := [] } = { r with messageBody := [] } := by
    refine HttpRequest.ext ?_ ?_ ?_ ?_ ?_ ?_ rfl
    · exact hlineOf.1.trans hmethod.symm
    · exact hlineOf.2.1
    · exact hlineOf.2.2.trans hversion.symm
    · apply StdMap.ext_find
      intro k
      rw [(hrecord k).1, headers_stored bld garbage frame r hsuccess, (hfind k).1]
      rfl
    · apply StdMap.ext_find
      intro k
      rw [(hrecord k).2.1, headers_stored bld garbage frame r hsuccess, (hfind k).2.1]
      rfl
    · apply StdMap.ext_find
      intro k
      rw [(hrecord k).2.2, headers_stored bld garbage frame r hsuccess, (hfind k).2.2]
      rfl
  rw [← hsame]
  rfl

/-- A line without a colon and the second of two alike are not written again. -/
theorem parseRequest_head_host :
    parseRequest plainBuild .mGet (HttpRequest.head ⟨.mPut, lit "/a", lit "HTTP/1.1", .empty,
        StdMap.empty.emplace (lit "Host") (lit "b"), StdMap.empty.emplace (lit "X-Foo") (lit " c"),
        lit "text"⟩) =
      .ok ⟨.mPut, lit "/a", lit "HTTP/1.1", .empty, StdMap.empty.emplace (lit "Host") (lit "b"),
        StdMap.empty.emplace (lit "X-Foo") (lit " c"), []⟩ :=
  parseRequest_head plainBuild .mHead .mGet
    (lit "PUT /a HTTP/1.1\r\nX-Foo:  c\r\nfoo\r\nHost: b\r\nHost: d\r\n\r\n\r\n\ntext") _
    (by decide) rfl

end HttpService

end HttpCpp
