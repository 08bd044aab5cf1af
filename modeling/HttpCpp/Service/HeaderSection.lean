import HttpCpp.Service.ParseRequest

namespace HttpCpp
namespace HttpService

open OneOne

/-- The headers of a list recorded one after the other. -/
def recordAll (r : HttpRequest) (headers : List (Bytes × Bytes)) : HttpRequest :=
  headers.foldl (fun r h => record r h.1 h.2) r

/-- The pairs of a list whose name is in a class. -/
def ofClass (names : List Bytes) (headers : List (Bytes × Bytes)) : List (Bytes × Bytes) :=
  headers.filter fun h => h.1 ∈ names

/-- The names the parser knows. -/
def Listed (header : Bytes) : Prop :=
  header ∈ GENERAL_HEADER ∨ header ∈ REQUEST_HEADER ∨ header ∈ ENTITY_HEADER

instance (header : Bytes) : Decidable (Listed header) := inferInstanceAs (Decidable (_ ∨ _ ∨ _))

theorem listed_class (header : Bytes) (h : Listed header) :
    header ∈ GENERAL_HEADER ∧ header ∉ REQUEST_HEADER ∧ header ∉ ENTITY_HEADER ∨
      header ∉ GENERAL_HEADER ∧ header ∈ REQUEST_HEADER ∧ header ∉ ENTITY_HEADER ∨
      header ∉ GENERAL_HEADER ∧ header ∉ REQUEST_HEADER ∧ header ∈ ENTITY_HEADER := by
  have hrequest : ∀ n ∈ REQUEST_HEADER, n ∉ GENERAL_HEADER := by decide
  have hentity : ∀ n ∈ ENTITY_HEADER, n ∉ GENERAL_HEADER ∧ n ∉ REQUEST_HEADER := by
    decide
  rcases h with hg | hr | he
  · exact Or.inl ⟨hg, fun hr => hrequest header hr hg, fun he => (hentity header he).1 hg⟩
  · exact Or.inr (Or.inl ⟨hrequest header hr, hr, fun he => (hentity header he).2 hr⟩)
  · exact Or.inr (Or.inr ⟨(hentity header he).1, (hentity header he).2, he⟩)

theorem listed_plain (header : Bytes) (h : Listed header) : colon ∉ header ∧ LF ∉ header := by
  have hall : ∀ n ∈ GENERAL_HEADER ++ REQUEST_HEADER ++ ENTITY_HEADER, colon ∉ n ∧ LF ∉ n := by
    have hbytes : ∀ n ∈ GENERAL_HEADER ++ REQUEST_HEADER ++ ENTITY_HEADER, ∀ c ∈ n,
        c ≠ colon ∧ c ≠ LF := by
      simp only [GENERAL_HEADER, REQUEST_HEADER, ENTITY_HEADER, List.forall_mem_append,
        List.forall_mem_cons]
      and_intros
      all_goals first | exact lit_forall _ (by decide) | exact List.forall_mem_nil _
    intro n hn
    exact ⟨fun h => (hbytes n hn colon h).1 rfl, fun h => (hbytes n hn LF h).2 rfl⟩
  apply hall
  simpa [Listed, or_assoc] using h

/-- Recording listed headers adds to each map the range of the pairs of its class. -/
theorem recordAll_maps (r : HttpRequest) (headers : List (Bytes × Bytes))
    (hl : ∀ h ∈ headers, Listed h.1) :
    recordAll r headers =
      { r with
        generalHeader := r.generalHeader.insertRange (ofClass GENERAL_HEADER headers)
        requestHeader := r.requestHeader.insertRange (ofClass REQUEST_HEADER headers)
        entityHeader := r.entityHeader.insertRange (ofClass ENTITY_HEADER headers) } := by
  induction headers generalizing r with
  | nil => rfl
  | cons h headers ih =>
    have htail : ∀ x ∈ headers, Listed x.1 := fun x hx => hl x (List.mem_cons_of_mem h hx)
    have hstep : recordAll r (h :: headers) = recordAll (record r h.1 h.2) headers := rfl
    rw [hstep, ih _ htail]
    rcases listed_class h.1 (hl h (by simp)) with ⟨hg, hr, he⟩ | ⟨hg, hr, he⟩ | ⟨hg, hr, he⟩ <;>
      simp [record, ofClass, hg, hr, he, StdMap.insertRange]

theorem find_ofClass (names : List Bytes) (headers : List (Bytes × Bytes)) (k : Bytes) :
    Assoc.find k (ofClass names headers) =
      if k ∈ names then Assoc.find k headers else none := by
  rw [ofClass, Assoc.find_filter (fun name => decide (name ∈ names))]
  simp only [decide_eq_true_eq]

/-- With the arrays apart the header loop records lines that store their headers. -/
theorem lines_fold (bld : Build) (hadj : ¬bld.Adjacent) (line : Bytes × Bytes → Bytes)
    (r : HttpRequest) (headers : List (Bytes × Bytes))
    (hline : ∀ h ∈ headers, ∀ r, parseHeaderLine bld r (line h) = storeHeader bld r h.1 h.2) :
    (headers.map line).foldlM (parseHeaderLine bld) r = .ok (recordAll r headers) := by
  induction headers generalizing r with
  | nil => rfl
  | cons h headers ih =>
    obtain ⟨hhead, htail⟩ := List.forall_mem_cons.mp hline
    rw [List.map_cons, List.foldlM_cons, hhead,
      storeHeader_apart bld r h.1 h.2 (fun hf => hadj hf.1)]
    exact ih (record r h.1 h.2) htail

/-- The header loop over a written head; the empty line leaves a carriage return, which has no
colon. -/
theorem headers_fold (bld : Build) (hadj : ¬bld.Adjacent) (r : HttpRequest)
    (headers : List (Bytes × Bytes)) (hw : WellFormed headers) :
    (headLines headers).foldlM (parseHeaderLine bld) r = .ok (recordAll r headers) := by
  have hlines := lines_fold bld hadj headerLine r headers fun h hh r =>
    parseHeaderLine_headerLine bld r h (hw h hh).1 (hw h hh).2.1 (hw h hh).2.2
  have hcr := parseHeaderLine_plain bld (recordAll r headers) [CR] (by decide)
  rw [headLines, List.foldlM_append, hlines]
  show [[CR]].foldlM (parseHeaderLine bld) _ = _
  rw [List.foldlM_cons, hcr]
  rfl

theorem headers_parse (bld : Build) (hadj : ¬bld.Adjacent) (r : HttpRequest) (method uri : Bytes)
    (headers : List (Bytes × Bytes)) (hm : method ∈ METHODS)
    (hu : ∀ c ∈ uri, isSpace c = false) (hw : WellFormed headers) :
    OneOne.parseRequest bld (requestHead method uri headers) r = .ok (.success,
      { recordAll (withRequestLine r method uri) headers with messageBody := [] }) := by
  have hbody := parseRequestBody_head bld r method uri headers [] hm hu hw
  rw [List.append_nil, StringStream.lineBlock_nil, List.append_nil,
    headers_fold bld hadj _ headers hw] at hbody
  rw [OneOne.parseRequest, noexcept_ok, hbody]
  rfl

theorem parseRequest_wellFormed (bld : Build) (hadj : ¬bld.Adjacent) (garbage : Method)
    (method uri : Bytes) (headers : List (Bytes × Bytes)) (hm : method ∈ METHODS)
    (hu : ∀ c ∈ uri, isSpace c = false) (hw : WellFormed headers) :
    parseRequest bld garbage (requestHead method uri headers) =
      .ok { recordAll (withRequestLine (.fresh garbage) method uri) headers with
        messageBody := [] } := by
  have hparse := headers_parse bld hadj (.fresh garbage) method uri headers hm hu hw
  rw [← List.append_nil (requestHead method uri headers)] at hparse
  have hservice := parseRequest_requestHead bld garbage method uri headers [] hm hu _ hparse
  rwa [List.append_nil] at hservice

theorem parseRequest_written (bld : Build) (hadj : ¬bld.Adjacent) (garbage : Method)
    (method uri : Bytes) (headers : List (Bytes × Bytes)) (hm : method ∈ METHODS)
    (hu : ∀ c ∈ uri, isSpace c = false) (hl : ∀ h ∈ headers, Listed h.1)
    (hv : ∀ h ∈ headers, LF ∉ h.2) :
    parseRequest bld garbage (requestHead method uri headers) =
      .ok { recordAll (withRequestLine (.fresh garbage) method uri) headers with
        messageBody := [] } := by
  apply parseRequest_wellFormed bld hadj garbage method uri headers hm hu
  intro h hh
  obtain ⟨hc, h1⟩ := listed_plain h.1 (hl h hh)
  exact ⟨hc, h1, hv h hh⟩

/-- Parsing reads back the header section the serializer writes: each map holds the pairs of
its class, the first value of a repeated name. -/
theorem parseRequest_headerSection (bld : Build) (hadj : ¬bld.Adjacent) (garbage : Method)
    (method uri : Bytes) (headers : List (Bytes × Bytes)) (hm : method ∈ METHODS)
    (hu : ∀ c ∈ uri, isSpace c = false) (hl : ∀ h ∈ headers, Listed h.1)
    (hv : ∀ h ∈ headers, LF ∉ h.2) :
    ∃ r, parseRequest bld garbage (requestHead method uri headers) = .ok r ∧
      r.method.underlying = METHODS.findIdx (· = method) ∧
      r.requestUri = uri ∧ r.httpVersion = lit "HTTP/1.1" ∧ r.messageBody = [] ∧
      (∀ k, r.generalHeader.find k = Assoc.find k (ofClass GENERAL_HEADER headers)) ∧
      (∀ k, r.requestHeader.find k = Assoc.find k (ofClass REQUEST_HEADER headers)) ∧
      (∀ k, r.entityHeader.find k = Assoc.find k (ofClass ENTITY_HEADER headers)) := by
  have hindex : ∀ m ∈ METHODS,
      (Method.cast (METHODS.findIdx (· = m))).underlying = METHODS.findIdx (· = m) := by decide
  refine ⟨_, parseRequest_written bld hadj garbage method uri headers hm hu hl hv, ?_⟩
  rw [recordAll_maps _ headers hl]
  refine ⟨hindex method hm, rfl, rfl, rfl, ?_, ?_, ?_⟩
  all_goals
    intro k
    simp [withRequestLine, HttpRequest.fresh, StdMap.find_insertRange]

theorem parseRequest_headerSection_get :
    ∃ r, parseRequest plainBuild .mPut
        (requestHead (lit "GET") (lit "/a") [(lit "Host", lit "a:b"), (lit "Host", [])]) = .ok r ∧
      r.method.underlying = METHODS.findIdx (· = lit "GET") ∧
      r.requestUri = lit "/a" ∧ r.httpVersion = lit "HTTP/1.1" ∧ r.messageBody = [] ∧
      (∀ k, r.generalHeader.find k =
        Assoc.find k (ofClass GENERAL_HEADER [(lit "Host", lit "a:b"), (lit "Host", [])])) ∧
      (∀ k, r.requestHeader.find k =
        Assoc.find k (ofClass REQUEST_HEADER [(lit "Host", lit "a:b"), (lit "Host", [])])) ∧
      (∀ k, r.entityHeader.find k =
        Assoc.find k (ofClass ENTITY_HEADER [(lit "Host", lit "a:b"), (lit "Host", [])])) :=
  parseRequest_headerSection plainBuild plainBuild_apart .mPut (lit "GET") (lit "/a")
    [(lit "Host", lit "a:b"), (lit "Host", [])] (by decide) (by decide +kernel) (by decide +kernel)
    (by decide)

/-- The generic request holds all the headers that were written, each under its first value. -/
theorem toGeneric_headerSection (bld : Build) (hadj : ¬bld.Adjacent) (garbage : Method)
    (method uri : Bytes) (headers : List (Bytes × Bytes)) (hm : method ∈ METHODS)
    (hu : ∀ c ∈ uri, isSpace c = false) (hl : ∀ h ∈ headers, Listed h.1)
    (hv : ∀ h ∈ headers, LF ∉ h.2) :
    ∃ r, parseRequest bld garbage (requestHead method uri headers) = .ok r ∧
      r.toGeneric.header = StdMap.empty.insertRange headers := by
  refine ⟨_, parseRequest_written bld hadj garbage method uri headers hm hu hl hv, ?_⟩
  rw [recordAll_maps _ headers hl]
  apply StdMap.ext_find
  intro k
  have hrange (m : HeaderMap) : Assoc.find k m.entries = m.find k := rfl
  simp only [HttpRequest.toGeneric, withRequestLine, HttpRequest.fresh, StdMap.find_insertRange,
    StdMap.find_empty, Option.none_or, hrange, find_ofClass]
  by_cases hk : Listed k
  · rcases listed_class k hk with ⟨hg, hr, he⟩ | ⟨hg, hr, he⟩ | ⟨hg, hr, he⟩ <;>
      simp [hg, hr, he]
  · have hnone : Assoc.find k headers = none := by
      rw [Assoc.find_none]
      intro h hh heq
      exact hk (heq ▸ hl h hh)
    simp [hnone]

end HttpService
end HttpCpp
