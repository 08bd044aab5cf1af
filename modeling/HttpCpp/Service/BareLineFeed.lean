import HttpCpp.Service.HeaderSection

namespace HttpCpp
namespace HttpService

open OneOne

/-- A header line that ends in a line feed alone, without it. -/
def bareLine (h : Bytes × Bytes) : Bytes := h.1 ++ lit ": " ++ h.2

/-- A request head whose lines end in a line feed alone. -/
def bareHead (method uri : Bytes) (headers : List (Bytes × Bytes)) : Bytes :=
  requestLine method uri ++ [LF] ++ headers.flatMap (fun h => bareLine h ++ [LF]) ++ [LF]

theorem splitRequestLine_bare (method uri : Bytes) (hm : method ∈ METHODS)
    (hu : ∀ c ∈ uri, isSpace c = false) :
    splitRequestLine (requestLine method uri) = [method, uri, httpVersion] := by
  have hsp : isSpace SP = true := by decide
  have hend : httpVersion.splitOnP isSpace = [httpVersion] :=
    List.splitOnP_eq_singleton version_unspaced
  have hne : httpVersion ≠ [] := by decide
  have hsplit : (requestLine method uri).splitOnP isSpace = [method, uri, httpVersion] := by
    rw [requestLine, List.splitOnP_append_cons_of_forall_mem (methods_unspaced method hm) SP hsp,
      List.splitOnP_append_cons_of_forall_mem hu SP hsp, hend]
  simp [splitRequestLine, hsplit, hne]

/-- A header whose value does not end in a carriage return is read as it stands. -/
theorem parseHeaderLine_bareLine (bld : Build) (r : HttpRequest) (h : Bytes × Bytes)
    (hc : colon ∉ h.1) (h1 : LF ∉ h.1) (h2 : LF ∉ h.2) (hcr : h.2.getLast? ≠ some CR) :
    parseHeaderLine bld r (bareLine h) = storeHeader bld r h.1 h.2 := by
  have hsep : bareLine h = h.1 ++ colon :: SP :: h.2 := by
    have hlit : lit ": " = [colon, SP] := rfl
    simp [bareLine, hlit]
  have hpop : popBack CR (SP :: h.2) = SP :: h.2 := by
    have hlast : (SP :: h.2).getLast? ≠ some CR := by
      cases hv : h.2 with
      | nil => decide
      | cons x v => rwa [List.getLast?_cons_cons, ← hv]
    rw [popBack, if_neg hlast]
  have hlf : LF ∉ h.1 ++ colon :: SP :: h.2 := by
    have h3 : LF ≠ colon := by decide
    have h4 : LF ≠ SP := by decide
    simp [h1, h2, h3, h4]
  rw [hsep, parseHeaderLine_colon bld r h.1 _ hc hlf, hpop]
  simp

/-- A head with bare line feeds is read to its end: the headers are recorded and the body is what
follows the empty line. -/
theorem parseRequest_bare (bld : Build) (hadj : ¬bld.Adjacent) (r : HttpRequest)
    (method uri : Bytes) (headers : List (Bytes × Bytes)) (body : Bytes) (hm : method ∈ METHODS)
    (hu : ∀ c ∈ uri, isSpace c = false) (hl : ∀ h ∈ headers, Listed h.1)
    (hv : ∀ h ∈ headers, LF ∉ h.2 ∧ h.2.getLast? ≠ some CR) :
    OneOne.parseRequest bld (bareHead method uri headers ++ body) r = .ok (.success,
      { recordAll (withRequestLine r method uri) headers with messageBody := body }) := by
  have hlines : ∀ line ∈ headers.map bareLine, line ≠ [] ∧ LF ∉ line := by
    intro line hline
    obtain ⟨h, hh, rfl⟩ := List.mem_map.mp hline
    have hsep : LF ∉ lit ": " := by decide
    have hne : lit ": " ≠ [] := by decide
    simp [bareLine, (listed_plain h.1 (hl h hh)).2, (hv h hh).1, hsep, hne]
  have hfold := lines_fold bld hadj bareLine (withRequestLine r method uri) headers
    fun h hh r => parseHeaderLine_bareLine bld r h (listed_plain h.1 (hl h hh)).1
      (listed_plain h.1 (hl h hh)).2 (hv h hh).1 (hv h hh).2
  have hlf : LF ∉ requestLine method uri := by
    have hcr := lf_notMem_requestLine method uri hm hu
    exact fun h => hcr (List.mem_append_left _ h)
  have hassoc : bareHead method uri headers ++ body = requestLine method uri ++
      LF :: (StringStream.writeLines (headers.map bareLine) ++ LF :: body) := by
    simp [bareHead, StringStream.writeLines, List.flatMap_map]
  rw [OneOne.parseRequest, noexcept_ok, hassoc, parseRequestBody_eq bld _ r (by simp),
    requestLineOf_cut _ _ hlf, afterRequestLine_cut _ _ hlf, splitRequestLine_bare method uri hm hu]
  simp only [hm, if_true, parseFields, StringStream.lineBlock_writeLines _ _ hlines,
    StringStream.afterBlock_writeLines _ _ hlines, StringStream.lineBlock_empty,
    StringStream.afterBlock_empty, List.append_nil]
  show Except.map _ ((headers.map bareLine).foldlM (parseHeaderLine bld)
    (withRequestLine r method uri)) = _
  rw [hfold]
  rfl

/-- Requests with bare line feeds are parsed exactly, whatever their body is. -/
theorem parseRequest_bareLineFeed (bld : Build) (hadj : ¬bld.Adjacent) (garbage : Method)
    (method uri : Bytes) (headers : List (Bytes × Bytes)) (body : Bytes) (hm : method ∈ METHODS)
    (hu : ∀ c ∈ uri, isSpace c = false) (hl : ∀ h ∈ headers, Listed h.1)
    (hv : ∀ h ∈ headers, LF ∉ h.2 ∧ h.2.getLast? ≠ some CR) :
    ∃ r, OneOne.parseRequest bld (bareHead method uri headers ++ body) (.fresh garbage) =
        .ok (.success, r) ∧
      r.messageBody = body ∧
      (∀ k, r.generalHeader.find k = Assoc.find k (ofClass GENERAL_HEADER headers)) ∧
      (∀ k, r.requestHeader.find k = Assoc.find k (ofClass REQUEST_HEADER headers)) ∧
      (∀ k, r.entityHeader.find k = Assoc.find k (ofClass ENTITY_HEADER headers)) := by
  refine ⟨_, parseRequest_bare bld hadj (.fresh garbage) method uri headers body hm hu hl hv, rfl,
    ?_⟩
  rw [recordAll_maps _ headers hl]
  refine ⟨?_, ?_, ?_⟩
  all_goals
    intro k
    simp [withRequestLine, HttpRequest.fresh, StdMap.find_insertRange]

theorem parseRequest_bareLineFeed_get :
    ∃ r, OneOne.parseRequest plainBuild
        (bareHead (lit "GET") (lit "/a") [(lit "Host", lit "a:b")] ++
          ([LF] ++ lit "x: y" ++ [LF, LF])) (.fresh .mPut) = .ok (.success, r) ∧
      r.messageBody = [LF] ++ lit "x: y" ++ [LF, LF] ∧
      (∀ k, r.generalHeader.find k =
        Assoc.find k (ofClass GENERAL_HEADER [(lit "Host", lit "a:b")])) ∧
      (∀ k, r.requestHeader.find k =
        Assoc.find k (ofClass REQUEST_HEADER [(lit "Host", lit "a:b")])) ∧
      (∀ k, r.entityHeader.find k =
        Assoc.find k (ofClass ENTITY_HEADER [(lit "Host", lit "a:b")])) :=
  parseRequest_bareLineFeed plainBuild plainBuild_apart .mPut (lit "GET") (lit "/a")
    [(lit "Host", lit "a:b")] ([LF] ++ lit "x: y" ++ [LF, LF]) (by decide) (by decide +kernel)
    (by decide) (by decide)

end HttpService
end HttpCpp
