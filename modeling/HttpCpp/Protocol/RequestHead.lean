import HttpCpp.Protocol.HeaderLine

namespace HttpCpp
namespace OneOne

/-- `METHOD SP uri SP HTTP/1.1`. -/
def requestLine (method uri : Bytes) : Bytes := method ++ SP :: (uri ++ SP :: httpVersion)

/-- The request line, the headers one a line, and the empty line. -/
def requestHead (method uri : Bytes) (headers : List (Bytes × Bytes)) : Bytes :=
  requestLine method uri ++ CRLF ++ emitHeaders headers ++ CRLF

/-- A header as the loop reads it: `getline` leaves the carriage return. -/
def headerLine (h : Bytes × Bytes) : Bytes := h.1 ++ colon :: SP :: (h.2 ++ [CR])

theorem emitHeader_eq (h : Bytes × Bytes) : emitHeader h = headerLine h ++ [LF] := by
  have hsep : lit ": " = [colon, SP] := rfl
  simp [emitHeader, headerLine, hsep, CRLF]

theorem methods_unspaced : ∀ m ∈ METHODS, ∀ c ∈ m, isSpace c = false := by
  simp only [METHODS, List.forall_mem_cons]
  and_intros
  all_goals first | exact lit_forall _ (by decide) | exact List.forall_mem_nil _

theorem version_unspaced : ∀ c ∈ httpVersion, isSpace c = false := lit_forall _ (by decide)

theorem notMem_of_unspaced (s : Bytes) (b : Byte) (hb : isSpace b = true)
    (h : ∀ c ∈ s, isSpace c = false) : b ∉ s := by
  intro hm
  rw [h b hm] at hb
  contradiction

theorem lf_notMem_requestLine (method uri : Bytes) (hm : method ∈ METHODS)
    (hu : ∀ c ∈ uri, isSpace c = false) : LF ∉ requestLine method uri ++ [CR] := by
  have hlf : isSpace LF = true := by decide
  have h1 := notMem_of_unspaced method LF hlf (methods_unspaced method hm)
  have h2 := notMem_of_unspaced uri LF hlf hu
  have h3 := notMem_of_unspaced httpVersion LF hlf version_unspaced
  have h4 : LF ≠ SP := by decide
  have h5 : LF ≠ CR := by decide
  simp [requestLine, h1, h2, h3, h4, h5]

/-- The request line splits into its three tokens; the carriage return makes an empty
fourth one, which is dropped. -/
theorem splitRequestLine_requestLine (method uri : Bytes) (hm : method ∈ METHODS)
    (hu : ∀ c ∈ uri, isSpace c = false) :
    splitRequestLine (requestLine method uri ++ [CR]) = [method, uri, httpVersion] := by
  have hsp : isSpace SP = true := by decide
  have hcr : isSpace CR = true := by decide
  have hend : (httpVersion ++ [CR]).splitOnP isSpace = [httpVersion, []] := by
    rw [List.splitOnP_append_cons_of_forall_mem version_unspaced CR hcr, List.splitOnP_nil]
  have hsplit : (requestLine method uri ++ [CR]).splitOnP isSpace =
      [method, uri, httpVersion, []] := by
    have hassoc : requestLine method uri ++ [CR] =
        method ++ SP :: (uri ++ SP :: (httpVersion ++ [CR])) := by simp [requestLine]
    rw [hassoc, List.splitOnP_append_cons_of_forall_mem (methods_unspaced method hm) SP hsp,
      List.splitOnP_append_cons_of_forall_mem hu SP hsp, hend]
  simp [splitRequestLine, hsplit]

/-- Names without colon and line feed, values without line feed. -/
def WellFormed (headers : List (Bytes × Bytes)) : Prop :=
  ∀ h ∈ headers, colon ∉ h.1 ∧ LF ∉ h.1 ∧ LF ∉ h.2

instance (headers : List (Bytes × Bytes)) : Decidable (WellFormed headers) :=
  inferInstanceAs (Decidable (∀ _ ∈ _, _))

theorem headerLine_lf (h : Bytes × Bytes) (h1 : LF ∉ h.1) (h2 : LF ∉ h.2) :
    LF ∉ headerLine h := by
  have h3 : LF ≠ colon := by decide
  have h4 : LF ≠ SP := by decide
  have h5 : LF ≠ CR := by decide
  simp [headerLine, h1, h2, h3, h4, h5]

theorem headerLine_ne_nil (h : Bytes × Bytes) : headerLine h ≠ [] := by simp [headerLine]

/-- The lines of a head after its request line; the empty line keeps its carriage return. -/
def headLines (headers : List (Bytes × Bytes)) : List Bytes := headers.map headerLine ++ [[CR]]

theorem writeLines_headLines (headers : List (Bytes × Bytes)) :
    StringStream.writeLines (headLines headers) = emitHeaders headers ++ CRLF := by
  induction headers with
  | nil => rfl
  | cons h headers ih =>
    have hcons : headLines (h :: headers) = headerLine h :: headLines headers := rfl
    have hwrite := StringStream.writeLines_cons (headerLine h) (headLines headers) []
    simp only [List.append_nil] at hwrite
    rw [hcons, hwrite, ih]
    simp [emitHeaders, emitHeader_eq]

theorem headLines_mem (headers : List (Bytes × Bytes)) (hw : WellFormed headers) :
    ∀ line ∈ headLines headers, line ≠ [] ∧ LF ∉ line := by
  intro line hl
  rcases List.mem_append.mp hl with hl | hl
  · obtain ⟨h, hh, rfl⟩ := List.mem_map.mp hl
    obtain ⟨-, h1, h2⟩ := hw h hh
    exact ⟨headerLine_ne_nil h, headerLine_lf h h1 h2⟩
  · rw [List.mem_singleton.mp hl]
    decide

/-- A written header is read back under its name with its value. -/
theorem parseHeaderLine_headerLine (bld : Build) (r : HttpRequest) (h : Bytes × Bytes)
    (hc : colon ∉ h.1) (h1 : LF ∉ h.1) (h2 : LF ∉ h.2) :
    parseHeaderLine bld r (headerLine h) = storeHeader bld r h.1 h.2 := by
  have hpop : popBack CR (SP :: (h.2 ++ [CR])) = SP :: h.2 := popBack_append_self CR (SP :: h.2)
  have hlf := headerLine_lf h h1 h2
  rw [headerLine, parseHeaderLine_colon bld r h.1 _ hc hlf, hpop]
  simp

/-- What `parse_request` records before it reads any header. -/
def withRequestLine (r : HttpRequest) (method uri : Bytes) : HttpRequest :=
  { r with
    method := .cast (METHODS.findIdx (· = method))
    requestUri := uri
    httpVersion := httpVersion }

/-- A head with a body is its first line and what stands on the lines after it. -/
theorem requestHead_cut (method uri : Bytes) (headers : List (Bytes × Bytes)) (body : Bytes) :
    requestHead method uri headers ++ body = (requestLine method uri ++ [CR]) ++
      LF :: (StringStream.writeLines (headLines headers) ++ body) := by
  simp [requestHead, writeLines_headLines, CRLF]

/-- Parsing a well-formed head followed by a body is a fold over the headers, then over the
lines the loop goes on to read in the body. -/
theorem parseRequestBody_head (bld : Build) (r : HttpRequest) (method uri : Bytes)
    (headers : List (Bytes × Bytes)) (body : Bytes) (hm : method ∈ METHODS)
    (hu : ∀ c ∈ uri, isSpace c = false) (hw : WellFormed headers) :
    parseRequestBody bld (requestHead method uri headers ++ body) r =
      ((headLines headers ++ StringStream.lineBlock body).foldlM
        (parseHeaderLine bld) (withRequestLine r method uri)).map fun r =>
          (.success, { r with messageBody := StringStream.afterBlock body }) := by
  have hlf := lf_notMem_requestLine method uri hm hu
  have hlines := headLines_mem headers hw
  rw [requestHead_cut, parseRequestBody_eq bld _ r (by simp), requestLineOf_cut _ _ hlf,
    afterRequestLine_cut _ _ hlf, splitRequestLine_requestLine method uri hm hu]
  simp only [hm, if_true, parseFields, StringStream.lineBlock_writeLines _ body hlines,
    StringStream.afterBlock_writeLines _ body hlines]
  rfl

end OneOne
end HttpCpp
