import HttpCpp.Framework.PairCut
import HttpCpp.Protocol.HttpDate
import HttpCpp.Protocol.Response

namespace HttpCpp
namespace HttpResponse

/-- A header as it stands on its line. -/
def headerText (h : Bytes × Bytes) : Bytes := h.1 ++ colon :: SP :: h.2

/-- All headers in the order in which they are written. -/
def headers (response : HttpResponse) : List (Bytes × Bytes) :=
  response.generalHeader.entries ++ response.responseHeader.entries ++
    response.entityHeader.entries

def statusLine (response : HttpResponse) (phrase : Bytes) : Bytes :=
  response.httpVersion ++ SP :: (decimalText response.statusCode.val ++ SP :: phrase)

/-- The status line and the headers, a line each. -/
def lines (response : HttpResponse) (phrase : Bytes) : List Bytes :=
  response.statusLine phrase :: response.headers.map headerText

theorem emitHeaders_eq (hs : List (Bytes × Bytes)) :
    emitHeaders hs = writePieces CR LF (hs.map headerText) := by
  have hsep : lit ": " = [colon, SP] := rfl
  have hone : emitHeader = fun h => headerText h ++ [CR, LF] := by
    funext h
    simp [emitHeader, headerText, hsep, CRLF]
  rw [emitHeaders, writePieces, List.flatMap_map, hone]

/-- A response is its lines, the empty line and the body. -/
theorem serialize_lines (response : HttpResponse) (phrase : Bytes)
    (h : response.statusCode.reasonPhrase = .ok phrase) :
    response.serialize =
      .ok (writePieces CR LF (response.lines phrase) ++ CR :: LF :: response.messageBody) := by
  simp only [serialize, h, emitHeaders_eq]
  simp [lines, writePieces, headers, statusLine, CRLF, List.flatMap_append]

/-- What a response says. -/
structure Decoded where
  httpVersion : Bytes
  statusCode : Nat
  header : List (Bytes × Bytes)
  messageBody : Bytes
  deriving DecidableEq

def decoded (response : HttpResponse) : Decoded :=
  ⟨response.httpVersion, response.statusCode.val, response.headers, response.messageBody⟩

/-- Reading by the grammar: the status line up to the first line end, then a header a line, cut at
the first colon before a space, up to the empty line, and the rest is the body. -/
def decode (bytes : Bytes) : Option Decoded :=
  match cutPair CR LF bytes with
  | none => none
  | some (statusLine, rest) =>
    match readPieces CR LF rest with
    | none => none
    | some (headerLines, messageBody) =>
      (headerLines.mapM (cutPair colon SP)).map fun header =>
        ⟨before SP statusLine, decimalValue (before SP (onward SP statusLine).tail), header,
          messageBody⟩

/-- A known status, and no separator of the grammar in version, header names and values. -/
structure Plain (response : HttpResponse) : Prop where
  known : response.statusCode.Known
  httpVersion : SP ∉ response.httpVersion ∧ CR ∉ response.httpVersion ∧ LF ∉ response.httpVersion
  names : ∀ h ∈ response.headers, colon ∉ h.1 ∧ CR ∉ h.1 ∧ LF ∉ h.1
  values : ∀ h ∈ response.headers, CR ∉ h.2 ∧ LF ∉ h.2

theorem headerText_unpaired (h : Bytes × Bytes) :
    Unpaired CR LF (headerText h) ↔ Unpaired CR LF h.1 ∧ Unpaired CR LF h.2 := by
  have hcolon : colon ≠ CR ∧ colon ≠ LF := by decide
  have hspace : SP ≠ CR := by decide
  rw [headerText, unpaired_append CR LF colon hcolon.1 hcolon.2, unpaired_cons]
  simp [hspace]

theorem headerText_ne_nil (h : Bytes × Bytes) : headerText h ≠ [] := by simp [headerText]

theorem phrase_plain (code : Status) (phrase : Bytes) (h : code.reasonPhrase = .ok phrase) :
    CR ∉ phrase := by
  have hall : ∀ e ∈ Status.reasonPhrases, ∀ c ∈ e.2, 32 ≤ c.val := by
    simp only [Status.reasonPhrases, List.forall_mem_cons]
    and_intros
    all_goals first | exact lit_forall _ (by decide) | exact List.forall_mem_nil _
  intro hcr
  simp only [Status.reasonPhrase] at h
  split at h
  · rename_i found hfind
    obtain rfl := Except.ok.inj h
    exact absurd (hall _ (Assoc.find_mem _ _ _ hfind) CR hcr) (by decide)
  · simp at h

theorem decimalText_spaceless (n : Nat) : SP ∉ decimalText n ∧ CR ∉ decimalText n := by
  constructor
  · intro h
    have hdigit := decimalText_digit n SP h
    exact absurd hdigit (by decide)
  · intro h
    have hdigit := decimalText_digit n CR h
    exact absurd hdigit (by decide)

theorem statusLine_unpaired (response : HttpResponse) (phrase : Bytes)
    (hversion : Unpaired CR LF response.httpVersion)
    (hphrase : response.statusCode.reasonPhrase = .ok phrase) :
    Unpaired CR LF (response.statusLine phrase) := by
  have hspace : SP ≠ CR ∧ SP ≠ LF := by decide
  have hcode := unpaired_of_notMem CR LF _ (decimalText_spaceless response.statusCode.val).2
  have htext := unpaired_of_notMem CR LF _ (phrase_plain _ phrase hphrase)
  rw [statusLine, unpaired_append CR LF SP hspace.1 hspace.2,
    unpaired_append CR LF SP hspace.1 hspace.2]
  exact ⟨hversion, hcode, htext⟩

theorem mapM_headerText (hs : List (Bytes × Bytes)) (h : ∀ e ∈ hs, colon ∉ e.1) :
    (hs.map headerText).mapM (cutPair colon SP) = some hs := by
  induction hs with
  | nil => rfl
  | cons e hs ih =>
    obtain ⟨hname, htail⟩ := List.forall_mem_cons.mp h
    have hcut := cutPair_append colon SP (by decide) e.1 e.2 (unpaired_of_notMem _ _ _ hname)
    rw [List.map_cons, List.mapM_cons, headerText, hcut, ih htail]
    rfl

theorem decode_serialize (response : HttpResponse) (h : response.Plain) :
    ∃ bytes, response.serialize = .ok bytes ∧ decode bytes = some response.decoded := by
  obtain ⟨phrase, hphrase⟩ := Status.reasonPhrase_known _ h.known
  refine ⟨_, serialize_lines response phrase hphrase, ?_⟩
  have hcrlf : CR ≠ LF := by decide
  have hfirst := statusLine_unpaired response phrase
    (unpaired_of_notMem _ _ _ h.httpVersion.2.1) hphrase
  have hrest : ∀ line ∈ response.headers.map headerText, line ≠ [] ∧ Unpaired CR LF line := by
    intro line hline
    obtain ⟨e, he, rfl⟩ := List.mem_map.mp hline
    refine ⟨headerText_ne_nil e, (headerText_unpaired e).mpr ⟨?_, ?_⟩⟩
    · exact unpaired_of_notMem _ _ _ (h.names e he).2.1
    · exact unpaired_of_notMem _ _ _ (h.values e he).1
  have hcut := cutPair_append CR LF hcrlf (response.statusLine phrase)
    (writePieces CR LF (response.headers.map headerText) ++ CR :: LF :: response.messageBody) hfirst
  have hassoc : writePieces CR LF (response.lines phrase) ++ CR :: LF :: response.messageBody =
      response.statusLine phrase ++ CR :: LF :: (writePieces CR LF
        (response.headers.map headerText) ++ CR :: LF :: response.messageBody) := by
    simp [lines, writePieces]
  have hblock := (readPieces_write_iff CR LF hcrlf (response.headers.map headerText)
    response.messageBody).mpr hrest
  have hheaders := mapM_headerText response.headers fun e he => (h.names e he).1
  have hcode := (decimalText_spaceless response.statusCode.val).1
  simp only [decode, hassoc, hcut, hblock, hheaders, Option.map_some, decoded]
  rw [statusLine, before_cut SP _ _ h.httpVersion.1, onward_cut SP _ _ h.httpVersion.1,
    List.tail_cons, before_cut SP _ _ hcode, decimalValue_decimalText]

/-- Reading a response that was written gives back what it says, so two responses that say
different things are written differently. -/
theorem decode_serialize_unique :
    (∀ response : HttpResponse, response.Plain →
      ∃ bytes, response.serialize = .ok bytes ∧ decode bytes = some response.decoded) ∧
    ∀ response response' : HttpResponse, response.Plain → response'.Plain →
      response.serialize = response'.serialize → response.decoded = response'.decoded := by
  refine ⟨decode_serialize, ?_⟩
  intro response response' h h' hsame
  obtain ⟨bytes, hbytes, hdecode⟩ := decode_serialize response h
  obtain ⟨bytes', hbytes', hdecode'⟩ := decode_serialize response' h'
  rw [hbytes, hbytes'] at hsame
  obtain rfl := Except.ok.inj hsame
  exact Option.some.inj (hdecode.symm.trans hdecode')

/-- A response to a HEAD request, and a body that looks like the rest of a head. -/
def bodyLike : HttpResponse where
  httpVersion := DEFAULT_HTTP_VERSION
  statusCode := .httpOk
  generalHeader := StdMap.empty.assign (lit "Date") (lit "now: then")
  responseHeader := StdMap.empty.assign (lit "Server") []
  entityHeader := StdMap.empty.assign [] (lit ": ")
  messageBody := lit "\r\nServer: b\r\n\r\n"

theorem decode_serialize_unique_body :
    (∃ bytes, bodyLike.serialize = .ok bytes ∧ decode bytes = some bodyLike.decoded) ∧
      bodyLike.serialize ≠ { bodyLike with messageBody := [] }.serialize := by
  have hplain : bodyLike.Plain :=
    ⟨by decide, by decide, by decide, by decide⟩
  have hbare : { bodyLike with messageBody := [] }.Plain :=
    ⟨by decide, by decide, by decide, by decide⟩
  have hother : bodyLike.decoded ≠ { bodyLike with messageBody := [] }.decoded := by decide
  exact ⟨decode_serialize_unique.1 bodyLike hplain,
    fun hsame => hother (decode_serialize_unique.2 bodyLike _ hplain hbare hsame)⟩

/-- Before the first empty line a line for the status and one for each header, and the body after
it. -/
def Framed (response : HttpResponse) (bytes : Bytes) : Prop :=
  ∃ phrase, response.statusCode.reasonPhrase = .ok phrase ∧
    readPieces CR LF bytes = some (response.lines phrase, response.messageBody)

/-- A response is framed by its lines when none of them holds a line end. -/
theorem framed_iff (response : HttpResponse) (bytes : Bytes)
    (hversion : Unpaired CR LF response.httpVersion) (h : response.serialize = .ok bytes) :
    response.Framed bytes ↔ ∀ e ∈ response.headers, Unpaired CR LF e.1 ∧ Unpaired CR LF e.2 := by
  by_cases hknown : response.statusCode.Known
  · obtain ⟨phrase, hphrase⟩ := Status.reasonPhrase_known _ hknown
    rw [serialize_lines response phrase hphrase] at h
    obtain rfl := Except.ok.inj h
    have hfirst := statusLine_unpaired response phrase hversion hphrase
    have hne : response.statusLine phrase ≠ [] := by simp [statusLine]
    have hread := readPieces_write_iff CR LF (by decide) (response.lines phrase)
      response.messageBody
    simp only [Framed, hphrase, Except.ok.injEq, exists_eq_left', hread]
    simp only [lines, List.forall_mem_cons, List.forall_mem_map, hfirst, hne, ne_eq,
      not_false_eq_true, headerText_ne_nil, headerText_unpaired, true_and]
  · rw [serialize_unknown response hknown] at h
    simp at h

end HttpResponse

/-- The headers a resource gives stand on a line each. The value of `Server` does not count, as it
is replaced. -/
def GenericResponse.OneLine (gresponse : GenericResponse) : Prop :=
  ∀ e ∈ gresponse.header.entries,
    Unpaired CR LF e.1 ∧ (e.1 = lit "Server" ∨ Unpaired CR LF e.2)

instance (gresponse : GenericResponse) : Decidable gresponse.OneLine :=
  inferInstanceAs (Decidable (∀ _ ∈ _, _))

namespace HttpResponse

/-- The date comes first, and the headers of the resource and the server follow in key order. -/
theorem makeResponse_headers (httpVersion date : Bytes) (gresponse : GenericResponse) :
    (makeResponse httpVersion date gresponse).headers =
      (lit "Date", date) :: (makeResponse httpVersion date gresponse).responseHeader.entries :=
  List.append_nil _

theorem makeResponse_oneLine (httpVersion date : Bytes) (gresponse : GenericResponse)
    (hdate : Unpaired CR LF date) :
    (∀ e ∈ (makeResponse httpVersion date gresponse).headers,
      Unpaired CR LF e.1 ∧ Unpaired CR LF e.2) ↔ gresponse.OneLine := by
  have hserver : Unpaired CR LF (lit "Server") ∧ Unpaired CR LF (lit "http-cpp v0.1") := by
    decide
  have hname : Unpaired CR LF (lit "Date") := by decide
  simp only [makeResponse_headers, List.forall_mem_cons, hname, hdate, true_and]
  constructor
  · intro h e he
    have hfind := (StdMap.mem_entries _ e.1 e.2).mp he
    by_cases hkey : e.1 = lit "Server"
    · exact ⟨hkey ▸ hserver.1, .inl hkey⟩
    · have hmem := (StdMap.mem_entries _ e.1 e.2).mpr
        ((makeResponse_find httpVersion date gresponse e.1).trans ((if_neg hkey).trans hfind))
      exact ⟨(h e hmem).1, .inr (h e hmem).2⟩
  · intro h e he
    have hfind := (StdMap.mem_entries _ e.1 e.2).mp he
    rw [makeResponse_find] at hfind
    split_ifs at hfind with hkey
    · rw [hkey, ← Option.some.inj hfind]
      exact hserver
    · obtain ⟨hleft, hright⟩ := h e ((StdMap.mem_entries _ e.1 e.2).mpr hfind)
      exact ⟨hleft, hright.resolve_left hkey⟩

theorem httpVersion_unpaired (handler : Handler) (date : Bytes) (gresponse : GenericResponse) :
    Unpaired CR LF (handler.makeResponse date gresponse).httpVersion := by
  have hfree : CR ∉ OneOne.httpVersion ∧ CR ∉ OneZero.httpVersion := by decide
  cases handler
  · exact unpaired_of_notMem _ _ _ hfree.1
  · exact unpaired_of_notMem _ _ _ hfree.2

theorem handler_oneLine (handler : Handler) (date : Bytes) (gresponse : GenericResponse)
    (hdate : Unpaired CR LF date) :
    (∀ e ∈ (handler.makeResponse date gresponse).headers,
      Unpaired CR LF e.1 ∧ Unpaired CR LF e.2) ↔ gresponse.OneLine := by
  cases handler <;> exact makeResponse_oneLine _ _ gresponse hdate

theorem httptime_unpaired (timeptr : Tm) : Unpaired CR LF (httptime timeptr) := by
  apply unpaired_of_notMem
  intro hcr
  exact absurd (httptime_printable timeptr CR hcr) (by decide)

/-- What is written for a resource's response has a line for each header and the body after the
empty line, exactly when no header name or value that is sent holds a line end. -/
theorem makeResponse_framed_iff (handler : Handler) (timeptr : Tm) (gresponse : GenericResponse)
    (bytes : Bytes)
    (h : (handler.makeResponse (httptime timeptr) gresponse).serialize = .ok bytes) :
    (handler.makeResponse (httptime timeptr) gresponse).Framed bytes ↔ gresponse.OneLine := by
  have hdate := httptime_unpaired timeptr
  have hversion := httpVersion_unpaired handler (httptime timeptr) gresponse
  rw [framed_iff _ bytes hversion h, handler_oneLine handler _ gresponse hdate]

/-- The answer to a request that is sent on to a target of its own. -/
def redirection (target : Bytes) : HttpResponse :=
  Handler.oneOne.makeResponse (httptime ⟨37, 49, 8, 6, 10, 94, 0⟩)
    ⟨⟨302, by decide⟩, StdMap.empty.assign (lit "Location") target, lit "moved", true⟩

theorem makeResponse_framed_redirection :
    ∃ bytes, (redirection (lit "/a\nb")).serialize = .ok bytes ∧
      (redirection (lit "/a\nb")).Framed bytes := by
  obtain ⟨bytes, hbytes, -⟩ := serialize_known (redirection (lit "/a\nb")) (by decide)
  refine ⟨bytes, hbytes, ?_⟩
  exact (makeResponse_framed_iff .oneOne _ _ bytes hbytes).mpr (by decide)

/-- A target with a line end adds a line to the head. -/
theorem makeResponse_split :
    ∃ bytes lines body, (redirection (lit "/\r\nSet-Cookie: a")).serialize = .ok bytes ∧
      readPieces CR LF bytes = some (lines, body) ∧
      lines.length = (redirection (lit "/\r\nSet-Cookie: a")).headers.length + 2 := by
  refine ⟨writePieces CR LF [lit "HTTP/1.1 302 Found", lit "Date: Sun,  6 Nov 1994 08:49:37 GMT",
    lit "Location: /", lit "Set-Cookie: a", lit "Server: http-cpp v0.1"] ++ CR :: LF :: lit "moved",
    _, _, by decide, (readPieces_write_iff CR LF (by decide) _ _).mpr (by decide),
    by decide⟩

/-- The name of the header on a line, where a colon ends one. -/
def nameOf (line : Bytes) : Option Bytes :=
  if colon ∈ line then some (before colon line) else none

/-- The names on the lines between the status line and the first empty line. -/
def sentNames (bytes : Bytes) : Option (List Bytes) :=
  (readPieces CR LF bytes).map fun block => block.1.tail.filterMap nameOf

/-- No header name occurs on two lines. -/
def NamesOnce (bytes : Bytes) : Prop := ∃ names ∈ sentNames bytes, names.Nodup

end HttpResponse

/-- The lines that the headers of a resource give: the text of each, cut at its line ends, up to
the first empty line. The value of `Server` is the one that replaces the resource's own. -/
def GenericResponse.headerLines (gresponse : GenericResponse) : List Bytes :=
  (((gresponse.header.assign (lit "Server") (lit "http-cpp v0.1")).entries.map
    HttpResponse.headerText).flatMap (splitPair CR LF)).takeWhile (· ≠ [])

/-- The names on those lines. -/
def GenericResponse.lineNames (gresponse : GenericResponse) : List Bytes :=
  gresponse.headerLines.filterMap HttpResponse.nameOf

namespace HttpResponse

theorem nameOf_headerText (h : Bytes × Bytes) (hname : colon ∉ h.1) :
    nameOf (headerText h) = some h.1 := by
  rw [nameOf, headerText, if_pos (by simp), before_cut colon _ _ hname]

/-- The names that are sent are those on the lines that the texts of the headers fall into. -/
theorem sentNames_serialize (response : HttpResponse) (bytes : Bytes)
    (hversion : Unpaired CR LF response.httpVersion) (h : response.serialize = .ok bytes) :
    sentNames bytes = some ((((response.headers.map headerText).flatMap
      (splitPair CR LF)).takeWhile (· ≠ [])).filterMap nameOf) := by
  by_cases hknown : response.statusCode.Known
  · obtain ⟨phrase, hphrase⟩ := Status.reasonPhrase_known _ hknown
    rw [serialize_lines response phrase hphrase] at h
    obtain rfl := Except.ok.inj h
    have hfirst := statusLine_unpaired response phrase hversion hphrase
    have hne : response.statusLine phrase ≠ [] := by simp [statusLine]
    have hsplit := readPieces_split CR LF (by decide) (response.lines phrase) response.messageBody
    rw [lines, List.flatMap_cons, splitPair_unpaired CR LF _ hfirst, List.singleton_append,
      List.takeWhile_cons_of_pos (by simpa using hne)] at hsplit
    obtain ⟨block, hread, hblock⟩ := Option.map_eq_some_iff.mp hsplit
    rw [sentNames, lines, hread, Option.map_some, hblock, List.tail_cons]
  · rw [serialize_unknown response hknown] at h
    simp at h

theorem makeResponse_responseHeader (httpVersion date : Bytes) (gresponse : GenericResponse) :
    (makeResponse httpVersion date gresponse).responseHeader =
      gresponse.header.assign (lit "Server") (lit "http-cpp v0.1") := by
  apply StdMap.ext_find
  intro name
  rw [makeResponse_find]
  split_ifs with hname
  · rw [hname, StdMap.find_assign]
  · rw [StdMap.find_assign_ne _ _ _ _ hname]

/-- The date stands on the first line, and its name does not come again exactly when the resource
gives no line with that name. -/
theorem makeResponse_namesOnce (httpVersion date : Bytes) (gresponse : GenericResponse)
    (bytes : Bytes) (hversion : Unpaired CR LF httpVersion) (hdate : Unpaired CR LF date)
    (h : (makeResponse httpVersion date gresponse).serialize = .ok bytes) :
    NamesOnce bytes ↔ gresponse.lineNames.Nodup ∧ lit "Date" ∉ gresponse.lineNames := by
  have hname : Unpaired CR LF (lit "Date") ∧ colon ∉ lit "Date" := by decide
  have hline : Unpaired CR LF (headerText (lit "Date", date)) :=
    (headerText_unpaired _).mpr ⟨hname.1, hdate⟩
  have hne := headerText_ne_nil (lit "Date", date)
  have hnames := sentNames_serialize _ bytes hversion h
  rw [makeResponse_headers, makeResponse_responseHeader, List.map_cons, List.flatMap_cons,
    splitPair_unpaired CR LF _ hline, List.singleton_append,
    List.takeWhile_cons_of_pos (by simpa using hne),
    List.filterMap_cons_some (nameOf_headerText _ hname.2)] at hnames
  simp only [NamesOnce, hnames, Option.mem_some_iff, exists_eq_left', List.nodup_cons]
  exact and_comm

theorem lines_oneLine (hs : List (Bytes × Bytes))
    (h : ∀ e ∈ hs, Unpaired CR LF e.1 ∧ Unpaired CR LF e.2) :
    ((hs.map headerText).flatMap (splitPair CR LF)).takeWhile (· ≠ []) = hs.map headerText := by
  induction hs with
  | nil => rfl
  | cons e hs ih =>
    obtain ⟨hfirst, hrest⟩ := List.forall_mem_cons.mp h
    have hline := splitPair_unpaired CR LF _ ((headerText_unpaired e).mpr hfirst)
    rw [List.map_cons, List.flatMap_cons, hline, List.singleton_append,
      List.takeWhile_cons_of_pos (by simp [headerText_ne_nil]), ih hrest]

theorem filterMap_nameOf (hs : List (Bytes × Bytes)) (h : ∀ e ∈ hs, colon ∉ e.1) :
    (hs.map headerText).filterMap nameOf = hs.map Prod.fst := by
  induction hs with
  | nil => rfl
  | cons e hs ih =>
    obtain ⟨hfirst, hrest⟩ := List.forall_mem_cons.mp h
    rw [List.map_cons, List.filterMap_cons_some (nameOf_headerText e hfirst), ih hrest,
      List.map_cons]

/-- Where each header has a line, and its name no colon, the names on the lines are the keys. -/
theorem lineNames_oneLine (gresponse : GenericResponse) (hline : gresponse.OneLine)
    (hnames : ∀ e ∈ gresponse.header.entries, colon ∉ e.1) :
    gresponse.lineNames =
      (gresponse.header.assign (lit "Server") (lit "http-cpp v0.1")).entries.map Prod.fst := by
  have hall := (makeResponse_oneLine [] [] gresponse (unpaired_nil CR LF)).mpr hline
  rw [makeResponse_headers, makeResponse_responseHeader] at hall
  obtain ⟨-, hlines⟩ := List.forall_mem_cons.mp hall
  have hserver : colon ∉ lit "Server" := by decide
  have hcolons := StdMap.forall_assign (fun e => colon ∉ e.1) gresponse.header (lit "Server")
    (lit "http-cpp v0.1") hnames hserver
  rw [GenericResponse.lineNames, GenericResponse.headerLines, lines_oneLine _ hlines,
    filterMap_nameOf _ hcolons]

/-- No header name is on two lines of what is written exactly when no two of the lines that the
headers of the resource give have one name, and none has the name of the date. Where each of these
headers has a line, and its name no colon, that is when none of them is a date. -/
theorem makeResponse_namesOnce_iff (handler : Handler) (timeptr : Tm)
    (gresponse : GenericResponse) (bytes : Bytes)
    (h : (handler.makeResponse (httptime timeptr) gresponse).serialize = .ok bytes) :
    (NamesOnce bytes ↔ gresponse.lineNames.Nodup ∧ lit "Date" ∉ gresponse.lineNames) ∧
    (gresponse.OneLine → (∀ e ∈ gresponse.header.entries, colon ∉ e.1) →
      (NamesOnce bytes ↔ gresponse.header.find (lit "Date") = none)) := by
  have hdate := httptime_unpaired timeptr
  have hversion := httpVersion_unpaired handler (httptime timeptr) gresponse
  have honce : NamesOnce bytes ↔ gresponse.lineNames.Nodup ∧ lit "Date" ∉ gresponse.lineNames := by
    cases handler <;> exact makeResponse_namesOnce _ _ gresponse bytes hversion hdate h
  refine ⟨honce, ?_⟩
  intro hline hnames
  have hserver : lit "Date" ≠ lit "Server" := by decide
  rw [honce, lineNames_oneLine gresponse hline hnames, and_iff_right (StdMap.nodup_keys _),
    ← StdMap.find_eq_none, StdMap.find_assign_ne _ _ _ _ hserver]

/-- A `Server` of the resource's own is replaced, and does no harm; a date that the value of another
header begins a line with does. -/
theorem makeResponse_namesOnce_server :
    NamesOnce (lit ("HTTP/1.0 200 OK\r\nDate: Sun,  6 Nov 1994 08:49:37 GMT\r\n" ++
        "Server: http-cpp v0.1\r\n\r\n")) ∧
      ¬NamesOnce (lit ("HTTP/1.1 200 OK\r\nDate: Sun,  6 Nov 1994 08:49:37 GMT\r\n" ++
        "Server: http-cpp v0.1\r\nX: 1\r\nDate: then\r\n\r\n")) := by
  constructor
  · refine ((makeResponse_namesOnce_iff .oneZero ⟨37, 49, 8, 6, 10, 94, 0⟩
      ⟨.httpOk, StdMap.empty.assign (lit "Server") (lit "mine"), [], true⟩ _ ?_).2 ?_ ?_).mpr ?_
    · decide
    · decide
    · decide
    · decide
  · rw [(makeResponse_namesOnce_iff .oneOne ⟨37, 49, 8, 6, 10, 94, 0⟩
      ⟨.httpOk, StdMap.empty.assign (lit "X") (lit "1\r\nDate: then"), [], true⟩ _ ?_).1]
    · decide
    · decide

/-- What is written for a resource that gives a date of its own. -/
def datedTwice : Bytes :=
  lit ("HTTP/1.1 200 OK\r\nDate: Sun,  6 Nov 1994 08:49:37 GMT\r\nDate: then\r\n" ++
    "Server: http-cpp v0.1\r\n\r\n")

/-- A date of the resource's own is sent beside the one of `make_response`. -/
theorem makeResponse_namesTwice :
    (Handler.oneOne.makeResponse (httptime ⟨37, 49, 8, 6, 10, 94, 0⟩)
        ⟨.httpOk, StdMap.empty.assign (lit "Date") (lit "then"), [], true⟩).serialize =
      .ok datedTwice ∧
    sentNames datedTwice = some [lit "Date", lit "Date", lit "Server"] ∧
    ¬NamesOnce datedTwice := by
  have hnames : sentNames datedTwice = some [lit "Date", lit "Date", lit "Server"] := by
    decide
  refine ⟨by decide, hnames, ?_⟩
  simp [NamesOnce, hnames]

end HttpResponse
end HttpCpp
