import HttpCpp.Server.Rejection
import HttpCpp.Service.WrittenRequest

namespace HttpCpp
namespace HttpService

open OneOne

/-- Texts that begin with a host name and differ in the case of its letters at most. -/
def HostVariant (s s' : Bytes) : Prop :=
  SameLetters (s.takeWhile isNameByte) (s'.takeWhile isNameByte) ∧
    s.dropWhile isNameByte = s'.dropWhile isNameByte

def UriVariant (uri uri' : Bytes) : Prop :=
  uri = uri' ∨ ∃ s s', uri = lit "http://" ++ s ∧ uri' = lit "http://" ++ s' ∧ HostVariant s s'

def HeaderVariant (h h' : Bytes × Bytes) : Prop :=
  SameLetters h.1 h'.1 ∧ (h.2 = h'.2 ∨ SameLetters h.1 (lit "Host") ∧ HostVariant h.2 h'.2)

/-- Requests that differ in the case of letters of header names and of the host name at most. -/
structure CaseVariant (w w' : WrittenRequest) : Prop where
  method : w.method = w'.method
  uri : UriVariant w.uri w'.uri
  headers : List.Forall₂ HeaderVariant w.headers w'.headers
  body : w.body = w'.body

/-- The requests spell the name of the `Host` header and the host name alike. -/
structure SpelledAlike (w w' : WrittenRequest) : Prop where
  uri : w.uri = w'.uri
  headers : List.Forall₂ (fun h h' => SameLetters h.1 (lit "Host") → h = h') w.headers w'.headers

/-- No `Host` header is read from the body. -/
def HostlessBody (w : WrittenRequest) : Prop := Assoc.find (lit "Host") w.bodyHeaders = none

/-- Hosts that differ in the case of the letters of the name at most. -/
def HostLike (h h' : Host) : Prop := h.port = h'.port ∧ SameLetters h.name h'.name

theorem hostVariant_refl (s : Bytes) : HostVariant s s := ⟨rfl, rfl⟩

theorem hostVariant_host (s s' : Bytes) (h : HostVariant s s') :
    HostLike (authority s).host (authority s').host := by
  obtain ⟨hname, hrest⟩ := h
  refine ⟨?_, hname⟩
  rw [Authority.host, Authority.host, authority, authority, hrest]

/-- The values of the `Host` header that two case variants are read with. -/
theorem host_values (w w' : WrittenRequest) (h : CaseVariant w w') (value value' : Bytes)
    (hvalue : Assoc.find (lit "Host") w.headers = some value)
    (hvalue' : Assoc.find (lit "Host") w'.headers = some value') : HostVariant value value' := by
  have hpair : HeaderVariant (lit "Host", value) (lit "Host", value') := by
    apply forall₂_once (fun h => SameLetters h.1 (lit "Host"))
      (fun h => SameLetters h.1 (lit "Host")) h.headers _ w.hostOnce
      (Assoc.find_mem _ _ _ hvalue) _ (Assoc.find_mem _ _ _ hvalue')
    · exact decide_eq_true (SameLetters.refl _)
    · intro x y hxy
      simpa using hxy.1.congr_left (lit "Host")
    · exact decide_eq_true (SameLetters.refl _)
  rcases hpair.2 with rfl | ⟨-, hvariant⟩
  · exact hostVariant_refl _
  · exact hvariant

theorem uriVariant_scheme (s uri' : Bytes) (h : UriVariant (lit "http://" ++ s) uri') :
    ∃ s', uri' = lit "http://" ++ s' ∧ HostVariant s s' := by
  rcases h with rfl | ⟨t, t', ht, ht', hvariant⟩
  · exact ⟨s, rfl, hostVariant_refl s⟩
  · obtain rfl := List.append_cancel_left ht
    exact ⟨t', ht', hvariant⟩

theorem uriVariant_other (uri uri' : Bytes) (h : UriVariant uri uri')
    (hother : ∀ s, uri ≠ lit "http://" ++ s) : uri' = uri := by
  rcases h with rfl | ⟨t, -, ht, -, -⟩
  · rfl
  · exact absurd ht (hother t)

/-- Case variants that both give a host give one that is alike. -/
theorem extractHost_variant (w w' : WrittenRequest) (h : CaseVariant w w')
    (hbody : HostlessBody w) (r r' : HttpRequest) (huri : r.requestUri = w.uri)
    (huri' : r'.requestUri = w'.uri)
    (hfind : r.requestHeader.find (lit "Host") =
      Assoc.find (lit "Host") (w.headers ++ w.bodyHeaders))
    (hfind' : r'.requestHeader.find (lit "Host") =
      Assoc.find (lit "Host") (w'.headers ++ w'.bodyHeaders))
    (host host' : Host) (hhost : extractHost r = .ok host) (hhost' : extractHost r' = .ok host') :
    HostLike host host' := by
  have hsame : w'.bodyHeaders = w.bodyHeaders := by
    simp only [WrittenRequest.bodyHeaders, h.body]
  rw [hsame] at hfind'
  rw [Assoc.find_append, hbody, Option.or_none] at hfind hfind'
  have hforms := extractHost_forms r host hhost
  have hforms' := extractHost_forms r' host' hhost'
  rw [huri, hfind] at hforms
  rw [huri', hfind'] at hforms'
  -- the form of the Request-URI is the same in both, and decides where the host stands
  rcases hforms with ⟨s, hs, rfl⟩ | ⟨hlead, value, hvalue, rfl⟩ | ⟨hstar, rfl⟩
  · obtain ⟨s', hs', hvariant⟩ := uriVariant_scheme s w'.uri (hs ▸ h.uri)
    rw [hs'] at hforms'
    rcases hforms' with ⟨t, ht, rfl⟩ | ⟨hlead, -⟩ | ⟨hstar, -⟩
    · obtain rfl := List.append_cancel_left ht
      exact hostVariant_host s s' hvariant
    · exact absurd hlead (scheme_ne_slash s')
    · exact absurd hstar (scheme_ne_star s')
  · have hother : ∀ s, w.uri ≠ lit "http://" ++ s :=
      fun s hs => scheme_ne_slash s (hs ▸ hlead)
    rw [uriVariant_other _ _ h.uri hother] at hforms'
    rcases hforms' with ⟨t, ht, -⟩ | ⟨-, value', hvalue', rfl⟩ | ⟨hstar, -⟩
    · exact absurd ht (hother t)
    · exact hostVariant_host _ _ (host_values w w' h value value' hvalue hvalue')
    · exact absurd hstar (slash_ne_star _ hlead)
  · have hother : ∀ s, w.uri ≠ lit "http://" ++ s :=
      fun s hs => scheme_ne_star s (hs.symm.trans hstar)
    rw [uriVariant_other _ _ h.uri hother] at hforms'
    rcases hforms' with ⟨t, ht, -⟩ | ⟨hlead, -⟩ | ⟨-, rfl⟩
    · exact absurd ht (hother t)
    · exact absurd hstar (slash_ne_star _ hlead)
    · exact ⟨rfl, SameLetters.refl _⟩

end HttpService

namespace HttpWorker

open HttpService

variable {Site : Type}

/-- Two websites on one port have names that differ in more than the case of letters. -/
def NamesApart (websites : Websites Site) : Prop :=
  ∀ website ∈ websites.entries, ∀ website' ∈ websites.entries,
    HostLike website.1 website'.1 → website = website'

theorem findWebsite_found (websites : Websites Site) (request : HttpRequest)
    (website : Host × Site) (h : findWebsite websites request = .ok website) :
    website ∈ websites.entries ∧ extractHost request = .ok website.1 := by
  simp only [findWebsite] at h
  cases hhost : extractHost request with
  | error e => simp [hhost] at h
  | ok host =>
    simp only [hhost] at h
    cases hfind : websites.entries.find? (fun website => website.1 = host) with
    | none => simp [hfind] at h
    | some website' =>
      simp only [hfind, Except.ok.injEq] at h
      subst h
      have hsame : website'.1 = host := by simpa using List.find?_some hfind
      exact ⟨List.mem_of_find?_eq_some hfind, by rw [hsame]⟩

/-- The website of a request depends on its Request-URI and its `Host` header only. -/
theorem findWebsite_congr (websites : Websites Site) (r r' : HttpRequest)
    (huri : r.requestUri = r'.requestUri)
    (hhost : r.requestHeader.find (lit "Host") = r'.requestHeader.find (lit "Host")) :
    findWebsite websites r = findWebsite websites r' := by
  simp only [findWebsite, extractHost, huri, hhost]

theorem route_found (bld : Build) (garbage : Method) (websites : Websites Site) (frame : Bytes)
    (r : HttpRequest) (website : Host × Site)
    (h : route bld garbage websites frame = .ok (r, website)) :
    parseRequest bld garbage frame = .ok r ∧ findWebsite websites r = .ok website := by
  simp only [route] at h
  cases hparse : parseRequest bld garbage frame with
  | error e => simp [hparse] at h
  | ok r' =>
    cases hfind : findWebsite websites r' with
    | error e => simp [hparse, hfind, Except.map] at h
    | ok website' =>
      simp only [hparse, hfind, Except.map, Except.ok.injEq, Prod.mk.injEq] at h
      exact ⟨by rw [h.1], by rw [← h.1, hfind, h.2]⟩

/-- The headers that are alike in name and value where they are `Host` headers give the same
`Host`. -/
theorem find_spelledAlike (headers headers' : List (Bytes × Bytes))
    (h : List.Forall₂ HeaderVariant headers headers')
    (halike : List.Forall₂ (fun h h' => SameLetters h.1 (lit "Host") → h = h') headers headers') :
    Assoc.find (lit "Host") headers = Assoc.find (lit "Host") headers' := by
  induction h with
  | nil => rfl
  | @cons e e' headers headers' hvariant hrest ih =>
    obtain ⟨hsame, htail⟩ := List.forall₂_cons.mp halike
    by_cases hname : SameLetters e.1 (lit "Host")
    · rw [Assoc.find, Assoc.find, hsame hname, ih htail]
    · have hne : lit "Host" ≠ e.1 := fun hhost => hname (hhost ▸ SameLetters.refl _)
      have hne' : lit "Host" ≠ e'.1 :=
        fun hhost => hname ((hvariant.1.congr_left _).mpr (hhost ▸ SameLetters.refl _))
      rw [Assoc.find, Assoc.find, if_neg hne, if_neg hne', ih htail]

/-- Names are compared byte by byte: requests that differ in letter case at most are never for two
different websites, and where they spell the `Host` header and the host name alike they are for the
same website, or both for none. -/
theorem route_caseVariant (bld : Build) (garbage garbage' : Method) (websites : Websites Site)
    (hapart : NamesApart websites) (w w' : WrittenRequest) (h : CaseVariant w w') :
    (HostlessBody w → ∀ r r' website website',
      route bld garbage websites w.text = .ok (r, website) →
      route bld garbage' websites w'.text = .ok (r', website') → website = website') ∧
    (SpelledAlike w w' → ParseEnds bld w.text → ParseEnds bld w'.text →
      (route bld garbage websites w.text).map Prod.snd =
        (route bld garbage' websites w'.text).map Prod.snd) := by
  constructor
  · intro hbody r r' website website' hroute hroute'
    obtain ⟨hparse, hfind⟩ := route_found _ _ _ _ _ _ hroute
    obtain ⟨hparse', hfind'⟩ := route_found _ _ _ _ _ _ hroute'
    obtain ⟨huri, hvalue⟩ := WrittenRequest.parseRequest_host bld garbage w r hparse
    obtain ⟨huri', hvalue'⟩ := WrittenRequest.parseRequest_host bld garbage' w' r' hparse'
    obtain ⟨hmem, hhost⟩ := findWebsite_found websites r website hfind
    obtain ⟨hmem', hhost'⟩ := findWebsite_found websites r' website' hfind'
    exact hapart website hmem website' hmem' (extractHost_variant w w' h hbody r r' huri huri'
      hvalue hvalue' _ _ hhost hhost')
  · intro halike hends hends'
    obtain ⟨r, hparse⟩ := WrittenRequest.parseRequest_ended bld garbage w hends
    obtain ⟨r', hparse'⟩ := WrittenRequest.parseRequest_ended bld garbage' w' hends'
    obtain ⟨huri, hvalue⟩ := WrittenRequest.parseRequest_host bld garbage w r hparse
    obtain ⟨huri', hvalue'⟩ := WrittenRequest.parseRequest_host bld garbage' w' r' hparse'
    have hbody : w.bodyHeaders = w'.bodyHeaders := by
      simp only [WrittenRequest.bodyHeaders, h.body]
    have hsame : findWebsite websites r = findWebsite websites r' := by
      apply findWebsite_congr
      · rw [huri, huri', halike.uri]
      · rw [hvalue, hvalue', Assoc.find_append, Assoc.find_append, hbody,
          find_spelledAlike _ _ h.headers halike.headers]
    rw [route, route, hparse, hparse']
    show ((findWebsite websites r).map fun website => (r, website)).map Prod.snd =
      ((findWebsite websites r').map fun website => (r', website)).map Prod.snd
    rw [hsame]
    cases findWebsite websites r' with
    | error e => rfl
    | ok website => rfl

/-- Two websites on port 80, of the hosts `a` and `b`. -/
def twoWebsites : Websites Nat :=
  (StdMap.empty.emplace (Host.atDefaultPort (lit "a")) 0).emplace (Host.atDefaultPort (lit "b")) 1

theorem namesApart_twoWebsites : NamesApart twoWebsites := by
  intro website hmem website' hmem' hlike
  have hentries : twoWebsites.entries = [(⟨lit "a", 80⟩, 0), (⟨lit "b", 80⟩, 1)] := by
    decide
  simp only [hentries, List.mem_cons, List.not_mem_nil, or_false] at hmem hmem'
  rcases hmem with rfl | rfl
  · rcases hmem' with rfl | rfl
    · rfl
    · exact absurd hlike.2 (by decide)
  · rcases hmem' with rfl | rfl
    · exact absurd hlike.2 (by decide)
    · rfl

/-- Case variants of a `GET` request for `/`. -/
theorem caseVariant_getRoot (headers headers' : List (Bytes × Bytes)) (body : Bytes)
    (hw : OneOne.WellFormed headers) (hw' : OneOne.WellFormed headers')
    (honce : (headers.filter fun h => SameLetters h.1 (lit "Host")).length ≤ 1)
    (honce' : (headers'.filter fun h => SameLetters h.1 (lit "Host")).length ≤ 1)
    (h : List.Forall₂ HeaderVariant headers headers') :
    ∃ w w' : WrittenRequest, CaseVariant w w' ∧ w.uri = w'.uri ∧
      (w.headers = headers ∧ w.text = OneOne.requestHead (lit "GET") (lit "/") headers ++ body) ∧
      w'.headers = headers' ∧
      w'.text = OneOne.requestHead (lit "GET") (lit "/") headers' ++ body := by
  have hmethod : lit "GET" ∈ METHODS := by decide
  have huri : ∀ c ∈ lit "/", isSpace c = false := by decide +kernel
  exact ⟨⟨_, _, headers, body, hmethod, huri, hw, honce⟩,
    ⟨_, _, headers', body, hmethod, huri, hw', honce'⟩, ⟨rfl, Or.inl rfl, h, rfl⟩, rfl,
    ⟨rfl, rfl⟩, rfl, rfl⟩

theorem parseEnds_found (bld : Build) (garbage : Method) (websites : Websites Site)
    (frame : Bytes) (website : Host × Site)
    (h : (route bld garbage websites frame).map Prod.snd = .ok website) :
    ParseEnds bld frame := by
  cases hroute : route bld garbage websites frame with
  | error e => simp [hroute, Except.map] at h
  | ok found =>
    obtain ⟨hparse, -⟩ := route_found bld garbage websites frame found.1 found.2 hroute
    rw [← parseRequest_ends_iff bld garbage]
    intro e he
    rw [hparse] at he
    simp at he

theorem route_caseVariant_accept :
    (route plainBuild .mGet twoWebsites
        (lit "GET / HTTP/1.1\r\nHost: a\r\naccept: x\r\n\r\n")).map Prod.snd =
      (route plainBuild .mGet twoWebsites
        (lit "GET / HTTP/1.1\r\nHost: a\r\nAccept: x\r\n\r\n")).map Prod.snd := by
  have hheaders : List.Forall₂ HeaderVariant [(lit "Host", lit "a"), (lit "accept", lit "x")]
      [(lit "Host", lit "a"), (lit "Accept", lit "x")] :=
    .cons ⟨rfl, Or.inl rfl⟩ (.cons ⟨by decide, Or.inl rfl⟩ .nil)
  obtain ⟨w, w', hvariant, huri, ⟨hw, htext⟩, hw', htext'⟩ := caseVariant_getRoot _ _ []
    (by decide) (by decide) (by decide) (by decide) hheaders
  have halike : SpelledAlike w w' := by
    refine ⟨huri, ?_⟩
    rw [hw, hw']
    exact .cons (fun _ => rfl) (.cons (fun hhost => absurd hhost (by decide)) .nil)
  have hends : ParseEnds plainBuild w.text := by
    apply parseEnds_found plainBuild .mGet twoWebsites _ (⟨lit "a", 80⟩, 0)
    rw [htext]
    decide
  have hends' : ParseEnds plainBuild w'.text := by
    apply parseEnds_found plainBuild .mGet twoWebsites _ (⟨lit "a", 80⟩, 0)
    rw [htext']
    decide
  have hroute := (route_caseVariant plainBuild .mGet .mGet twoWebsites namesApart_twoWebsites w w'
    hvariant).2 halike hends hends'
  rw [htext, htext'] at hroute
  exact hroute

/-- A `Host` header named in lower case is not found, even where a line of the body then stands in
for it, nor is a website named in upper case. -/
theorem route_caseVariant_differs :
    NamesApart twoWebsites ∧
      (∃ w w' : WrittenRequest, CaseVariant w w' ∧
        w.text = lit "GET / HTTP/1.1\r\nHost: a\r\n\r\n" ∧
        w'.text = lit "GET / HTTP/1.1\r\nhost: a\r\n\r\n" ∧
        (route plainBuild .mGet twoWebsites w.text).map Prod.snd = .ok (⟨lit "a", 80⟩, 0) ∧
        (route plainBuild .mGet twoWebsites w'.text).map Prod.snd =
          .error (.httpInvalidRequest (lit "'Host' header is missing."))) ∧
      (∃ w w' : WrittenRequest, CaseVariant w w' ∧
        w.text = lit "GET / HTTP/1.1\r\nHost: a\r\n\r\n" ∧
        w'.text = lit "GET / HTTP/1.1\r\nHost: A\r\n\r\n" ∧
        (route plainBuild .mGet twoWebsites w.text).map Prod.snd = .ok (⟨lit "a", 80⟩, 0) ∧
        (route plainBuild .mGet twoWebsites w'.text).map Prod.snd =
          .error (.httpInvalidRequest (lit "Unknown website..."))) ∧
      ∃ w w' : WrittenRequest, CaseVariant w w' ∧
        w.text = lit "GET / HTTP/1.1\r\nHost: a\r\n\r\nHost: b\n\n" ∧
        w'.text = lit "GET / HTTP/1.1\r\nhost: a\r\n\r\nHost: b\n\n" ∧
        (route plainBuild .mGet twoWebsites w.text).map Prod.snd = .ok (⟨lit "a", 80⟩, 0) ∧
        (route plainBuild .mGet twoWebsites w'.text).map Prod.snd = .ok (⟨lit "b", 80⟩, 1) := by
  have hlower : List.Forall₂ HeaderVariant [(lit "Host", lit "a")] [(lit "host", lit "a")] :=
    .cons ⟨by decide, Or.inl rfl⟩ .nil
  have hupper : List.Forall₂ HeaderVariant [(lit "Host", lit "a")] [(lit "Host", lit "A")] :=
    .cons ⟨rfl, Or.inr ⟨rfl, by decide, by decide⟩⟩ .nil
  refine ⟨namesApart_twoWebsites, ?_, ?_, ?_⟩
  · obtain ⟨w, w', hvariant, -, ⟨-, htext⟩, -, htext'⟩ := caseVariant_getRoot _ _ []
      (by decide) (by decide) (by decide) (by decide) hlower
    refine ⟨w, w', hvariant, ?_⟩
    rw [htext, htext']
    decide
  · obtain ⟨w, w', hvariant, -, ⟨-, htext⟩, -, htext'⟩ := caseVariant_getRoot _ _ []
      (by decide) (by decide) (by decide) (by decide) hupper
    refine ⟨w, w', hvariant, ?_⟩
    rw [htext, htext']
    decide
  · obtain ⟨w, w', hvariant, -, ⟨-, htext⟩, -, htext'⟩ := caseVariant_getRoot _ _
      (lit "Host: b\n\n")
      (by decide) (by decide) (by decide) (by decide) hlower
    refine ⟨w, w', hvariant, ?_⟩
    rw [htext, htext']
    decide

end HttpWorker
end HttpCpp
