import HttpCpp.Protocol.RequestHead

namespace HttpCpp
namespace OneOne

open StringStream

/-- The loop body takes a written header exactly when its name does not fire the assertion. -/
theorem headerLine_harmless_iff (bld : Build) (h : Bytes × Bytes) (hc : colon ∉ h.1)
    (h1 : LF ∉ h.1) (h2 : LF ∉ h.2) :
    ¬(EndsAtColon (headerLine h) ∨ LineFires bld (headerLine h)) ↔
      ¬Build.AssertFires bld h.1 := by
  have r : HttpRequest := HttpRequest.fresh .mGet
  rw [← parseHeaderLine_ok_iff bld r _ (headerLine_lf h h1 h2),
    parseHeaderLine_headerLine bld r h hc h1 h2]
  exact storeHeader_ok_iff bld r h.1 h.2

/-- Reading a head without body returns unless one of its headers fires the assertion. -/
theorem head_fold_ok_iff (bld : Build) (r : HttpRequest) (headers : List (Bytes × Bytes))
    (hw : WellFormed headers) :
    (∃ r', (headLines headers).foldlM (parseHeaderLine bld) r = .ok r') ↔
      ∀ h ∈ headers, ¬Build.AssertFires bld h.1 := by
  have hcr : ¬(EndsAtColon [CR] ∨ LineFires bld [CR]) :=
    (parseHeaderLine_ok_iff bld r [CR] (by decide)).mp
      ⟨r, parseHeaderLine_plain bld r [CR] (by decide)⟩
  rw [foldlM_ok_iff (parseHeaderLine bld) (fun line => EndsAtColon line ∨ LineFires bld line) _ r
    (fun r' line hl => parseHeaderLine_ok_iff bld r' line (headLines_mem headers hw line hl).2)]
  constructor
  · intro hall h hh
    obtain ⟨hc, h1, h2⟩ := hw h hh
    exact (headerLine_harmless_iff bld h hc h1 h2).mp
      (hall _ (List.mem_append_left _ (List.mem_map_of_mem hh)))
  · intro hall line hl
    rcases List.mem_append.mp hl with hl | hl
    · obtain ⟨h, hh, rfl⟩ := List.mem_map.mp hl
      obtain ⟨hc, h1, h2⟩ := hw h hh
      exact (headerLine_harmless_iff bld h hc h1 h2).mpr (hall h hh)
    · rw [List.mem_singleton.mp hl]
      exact hcr

/-- A successful parse of a head and a body keeps of the body what follows its first empty line. -/
theorem messageBody_of_success (bld : Build) (r r' : HttpRequest) (method uri : Bytes)
    (headers : List (Bytes × Bytes)) (body : Bytes) (hm : method ∈ METHODS)
    (hu : ∀ c ∈ uri, isSpace c = false) (hw : WellFormed headers)
    (h : parseRequest bld (requestHead method uri headers ++ body) r = .ok (.success, r')) :
    r'.messageBody = afterBlock body := by
  rw [parseRequest, noexcept_ok, parseRequestBody_head bld r method uri headers body hm hu hw] at h
  cases hf : (headLines headers ++ lineBlock body).foldlM (parseHeaderLine bld)
      (withRequestLine r method uri) with
  | error e => simp [hf, Except.map] at h
  | ok s =>
    simp only [hf, Except.map, Except.ok.injEq, Prod.mk.injEq, true_and] at h
    rw [← h]

/-- The body of a request is separated from its head exactly when it is empty: the empty line
of the head reaches the loop as a lone carriage return and does not stop it, so the lines of
the body are read as headers and the body starts, if at all, after a later empty line. -/
theorem body_separated_iff (bld : Build) (r : HttpRequest) (method uri : Bytes)
    (headers : List (Bytes × Bytes)) (body : Bytes) (hm : method ∈ METHODS)
    (hu : ∀ c ∈ uri, isSpace c = false) (hw : WellFormed headers) :
    (∃ r₁ r₀,
      parseRequest bld (requestHead method uri headers ++ body) r = .ok (.success, r₁) ∧
      parseRequest bld (requestHead method uri headers) r = .ok (.success, r₀) ∧
      r₁.messageBody = body ∧ r₁.generalHeader = r₀.generalHeader ∧
      r₁.requestHeader = r₀.requestHeader ∧ r₁.entityHeader = r₀.entityHeader) ↔
      body = [] ∧ ∀ h ∈ headers, ¬Build.AssertFires bld h.1 := by
  have hfold := head_fold_ok_iff bld (withRequestLine r method uri) headers hw
  have hbare := parseRequestBody_head bld r method uri headers [] hm hu hw
  rw [List.append_nil, lineBlock_nil, List.append_nil] at hbare
  constructor
  · intro hparses
    obtain ⟨r₁, r₀, h₁, h₀, hbody, -⟩ := hparses
    have hempty : body = [] := by
      by_contra hne
      have hlt := afterBlock_length body hne
      rw [← messageBody_of_success bld r r₁ method uri headers body hm hu hw h₁, hbody] at hlt
      exact lt_irrefl _ hlt
    refine ⟨hempty, hfold.mp ?_⟩
    rw [parseRequest, noexcept_ok, hbare] at h₀
    cases hf : (headLines headers).foldlM (parseHeaderLine bld)
        (withRequestLine r method uri) with
    | error e => simp [hf, Except.map] at h₀
    | ok s => exact ⟨s, rfl⟩
  · intro hempty
    obtain ⟨rfl, hfire⟩ := hempty
    obtain ⟨s, hs⟩ := hfold.mpr hfire
    have hparse : parseRequest bld (requestHead method uri headers) r =
        .ok (.success, { s with messageBody := [] }) := by
      rw [parseRequest, noexcept_ok, hbare, hs]
      rfl
    rw [List.append_nil]
    exact ⟨_, _, hparse, hparse, rfl, rfl, rfl, rfl⟩

theorem body_separated_iff_get :
    (∃ r₁ r₀,
      parseRequest plainBuild (requestHead (lit "GET") (lit "/") [(lit "Host", lit "a")] ++ [])
        (.fresh .mGet) = .ok (.success, r₁) ∧
      parseRequest plainBuild (requestHead (lit "GET") (lit "/") [(lit "Host", lit "a")])
        (.fresh .mGet) = .ok (.success, r₀) ∧
      r₁.messageBody = [] ∧ r₁.generalHeader = r₀.generalHeader ∧
      r₁.requestHeader = r₀.requestHeader ∧ r₁.entityHeader = r₀.entityHeader) ↔
      ([] : Bytes) = [] ∧ ∀ h ∈ [(lit "Host", lit "a")], ¬Build.AssertFires plainBuild h.1 :=
  body_separated_iff plainBuild (.fresh .mGet) (lit "GET") (lit "/") [(lit "Host", lit "a")] []
    (by decide) (by decide +kernel) (by decide)

/-- `GET / HTTP/1.1`, no headers, body `hello`: the parse succeeds and the body is gone. -/
theorem body_lost :
    ¬∃ r₁ r₀,
      parseRequest plainBuild (requestHead (lit "GET") (lit "/") [] ++ lit "hello") (.fresh .mGet) =
        .ok (.success, r₁) ∧
      parseRequest plainBuild (requestHead (lit "GET") (lit "/") []) (.fresh .mGet) =
        .ok (.success, r₀) ∧
      r₁.messageBody = lit "hello" ∧ r₁.generalHeader = r₀.generalHeader ∧
      r₁.requestHeader = r₀.requestHeader ∧ r₁.entityHeader = r₀.entityHeader := by
  intro h
  obtain ⟨r₁, r₀, h₁, -, hbody, -⟩ := h
  have hlost := messageBody_of_success plainBuild (.fresh .mGet) r₁ (lit "GET") (lit "/") []
    (lit "hello") (by decide) (by decide +kernel) (by decide) h₁
  rw [hbody] at hlost
  exact absurd hlost (by decide)

end OneOne
end HttpCpp
