import HttpCpp.Service.HostForms

namespace HttpCpp
namespace HttpService

/-- A path that is no absolute path form gives no host. -/
theorem extractHost_unplain (request : HttpRequest)
    (hlead : request.requestUri.head? = some slash) (hplain : ¬PlainQuery request.requestUri) :
    extractHost request = .error invalidUri := by
  have hpath : ¬AbsolutePath request.requestUri := by
    intro hpath
    exact hplain ((absolutePath_iff _).mp hpath).2
  simp only [extractHost, absoluteUri_path_none _ hlead, absolutePath_none _ hpath,
    if_neg (slash_ne_star _ hlead), invalidUri]

/-- An authority and a path give the same host in the absolute URI form and with a `Host` header,
or neither does, exactly when no name begins the authority, nothing is left of it behind the name
and the port, or a line terminator follows a question mark. -/
theorem extractHost_agree_iff (a p : Bytes) (request request' : HttpRequest)
    (hp : p.head? = some slash) (huri : request.requestUri = lit "http://" ++ (a ++ p))
    (hpath : request'.requestUri = p)
    (hvalue : request'.requestHeader.find (lit "Host") = some a) :
    (extractHost request).toOption = (extractHost request').toOption ↔
      (authority a).name = [] ∨ (authority a).tail = [] ∨
        ¬PlainQuery ((authority a).tail ++ p) := by
  have hform := extractHost_uri request (a ++ p) huri
  simp only [authority_path a p hp] at hform
  have hother : extractHost request' =
      if PlainQuery p ∧ (authority a).name ≠ [] ∧ (authority a).tail = [] then
        .ok (authority a).host
      else .error invalidUri := by
    by_cases hplain : PlainQuery p
    · have habsolute : AbsolutePath request'.requestUri := by
        rw [absolutePath_iff, hpath]
        exact ⟨hp, hplain⟩
      simp only [extractHost_path request' a habsolute hvalue, hplain, true_and]
    · rw [if_neg fun h => hplain h.1]
      exact extractHost_unplain request' (hpath ▸ hp) (hpath ▸ hplain)
  have hhost : (⟨(authority a).name, (authority a).digits, (authority a).tail ++ p⟩ :
      Authority).host = (authority a).host := rfl
  rw [hform, hother, hhost]
  by_cases hname : (authority a).name = []
  · simp [hname]
  · by_cases htail : (authority a).tail = []
    · simp [hname, htail]
    · by_cases hplain : PlainQuery ((authority a).tail ++ p)
      · simp [hname, htail, hplain, Except.toOption]
      · simp [hname, htail, hplain]

theorem extractHost_agree_port :
    (extractHost { HttpRequest.fresh .mGet with
        requestUri := lit "http://example:8080/" }).toOption =
      (extractHost { HttpRequest.fresh .mGet with
        requestUri := lit "/"
        requestHeader := StdMap.empty.assign (lit "Host") (lit "example:8080") }).toOption := by
  have h := extractHost_agree_iff (lit "example:8080") (lit "/")
    { HttpRequest.fresh .mGet with requestUri := lit "http://example:8080/" }
    { HttpRequest.fresh .mGet with
      requestUri := lit "/"
      requestHeader := StdMap.empty.assign (lit "Host") (lit "example:8080") }
    rfl (by decide) rfl (StdMap.find_assign _ _ _)
  exact h.mpr (by decide)

/-- A port with a letter in it is left out of a URI and refused in a header. -/
theorem extractHost_disagree :
    ∃ a p request request', slash ∉ a ∧ AbsolutePath p ∧
      request.requestUri = lit "http://" ++ (a ++ p) ∧ request'.requestUri = p ∧
      request'.requestHeader.find (lit "Host") = some a ∧
      (extractHost request).toOption = some ⟨lit "example", 80⟩ ∧
      (extractHost request').toOption = none :=
  ⟨lit "example:80a", lit "/",
    { HttpRequest.fresh .mGet with requestUri := lit "http://example:80a/" },
    { HttpRequest.fresh .mGet with
      requestUri := lit "/"
      requestHeader := StdMap.empty.assign (lit "Host") (lit "example:80a") },
    by decide⟩

theorem authority_whole (name digits : Bytes) (hname : slash ∉ name ∧ colon ∉ name)
    (hdigits : ∀ c ∈ digits, isDigit c) :
    authority (name ++ portText digits) = ⟨name, digits, []⟩ := by
  have hparts := authority_parts name digits [] hname hdigits (Or.inl rfl)
  rwa [List.append_nil] at hparts

/-- The host is written as a name and a port, in a URI or in the `Host` header. -/
def GivesPort (name digits : Bytes) (request : HttpRequest) : Prop :=
  (∃ tail, (tail = [] ∨ AbsolutePath tail) ∧
    request.requestUri = lit "http://" ++ (name ++ colon :: digits ++ tail)) ∨
  AbsolutePath request.requestUri ∧
    request.requestHeader.find (lit "Host") = some (name ++ colon :: digits)

/-- The port is the number its digits stand for, and a request with a larger number than a port can
be is rejected. -/
def ExactPort (digits : Bytes) (outcome : Except Fault Host) : Prop :=
  if decimal digits < 65536 then
    ∃ host, outcome = .ok host ∧ host.port.val = decimal digits
  else ∃ e, outcome = .error e

theorem extractHost_port (name digits : Bytes) (request : HttpRequest)
    (hname : slash ∉ name ∧ colon ∉ name) (hne : digits ≠ []) (hdigits : ∀ c ∈ digits, isDigit c)
    (h : GivesPort name digits request) :
    extractHost request =
      if name ≠ [] then .ok ⟨name, readPort digits⟩ else .error invalidUri := by
  have hport : portText digits = colon :: digits := if_neg hne
  rcases h with ⟨tail, htail, huri⟩ | ⟨hpath, hvalue⟩
  · have hstart : PathStart tail := htail.imp_right (absolutePath_leading tail)
    have hplain : PlainQuery tail := by
      rcases htail with rfl | htail
      · exact plainQuery_of_plain [] ⟨List.not_mem_nil, List.not_mem_nil⟩
      · exact ((absolutePath_iff tail).mp htail).2
    have hparts := authority_parts name digits tail hname hdigits hstart
    rw [hport] at hparts
    simp only [extractHost_uri request _ huri, hparts, hplain, and_true]
    rfl
  · have hparts := authority_whole name digits hname hdigits
    rw [hport] at hparts
    simp only [extractHost_path request _ hpath hvalue, hparts, and_true]
    rfl

/-- A port given in digits is exact, or rejected when it is too large, exactly when a name comes
with a number that is a port or no name with one that is none. -/
theorem extractHost_exact_iff (name digits : Bytes) (request : HttpRequest)
    (hname : slash ∉ name ∧ colon ∉ name) (hne : digits ≠ []) (hdigits : ∀ c ∈ digits, isDigit c)
    (h : GivesPort name digits request) :
    ExactPort digits (extractHost request) ↔ (decimal digits < 65536 ↔ name ≠ []) := by
  rw [extractHost_port name digits request hname hne hdigits h, ExactPort]
  by_cases hsmall : decimal digits < 65536
  · have hread : readPort digits = ⟨decimal digits, hsmall⟩ := dif_pos ⟨hne, hsmall⟩
    by_cases hempty : name = []
    · simp [hsmall, hempty]
    · simp [hsmall, hempty, hread]
  · by_cases hempty : name = []
    · simp [hsmall, hempty]
    · simp [hsmall, hempty]

theorem extractHost_exact_8080 :
    ExactPort (lit "8080") (extractHost { HttpRequest.fresh .mGet with
      requestUri := lit "/"
      requestHeader := StdMap.empty.assign (lit "Host") (lit "example:8080") }) := by
  have h := extractHost_exact_iff (lit "example") (lit "8080")
    { HttpRequest.fresh .mGet with
      requestUri := lit "/"
      requestHeader := StdMap.empty.assign (lit "Host") (lit "example:8080") }
    (by decide +kernel) (by decide +kernel) (by decide +kernel)
    (Or.inr ⟨by decide, StdMap.find_assign _ _ _⟩)
  exact h.mpr (by decide)

theorem not_exactPort (digits : Bytes) (host : Host) (h : ¬decimal digits < 65536) :
    ¬ExactPort digits (.ok host) := by
  rw [ExactPort, if_neg h]
  simp

/-- Both forms send a port beyond the last one to the default port. -/
theorem extractHost_overflow :
    ∃ request request',
      GivesPort (lit "example") (lit "65616") request ∧
      request.requestUri = lit "http://example:65616/" ∧
      extractHost request = .ok ⟨lit "example", 80⟩ ∧
      ¬ExactPort (lit "65616") (extractHost request) ∧
      GivesPort (lit "example") (lit "65616") request' ∧
      request'.requestHeader.find (lit "Host") = some (lit "example:65616") ∧
      extractHost request' = .ok ⟨lit "example", 80⟩ ∧
      ¬ExactPort (lit "65616") (extractHost request') := by
  have hlarge : ¬decimal (lit "65616") < 65536 := by decide
  have huri : extractHost { HttpRequest.fresh .mGet with
      requestUri := lit "http://example:65616/" } = .ok ⟨lit "example", 80⟩ := by decide
  have hheader : extractHost { HttpRequest.fresh .mGet with
      requestUri := lit "/"
      requestHeader := StdMap.empty.assign (lit "Host") (lit "example:65616") } =
      .ok ⟨lit "example", 80⟩ := by decide
  refine ⟨_, _, Or.inl ⟨lit "/", by decide, rfl⟩, rfl, huri, ?_,
    Or.inr ⟨by decide, StdMap.find_assign _ _ _⟩, StdMap.find_assign _ _ _, hheader, ?_⟩
  · rw [huri]
    exact not_exactPort _ _ hlarge
  · rw [hheader]
    exact not_exactPort _ _ hlarge

/-- `host::match`, which `http_website::operator==` of a string asks. -/
def Host.isMatch (h : Host) (host : Bytes) : Bool :=
  host = h.name || host = h.name ++ lit ":" ++ decimalText h.port.val

theorem isMatch_iff (h : Host) (host : Bytes) :
    h.isMatch host ↔ host = h.name ∨ host = h.name ++ colon :: decimalText h.port.val := by
  have hcolon : lit ":" = [colon] := rfl
  simp [Host.isMatch, hcolon]

/-- The values of a `Host` header that give a host. -/
theorem extractHost_value (h : Host) (hname : HostName h.name) (request : HttpRequest) (s : Bytes)
    (hpath : AbsolutePath request.requestUri)
    (hvalue : request.requestHeader.find (lit "Host") = some s) :
    extractHost request = .ok h ↔
      ∃ digits, s = h.name ++ portText digits ∧ (∀ c ∈ digits, isDigit c) ∧
        readPort digits = h.port := by
  rw [extractHost_path request s hpath hvalue]
  constructor
  · intro hread
    split_ifs at hread with hform
    obtain rfl := Except.ok.inj hread
    refine ⟨(authority s).digits, ?_, splitPort_digits _, rfl⟩
    have htext := authority_text s
    rw [hform.2, List.append_nil] at htext
    exact htext.symm
  · intro hform
    obtain ⟨digits, rfl, hdigits, hport⟩ := hform
    rw [authority_whole h.name digits hname.2 hdigits, if_pos ⟨hname.1, rfl⟩, Authority.host, hport]

theorem zeros_isDigit (k n : Nat) :
    ∀ c ∈ List.replicate k (byteOf '0') ++ decimalText n, isDigit c := by
  intro c hc
  have hzero : isDigit (byteOf '0') := by decide
  rcases List.mem_append.mp hc with hc | hc
  · rw [(List.mem_replicate.mp hc).2]
    exact hzero
  · exact decimalText_isDigit n c hc

/-- The digits that are read as a port of this number. -/
theorem readPort_iff (digits : Bytes) (port : Fin 65536) (hne : digits ≠ [])
    (hrange : decimal digits < 65536) (hdigits : ∀ c ∈ digits, isDigit c) :
    readPort digits = port ↔
      ∃ k, digits = List.replicate k (byteOf '0') ++ decimalText port.val := by
  constructor
  · intro hport
    rw [← hport, readPort_val digits hne hrange]
    apply digits_zeros digits hne
    intro c hc
    simpa [isDigit] using hdigits c hc
  · intro hzeros
    obtain ⟨k, rfl⟩ := hzeros
    exact readPort_zeros k port

/-- A `Host` header gives a host when it is its name, for the default port, or its name and port
with any number of zeros. -/
theorem extractHost_zeros (h : Host) (hname : HostName h.name) (request : HttpRequest) (s : Bytes)
    (hpath : AbsolutePath request.requestUri)
    (hvalue : request.requestHeader.find (lit "Host") = some s)
    (hrange : h.port.val = 80 → decimal (authority s).digits < 65536) :
    extractHost request = .ok h ↔
      s = h.name ∧ h.port.val = 80 ∨
        ∃ k, s = h.name ++ colon :: (List.replicate k (byteOf '0') ++ decimalText h.port.val) := by
  rw [extractHost_value h hname request s hpath hvalue]
  constructor
  · intro hread
    obtain ⟨digits, rfl, hdigits, hport⟩ := hread
    rw [authority_whole h.name digits hname.2 hdigits] at hrange
    by_cases hne : digits = []
    · subst hne
      left
      refine ⟨List.append_nil _, ?_⟩
      rw [← hport]
      rfl
    · rw [portText, if_neg hne]
      have hsmall : decimal digits < 65536 := by
        by_contra hlarge
        have hdefault : readPort digits = 80 := dif_neg fun h => hlarge h.2
        exact hlarge (hrange (congrArg Fin.val (hport.symm.trans hdefault)))
      obtain ⟨k, hk⟩ := (readPort_iff digits h.port hne hsmall hdigits).mp hport
      exact Or.inr ⟨k, by rw [hk]⟩
  · intro hform
    rcases hform with ⟨rfl, hdefault⟩ | ⟨k, rfl⟩
    · exact ⟨[], (List.append_nil _).symm, by simp, Fin.ext hdefault.symm⟩
    · refine ⟨_, ?_, zeros_isDigit k h.port.val, readPort_zeros k h.port⟩
      rw [portText, if_neg (zeros_ne_nil k h.port.val)]

/-- Matching a string and reading it as a host differ in two ways: the bare name of a host matches
whatever its port is, and zeros in front of a port do not match. Left out is a port too large to
be one, which the reading takes for the default port. -/
theorem isMatch_extractHost_iff (h : Host) (hname : HostName h.name) (request : HttpRequest)
    (s : Bytes) (hpath : AbsolutePath request.requestUri)
    (hvalue : request.requestHeader.find (lit "Host") = some s)
    (hrange : h.port.val = 80 → decimal (authority s).digits < 65536) :
    extractHost request = .ok h ↔
      h.isMatch s ∧ (s = h.name → h.port.val = 80) ∨
        ∃ k, s = h.name ++ colon :: (List.replicate (k + 1) (byteOf '0') ++
          decimalText h.port.val) := by
  rw [extractHost_zeros h hname request s hpath hvalue hrange, isMatch_iff]
  constructor
  · intro hform
    rcases hform with ⟨hbare, hdefault⟩ | ⟨k, hzeros⟩
    · exact Or.inl ⟨Or.inl hbare, fun _ => hdefault⟩
    · cases k with
      | zero =>
        left
        refine ⟨Or.inr hzeros, ?_⟩
        intro hbare
        rw [hzeros] at hbare
        exact absurd hbare (by simp)
      | succ k => exact Or.inr ⟨k, hzeros⟩
  · intro hmatch
    rcases hmatch with ⟨hbare | hfull, hdefault⟩ | ⟨k, hzeros⟩
    · exact Or.inl ⟨hbare, hdefault hbare⟩
    · exact Or.inr ⟨0, hfull⟩
    · exact Or.inr ⟨k + 1, hzeros⟩

theorem isMatch_extractHost_8080 :
    extractHost { HttpRequest.fresh .mGet with
      requestUri := lit "/"
      requestHeader := StdMap.empty.assign (lit "Host") (lit "example:8080") } =
      .ok ⟨lit "example", 8080⟩ := by
  have h := isMatch_extractHost_iff ⟨lit "example", 8080⟩ (by decide)
    { HttpRequest.fresh .mGet with
      requestUri := lit "/"
      requestHeader := StdMap.empty.assign (lit "Host") (lit "example:8080") }
    (lit "example:8080") (by decide) (StdMap.find_assign _ _ _)
    (fun hport => absurd hport (by decide))
  exact h.mpr (Or.inl ⟨by decide, fun hbare => absurd hbare (by decide)⟩)

/-- A bare name matches on every port, and a port with a zero in front is read all the same. -/
theorem isMatch_strays :
    (∃ h s request, HostName h.name ∧ AbsolutePath request.requestUri ∧
      request.requestHeader.find (lit "Host") = some s ∧ h.isMatch s = true ∧
      extractHost request ≠ .ok h) ∧
    (∃ h s request, HostName h.name ∧ AbsolutePath request.requestUri ∧
      request.requestHeader.find (lit "Host") = some s ∧ h.isMatch s = false ∧
      extractHost request = .ok h) :=
  ⟨⟨⟨lit "example", 8080⟩, lit "example", { HttpRequest.fresh .mGet with
      requestUri := lit "/"
      requestHeader := StdMap.empty.assign (lit "Host") (lit "example") }, by decide⟩,
    ⟨⟨lit "example", 80⟩, lit "example:080", { HttpRequest.fresh .mGet with
      requestUri := lit "/"
      requestHeader := StdMap.empty.assign (lit "Host") (lit "example:080") }, by decide⟩⟩

end HttpService
end HttpCpp
