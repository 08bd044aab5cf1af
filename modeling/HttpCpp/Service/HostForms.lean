import HttpCpp.Framework.Decimal
import HttpCpp.Service.Authority

namespace HttpCpp
namespace HttpService

open Regex

/-- `operator<<` of a host. -/
def Host.text (h : Host) : Bytes := h.name ++ colon :: decimalText h.port.val

/-- The ways to write a host: in full, or by its name when its port is the default one. -/
def Host.Written (h : Host) (text : Bytes) : Prop := text = h.text ∨ text = h.name ∧ h.port.val = 80

instance (h : Host) (text : Bytes) : Decidable (h.Written text) :=
  inferInstanceAs (Decidable (_ ∨ _ ∧ _))

theorem decimalText_isDigit (n : Nat) : ∀ c ∈ decimalText n, isDigit c := by
  intro c hc
  simpa [isDigit] using decimalText_digit n c hc

theorem readPort_val (digits : Bytes) (hne : digits ≠ []) (hrange : decimal digits < 65536) :
    (readPort digits).val = decimal digits := by
  rw [readPort, dif_pos ⟨hne, hrange⟩]

theorem zeros_ne_nil (k n : Nat) : List.replicate k (byteOf '0') ++ decimalText n ≠ [] :=
  List.append_ne_nil_of_right_ne_nil _ (decimalText_ne_nil n)

/-- Zeros in front of a port are read over. -/
theorem readPort_zeros (k : Nat) (port : Fin 65536) :
    readPort (List.replicate k (byteOf '0') ++ decimalText port.val) = port := by
  have hvalue : decimal (List.replicate k (byteOf '0') ++ decimalText port.val) = port.val :=
    (decimalValue_zeros k _).trans (decimalValue_decimalText _)
  have hsmall : decimal (List.replicate k (byteOf '0') ++ decimalText port.val) < 65536 := by
    rw [hvalue]
    exact port.isLt
  apply Fin.ext
  rw [readPort_val _ (zeros_ne_nil k port.val) hsmall, hvalue]

theorem readPort_decimalText (p : Fin 65536) : readPort (decimalText p.val) = p :=
  readPort_zeros 0 p

/-- A written host is read back, whatever path comes after. -/
theorem authority_written (h : Host) (hname : HostName h.name) (text tail : Bytes)
    (htext : h.Written text) (htail : PathStart tail) :
    (authority (text ++ tail)).name ≠ [] ∧ (authority (text ++ tail)).tail = tail ∧
      (authority (text ++ tail)).host = h := by
  rcases htext with rfl | ⟨rfl, hport⟩
  · have hparts := authority_parts h.name (decimalText h.port.val) tail hname.2
      (decimalText_isDigit h.port.val) htail
    rw [portText, if_neg (decimalText_ne_nil h.port.val)] at hparts
    rw [Host.text, hparts, Authority.host, readPort_decimalText]
    exact ⟨hname.1, rfl, rfl⟩
  · have hparts := authority_parts h.name [] tail hname.2 (by simp) htail
    rw [portText, if_pos rfl, List.append_nil] at hparts
    have hdefault : readPort [] = h.port := Fin.ext hport.symm
    rw [hparts, Authority.host, hdefault]
    exact ⟨hname.1, rfl, rfl⟩

/-- The requests that name a host: an absolute path with a `Host` header, or an absolute URI. -/
def NamedBy (h : Host) (request : HttpRequest) : Prop :=
  (∃ rest, request.requestUri = slash :: rest ∧ (LF ∉ rest ∧ CR ∉ rest) ∧
    ∃ value, request.requestHeader.find (lit "Host") = some value ∧ h.Written value) ∨
  ∃ text path query, request.requestUri = lit "http://" ++ text ++ (path ++ query) ∧
    h.Written text ∧ (LF ∉ path ++ query ∧ CR ∉ path ++ query) ∧
    (path = [] ∧ query = [] ∨
      path.head? = some slash ∧ (query = [] ∨ query.head? = some question))

/-- A request that names a host is for that host. -/
theorem extractHost_named (h : Host) (hname : HostName h.name) (request : HttpRequest)
    (hnamed : NamedBy h request) : extractHost request = .ok h := by
  rcases hnamed with ⟨rest, huri, hrest, value, hvalue, hwritten⟩ |
    ⟨text, path, query, huri, hwritten, hplain, hform⟩
  · have hpath : AbsolutePath request.requestUri := by
      rw [absolutePath_iff, huri]
      refine ⟨rfl, plainQuery_of_plain _ ?_⟩
      simpa [slash, LF, CR] using hrest
    have hread := authority_written h hname value [] hwritten (Or.inl rfl)
    rw [List.append_nil] at hread
    obtain ⟨hne, htail, hhost⟩ := hread
    rw [extractHost_path request value hpath hvalue, if_pos ⟨hne, htail⟩, hhost]
  · have hstart : PathStart (path ++ query) := by
      rcases hform with ⟨rfl, rfl⟩ | ⟨hslash, -⟩
      · exact Or.inl rfl
      · right
        rw [List.head?_append, hslash]
        rfl
    obtain ⟨hne, htail, hhost⟩ := authority_written h hname text (path ++ query) hwritten hstart
    rw [List.append_assoc] at huri
    rw [extractHost_uri request _ huri, htail, if_pos ⟨hne, plainQuery_of_plain _ hplain⟩, hhost]

/-- The path and the query that `extract_host` reads off a Request-URI and logs. -/
def uriParts (uri : Bytes) : Option (Bytes × Bytes) :=
  match absoluteUriRegex.regexMatch uri with
  | some captures => some (captures.get 4, captures.get 6)
  | none => (absolutePathRegex.regexMatch uri).map fun captures => (captures.get 1, captures.get 4)

theorem path_class (s t : Bytes) (c : Captures Byte)
    (h : (c, t) ∈ (Regex.star fun x => decide (x ≠ question)).run s) :
    ∃ a, question ∉ a ∧ s = a ++ t := by
  obtain ⟨-, a, ha, hsplit⟩ := (mem_run_star _ _ _ _).mp h
  refine ⟨a, ?_, hsplit⟩
  intro hm
  simpa using ha question hm

/-- The port's groups come before the path's. -/
theorem port_groups (s t : Bytes) (c : Captures Byte)
    (h : (c, t) ∈ (Regex.opt (portRegex 2)).run s) (d : Captures Byte) :
    Assoc.find 4 (c ++ d) = Assoc.find 4 d := by
  rcases (mem_run_opt _ _ _ _).mp h with hport | ⟨rfl, -⟩
  · obtain ⟨c', g, hseq, -, rfl⟩ := (mem_run_group _ _ _ _ _).mp hport
    obtain ⟨c₁, u, c₂, hlit, hdigits, rfl⟩ := (mem_run_seq _ _ _ _ _).mp hseq
    obtain ⟨rfl, -⟩ := (mem_run_literal _ _ _ _).mp hlit
    obtain ⟨c₃, g', hplus, -, rfl⟩ := (mem_run_group _ _ _ _ _).mp hdigits
    obtain ⟨rfl, -⟩ := (mem_run_plus _ _ _ _).mp hplus
    simp [Assoc.find]
  · rfl

/-- The path of an absolute URI ends before the query. -/
theorem absoluteUri_path (uri : Bytes) (c : Captures Byte)
    (h : absoluteUriRegex.regexMatch uri = some c) : question ∉ c.get 4 := by
  obtain ⟨c₁, u₁, d₁, hlit, hrest₁, hc⟩ := (mem_run_seq _ _ _ _ _).mp (regexMatch_mem _ _ c h)
  obtain ⟨hc₁, -⟩ := (mem_run_literal _ _ _ _).mp hlit
  obtain ⟨c₂, u₂, d₂, hname, hrest₂, hd₁⟩ := (mem_run_seq _ _ _ _ _).mp hrest₁
  obtain ⟨c', name, hplus, -, hc₂⟩ := (mem_run_group _ _ _ _ _).mp hname
  obtain ⟨hc', -⟩ := (mem_run_plus _ _ _ _).mp hplus
  obtain ⟨c₃, u₃, d₃, hport, hrest₃, hd₂⟩ := (mem_run_seq _ _ _ _ _).mp hrest₂
  obtain ⟨c₄, u₄, d₄, hpath, -, hd₃⟩ := (mem_run_seq _ _ _ _ _).mp hrest₃
  obtain ⟨c₅, g, hstar, hg, hc₄⟩ := (mem_run_group _ _ _ _ _).mp hpath
  obtain ⟨a, ha, hsplit⟩ := path_class _ _ _ hstar
  have hget : c.get 4 = g := by
    simp [hc, hc₁, hd₁, hc₂, hc', hd₂, hd₃, hc₄, Captures.get, Assoc.find,
      port_groups _ _ c₃ hport]
  rw [hget, List.append_cancel_right (hg.symm.trans hsplit)]
  exact ha

/-- The path of an absolute path form is its beginning, up to the query. -/
theorem absolutePath_path (uri : Bytes) (c : Captures Byte)
    (h : absolutePathRegex.regexMatch uri = some c) :
    question ∉ c.get 1 ∧ ∃ tail, uri = c.get 1 ++ tail := by
  obtain ⟨c₁, u, c₂, hgroup, -, rfl⟩ := (mem_run_seq _ _ _ _ _).mp (regexMatch_mem _ _ c h)
  obtain ⟨c', g, hseq, rfl, rfl⟩ := (mem_run_group _ _ _ _ _).mp hgroup
  have hget : Captures.get ((1, g) :: c' ++ c₂) 1 = g := by simp [Captures.get, Assoc.find]
  obtain ⟨d₁, v, d₂, hlit, hinner, -⟩ := (mem_run_seq _ _ _ _ _).mp hseq
  obtain ⟨-, hslash⟩ := (mem_run_literal _ _ _ _).mp hlit
  obtain ⟨d', g', hstar, -, -⟩ := (mem_run_group _ _ _ _ _).mp hinner
  obtain ⟨a, ha, hsplit⟩ := path_class _ _ _ hstar
  have hwhole : g ++ u = lit "/" ++ a ++ u := by rw [hslash, hsplit, List.append_assoc]
  have hpath : g = lit "/" ++ a := List.append_cancel_right hwhole
  rw [hget]
  refine ⟨?_, u, rfl⟩
  rw [hpath]
  intro hm
  rcases List.mem_append.mp hm with hm | hm
  · exact absurd hm (by decide)
  · exact ha hm

/-- A path is read off the beginning of an absolute path form, or from behind the host of an
absolute URI. -/
theorem uriParts_cases (uri path query : Bytes) (h : uriParts uri = some (path, query)) :
    question ∉ path ∧ uri ≠ [] ∧
      (uri.head? ≠ some slash ∨ AbsolutePath uri ∧ ∃ tail, uri = path ++ tail) := by
  have hempty : uri ≠ [] := by
    intro hempty
    rw [hempty] at h
    have hnone : uriParts [] = none := by decide
    simp [hnone] at h
  unfold uriParts at h
  cases huri : absoluteUriRegex.regexMatch uri with
  | some c =>
    simp only [huri, Option.some.injEq, Prod.mk.injEq] at h
    obtain ⟨rfl, -⟩ := h
    have hlead := absoluteUri_leading uri (Option.isSome_iff_exists.mpr ⟨c, huri⟩)
    exact ⟨absoluteUri_path uri c huri, hempty, Or.inl hlead⟩
  | none =>
    simp only [huri, Option.map_eq_some_iff, Prod.mk.injEq] at h
    obtain ⟨c, hc, rfl, -⟩ := h
    obtain ⟨hquestion, htail⟩ := absolutePath_path uri c hc
    exact ⟨hquestion, hempty, Or.inr ⟨Option.isSome_iff_exists.mpr ⟨c, hc⟩, htail⟩⟩

end HttpService
end HttpCpp
