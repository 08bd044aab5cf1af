import HttpCpp.Framework.Regex
import HttpCpp.Protocol.Structure

namespace HttpCpp
namespace HttpService

structure Host where
  name : Bytes
  port : Fin 65536
  deriving DecidableEq, Repr

def isDigit (c : Byte) : Bool := 48 ≤ c.val && c.val ≤ 57

/-- What `.` matches: all but the line terminators. -/
def isDot (c : Byte) : Bool := c ≠ LF && c ≠ CR

/-- The pattern `:([0-9]+)`, capturing groups `n` and `n + 1` with its parentheses. -/
def portRegex (n : Nat) : Regex Byte :=
  .group n (.seq (.literal (lit ":")) (.group (n + 1) (.plus isDigit)))

/-- The pattern `\?(.*)`, likewise. -/
def queryRegex (n : Nat) : Regex Byte :=
  .group n (.seq (.literal (lit "?")) (.group (n + 1) (.star isDot)))

/-- The pattern `[^\/:]+`. -/
def nameRegex : Regex Byte := .plus fun c => c ≠ slash && c ≠ colon

/-- `http:\/\/([^\/:]+)(:([0-9]+))?([^\?]*)(\?(.*))?` -/
def absoluteUriRegex : Regex Byte :=
  .seq (.literal (lit "http://")) <| .seq (.group 1 nameRegex) <| .seq (.opt (portRegex 2)) <|
    .seq (.group 4 (.star (· ≠ question))) (.opt (queryRegex 5))

/-- `(\/([^\?]*))(\?(.*))?` -/
def absolutePathRegex : Regex Byte :=
  .seq (.group 1 (.seq (.literal (lit "/")) (.group 2 (.star (· ≠ question)))))
    (.opt (queryRegex 3))

/-- `([^\/:]+)(:([0-9]+))?` -/
def hostRegex : Regex Byte := .seq (.group 1 nameRegex) (.opt (portRegex 2))

/-- The number written in decimal digits. -/
def decimal (digits : Bytes) : Nat := digits.foldl (fun n c => 10 * n + (c.val - 48)) 0

/-- Reading a `uint16_t` from a string of digits; 80 when there are none or the number is too
large. -/
def readPort (rawPort : Bytes) : Fin 65536 :=
  if h : rawPort ≠ [] ∧ decimal rawPort < 65536 then ⟨decimal rawPort, h.2⟩ else 80

/-- "Set default port to 80." -/
def Host.atDefaultPort (name : Bytes) : Host := ⟨name, 80⟩

def extractHost (request : HttpRequest) : Except Fault Host :=
  match absoluteUriRegex.regexMatch request.requestUri with
  | some captures => .ok ⟨captures.get 1, readPort (captures.get 3)⟩
  | none =>
    let other : Except Fault Host :=
      if request.requestUri = lit "*" then .ok ⟨lit "*", 80⟩
      else .error (.invalidArgument (lit
        "Invalid Request-URI parameter in the request, could not detect a valid format."))
    match absolutePathRegex.regexMatch request.requestUri with
    | some _ =>
      match request.requestHeader.find (lit "Host") with
      | none => .error (.httpInvalidRequest (lit "'Host' header is missing."))
      | some value =>
        match hostRegex.regexMatch value with
        | some captures => .ok ⟨captures.get 1, readPort (captures.get 3)⟩
        | none => other
    | none => other

/-- A request without a host is turned away with an exception. -/
theorem extractHost_error (request : HttpRequest) (e : Fault)
    (h : extractHost request = .error e) : e.isException := by
  have hother : ∀ e : Fault, (if request.requestUri = lit "*" then .ok ⟨lit "*", 80⟩
      else .error (.invalidArgument (lit
        "Invalid Request-URI parameter in the request, could not detect a valid format.")) :
          Except Fault Host) = .error e → e.isException := by
    intro e he
    split_ifs at he
    obtain rfl := Except.error.inj he
    rfl
  simp only [extractHost] at h
  cases huri : absoluteUriRegex.regexMatch request.requestUri with
  | some c => simp [huri] at h
  | none =>
    simp only [huri] at h
    cases hpath : absolutePathRegex.regexMatch request.requestUri with
    | none =>
      simp only [hpath] at h
      exact hother e h
    | some _ =>
      simp only [hpath] at h
      cases hhost : request.requestHeader.find (lit "Host") with
      | none =>
        simp only [hhost] at h
        obtain rfl := Except.error.inj h
        rfl
      | some value =>
        simp only [hhost] at h
        cases hvalue : hostRegex.regexMatch value with
        | none =>
          simp only [hvalue] at h
          exact hother e h
        | some c => simp [hvalue] at h

/-- A Request-URI of the absolute path form. -/
def AbsolutePath (uri : Bytes) : Prop := (absolutePathRegex.regexMatch uri).isSome

instance (uri : Bytes) : Decidable (AbsolutePath uri) := inferInstanceAs (Decidable (_ = true))

theorem absoluteUri_leading (uri : Bytes) (h : (absoluteUriRegex.regexMatch uri).isSome) :
    uri.head? ≠ some slash := by
  obtain ⟨c, hc⟩ := (Regex.regexMatch_isSome _ _).mp h
  obtain ⟨c₁, u, c₂, h₁, -, -⟩ := (Regex.mem_run_seq _ _ _ _ _).mp hc
  obtain ⟨-, hlit⟩ := (Regex.mem_run_literal _ _ _ _).mp h₁
  rw [hlit]
  show some (104 : Byte) ≠ some slash
  decide

theorem absoluteUri_path_none (uri : Bytes) (h : uri.head? = some slash) :
    absoluteUriRegex.regexMatch uri = none := by
  by_contra hsome
  exact absoluteUri_leading uri (Option.isSome_iff_ne_none.mpr hsome) h

theorem absolutePath_none (uri : Bytes) (h : ¬AbsolutePath uri) :
    absolutePathRegex.regexMatch uri = none := by
  simpa [AbsolutePath] using h

theorem slash_ne_star (uri : Bytes) (h : uri.head? = some slash) : uri ≠ lit "*" := by
  intro hstar
  rw [hstar] at h
  exact absurd h (by decide)

theorem absolutePath_leading (uri : Bytes) (h : AbsolutePath uri) : uri.head? = some slash := by
  obtain ⟨c, hc⟩ := (Regex.regexMatch_isSome _ _).mp h
  obtain ⟨c₁, u, c₂, h₁, -, -⟩ := (Regex.mem_run_seq _ _ _ _ _).mp hc
  obtain ⟨c', g, h₁, rfl, -⟩ := (Regex.mem_run_group _ _ _ _ _).mp h₁
  obtain ⟨d₁, v, d₂, hlit, -, -⟩ := (Regex.mem_run_seq _ _ _ _ _).mp h₁
  obtain ⟨-, hslash⟩ := (Regex.mem_run_literal _ _ _ _).mp hlit
  rw [hslash]
  rfl

/-- Among the accepted Request-URIs, the absolute paths are those with a leading slash. -/
theorem extractHost_leading (request : HttpRequest) (h : Host)
    (haccept : extractHost request = .ok h) :
    request.requestUri.head? = some slash ↔ AbsolutePath request.requestUri := by
  constructor
  · intro hlead
    by_contra hpath
    simp [extractHost, absoluteUri_path_none _ hlead, absolutePath_none _ hpath,
      slash_ne_star _ hlead] at haccept
  · exact absolutePath_leading _

/-- What the name pattern matches. -/
def HostName (name : Bytes) : Prop := name ≠ [] ∧ slash ∉ name ∧ colon ∉ name

instance (name : Bytes) : Decidable (HostName name) := inferInstanceAs (Decidable (_ ∧ _ ∧ _))

/-- A match that begins with a name captures it. -/
theorem nameRegex_captured (b : Regex Byte) (s t : Bytes) (c : Regex.Captures Byte)
    (h : (c, t) ∈ (Regex.seq (.group 1 nameRegex) b).run s) : HostName (c.get 1) := by
  obtain ⟨c₁, u, c₂, h₁, -, rfl⟩ := (Regex.mem_run_seq _ _ _ _ _).mp h
  obtain ⟨c', g, hname, hg, rfl⟩ := (Regex.mem_run_group _ _ _ _ _).mp h₁
  obtain ⟨-, a, hne, hclass, ha⟩ := (Regex.mem_run_plus _ _ _ _).mp hname
  obtain rfl : g = a := List.append_cancel_right (hg.symm.trans ha)
  have hget : Regex.Captures.get ((1, g) :: c' ++ c₂) 1 = g := by
    simp [Regex.Captures.get, Assoc.find]
  rw [hget]
  refine ⟨hne, ?_, ?_⟩
  · intro hm
    simpa using hclass slash hm
  · intro hm
    simpa using hclass colon hm

/-- The name of an extracted host is not empty and holds neither a slash nor a colon. -/
theorem extractHost_name (request : HttpRequest) (h : Host)
    (haccept : extractHost request = .ok h) : HostName h.name := by
  -- the last form of the Request-URI, tried when the first two do not give a host
  have hother : ∀ e : Fault, (if request.requestUri = lit "*" then .ok ⟨lit "*", 80⟩
      else .error e : Except Fault Host) = .ok h → HostName h.name := by
    intro e he
    split_ifs at he
    obtain rfl := Except.ok.inj he
    decide
  simp only [extractHost] at haccept
  cases huri : absoluteUriRegex.regexMatch request.requestUri with
  | some c =>
    simp only [huri] at haccept
    obtain rfl := Except.ok.inj haccept
    obtain ⟨c₁, u, c₂, h₁, h₂, rfl⟩ :=
      (Regex.mem_run_seq _ _ _ _ _).mp (Regex.regexMatch_mem _ _ c huri)
    obtain ⟨rfl, -⟩ := (Regex.mem_run_literal _ _ _ _).mp h₁
    exact nameRegex_captured _ _ _ c₂ h₂
  | none =>
    simp only [huri] at haccept
    cases hpath : absolutePathRegex.regexMatch request.requestUri with
    | none =>
      simp only [hpath] at haccept
      exact hother _ haccept
    | some _ =>
      simp only [hpath] at haccept
      cases hhost : request.requestHeader.find (lit "Host") with
      | none => simp [hhost] at haccept
      | some value =>
        simp only [hhost] at haccept
        cases hvalue : hostRegex.regexMatch value with
        | none =>
          simp only [hvalue] at haccept
          exact hother _ haccept
        | some c =>
          simp only [hvalue] at haccept
          obtain rfl := Except.ok.inj haccept
          exact nameRegex_captured _ _ _ c (Regex.regexMatch_mem _ _ c hvalue)

end HttpService
end HttpCpp
