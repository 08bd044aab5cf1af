import HttpCpp.Framework.Bytes

namespace HttpCpp

/-- `http_constants::method`: any value of the underlying `uint8_t`, enumerator or not. -/
inductive Method where
  | mOptions
  | mGet
  | mHead
  | mPost
  | mPut
  | mDelete
  | mTrace
  | mConnect
  | other (value : Fin 248)
  deriving DecidableEq, Repr

namespace Method

/-- The value of the underlying `uint8_t`. -/
def underlying : Method → Nat
  | .mOptions => 0
  | .mGet => 1
  | .mHead => 2
  | .mPost => 3
  | .mPut => 4
  | .mDelete => 5
  | .mTrace => 6
  | .mConnect => 7
  | .other value => value.val + 8

/-- `static_cast<method>(index)` for an index into `METHODS`. -/
def cast : Nat → Method
  | 0 => .mOptions
  | 1 => .mGet
  | 2 => .mHead
  | 3 => .mPost
  | 4 => .mPut
  | 5 => .mDelete
  | 6 => .mTrace
  | _ => .mConnect

theorem underlying_injective : Function.Injective underlying := by
  intro a b h
  cases a <;> cases b <;> first | rfl | simp [underlying] at h
  case other.other v w => exact congrArg other (Fin.ext h)

instance : LinearOrder Method := LinearOrder.lift' underlying underlying_injective

end Method

def METHODS : List Bytes :=
  [lit "OPTIONS", lit "GET", lit "HEAD", lit "POST", lit "PUT", lit "DELETE", lit "TRACE",
    lit "CONNECT"]

/-- `operator<<` of a method. Past the end of `METHODS` the source reads beyond the array; no value
of `cast` lies there. -/
def Method.text (m : Method) : Bytes := METHODS.getD m.underlying []

def GENERAL_HEADER : List Bytes :=
  [lit "Cache-Control", lit "Connection", lit "Date", lit "Pragma", lit "Trailer",
    lit "Transfer-Encoding", lit "Upgrade", lit "Via", lit "Warning"]

def REQUEST_HEADER : List Bytes :=
  [lit "Accept", lit "Accept-Charset", lit "Accept-Encoding", lit "Accept-Language",
    lit "Authorization", lit "Expect", lit "From", lit "Host", lit "If-Match",
    lit "If-Modified-Since", lit "If-None-Match", lit "If-Range", lit "If-Unmodified-Since",
    lit "Max-Forwards", lit "Proxy-Authorization", lit "Range", lit "Referer", lit "TE",
    lit "User-Agent"]

def ENTITY_HEADER : List Bytes :=
  [lit "Allow", lit "Content-Encoding", lit "Content-Language", lit "Content-Length",
    lit "Content-Location", lit "Content-MD5", lit "Content-Range", lit "Content-Type",
    lit "Expires", lit "Last-Modified"]

def CRLF : Bytes := [CR, LF]

/-- What a build of the program leaves open: whether assertions are compiled out, and where
the pointer arrays of the header names lie, counted in pointers. -/
structure Build where
  ndebug : Bool
  generalHeader : Nat
  requestHeader : Nat
  entityHeader : Nat
  disjoint : requestHeader + REQUEST_HEADER.length ≤ entityHeader ∨
    entityHeader + ENTITY_HEADER.length ≤ requestHeader

/-- A release build with the arrays apart. -/
def plainBuild : Build := ⟨true, 0, 100, 200, by decide⟩

/-- `std::cend` of an array placed at `base`. -/
def arrayEnd (base : Nat) (array : List Bytes) : Nat := base + array.length

/-- `std::find` over an array placed at `base`; the end when nothing is found. -/
def arrayFind (base : Nat) (array : List Bytes) (x : Bytes) : Nat := base + array.findIdx (· = x)

theorem arrayFind_eq_end (base : Nat) (array : List Bytes) (x : Bytes) :
    arrayFind base array x = arrayEnd base array ↔ x ∉ array := by
  have h : array.findIdx (· = x) = array.length ↔ ∀ y ∈ array, decide (y = x) = false :=
    List.findIdx_eq_length
  simp only [arrayFind, arrayEnd, Nat.add_left_cancel_iff, h, decide_eq_false_iff_not]
  exact ⟨fun h hx => h x hx rfl, fun h y hy he => h (he ▸ hy)⟩

/-- Some pointer into `ENTITY_HEADER`'s array is `REQUEST_HEADER`'s end pointer. -/
def Build.Adjacent (bld : Build) : Prop :=
  ∃ i ≤ ENTITY_HEADER.length, bld.entityHeader + i = arrayEnd bld.requestHeader REQUEST_HEADER

theorem plainBuild_apart : ¬plainBuild.Adjacent := by
  intro h
  obtain ⟨i, -, hi⟩ := h
  simp only [plainBuild, arrayEnd, REQUEST_HEADER, List.length_cons, List.length_nil] at hi
  omega

/-- The arrays do not overlap, so only the first entity header can sit on the end pointer. -/
theorem entity_hits_request_end (bld : Build) (x : Bytes) :
    arrayFind bld.entityHeader ENTITY_HEADER x = arrayEnd bld.requestHeader REQUEST_HEADER ↔
      bld.Adjacent ∧ x = lit "Allow" := by
  have hr : REQUEST_HEADER.length = 19 := rfl
  have he : ENTITY_HEADER.length = 10 := rfl
  have hd := bld.disjoint
  rw [hr, he] at hd
  simp only [Build.Adjacent, arrayFind, arrayEnd, hr, he]
  have hle : ENTITY_HEADER.findIdx (· = x) ≤ 10 := List.findIdx_le_length
  have hzero : ENTITY_HEADER.findIdx (· = x) = 0 ↔ x = lit "Allow" := by
    constructor
    · intro h
      have hlt : ENTITY_HEADER.findIdx (· = x) < ENTITY_HEADER.length := by rw [h, he]; decide
      have hget := List.findIdx_getElem (p := (· = x)) (w := hlt)
      simp only [h, decide_eq_true_eq] at hget
      exact hget.symm
    · intro hallow
      subst hallow
      decide
  constructor
  · intro h
    have h0 : ENTITY_HEADER.findIdx (· = x) = 0 := by omega
    exact ⟨⟨0, by omega, by omega⟩, hzero.mp h0⟩
  · intro hallow
    obtain ⟨⟨i, hi, hadj⟩, hx⟩ := hallow
    have h0 := hzero.mpr hx
    omega

end HttpCpp
