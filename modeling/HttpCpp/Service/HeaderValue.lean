import HttpCpp.Service.HeaderClasses
import HttpCpp.Service.RequestGrammar

namespace HttpCpp
namespace HttpService

open OneOne StringStream

/-- The value recorded under a name, in whichever map it is. -/
def valueOf (r : HttpRequest) (name : Bytes) : Option Bytes :=
  ((r.generalHeader.find name).or (r.requestHeader.find name)).or (r.entityHeader.find name)

/-- A header line without its line feed, with a number of spaces before the value. -/
def fieldLine (name : Bytes) (spaces : Nat) (value : Bytes) : Bytes :=
  name ++ colon :: (List.replicate spaces SP ++ value ++ [CR])

/-- The value on the first line for a name. -/
def firstValue (name : Bytes) (lines : List Bytes) : Option Bytes :=
  Assoc.find name (lines.filterMap lineHeader)

theorem stored_firstValue (bld : Build) (request name : Bytes) :
    Assoc.find name (storedHeaders bld request) =
      if Dropped bld name then none else firstValue name (headerLines request) := by
  have hfilter : storedHeaders bld request = ((headerLines request).filterMap lineHeader).filter
      fun h => decide ¬Dropped bld h.1 := by
    rw [List.filter_filterMap]
    rfl
  rw [hfilter, Assoc.find_filter (fun name => decide ¬Dropped bld name)]
  simp only [decide_eq_true_eq, ite_not, firstValue]

/-- Of the values on the lines, the first one for a name is recorded. -/
theorem valueOf_firstValue (bld : Build) (garbage : Method) (request : Bytes) (r : HttpRequest)
    (h : OneOne.parseRequest bld request (.fresh garbage) = .ok (.success, r)) (name : Bytes) :
    valueOf r name = if Dropped bld name then none else firstValue name (headerLines request) := by
  obtain ⟨hgeneral, hrequest, hentity⟩ := oneOne_find bld garbage request r h name
  rw [valueOf, hgeneral, hrequest, hentity, ← stored_firstValue]
  by_cases hg : name ∈ GENERAL_HEADER <;> by_cases hr : name ∈ REQUEST_HEADER <;> simp [hg, hr]

/-- What finds the website of a request: the Request-URI on its first line, and the value on its
first line for `Host`. -/
theorem parseRequest_read (bld : Build) (garbage : Method) (request : Bytes) (r : HttpRequest)
    (h : parseRequest bld garbage request = .ok r) (method uri : Bytes) (hm : method ∈ METHODS)
    (hu : ∀ c ∈ uri, isSpace c = false)
    (hline : Handler.versionLine request = requestLine method uri) :
    r.requestUri = uri ∧
      r.requestHeader.find (lit "Host") = firstValue (lit "Host") (headerLines request) := by
  have hversion := versionToken_requestLine method uri hm hu
  rw [← hline] at hversion
  obtain ⟨-, ⟨-, hbody⟩ | ⟨hzero, -⟩⟩ := parseRequest_ok bld garbage request r h
  · constructor
    · obtain ⟨method', uri', version, hsplit, -, hkept⟩ := oneOne_line bld request _ r hbody
      rw [splitRequestLine_versionLine request method uri hm hu hline] at hsplit
      simp only [List.cons.injEq] at hsplit
      simp only [lineOf, Prod.mk.injEq] at hkept
      rw [hkept.2.1, hsplit.2.1]
    · have hrequest : lit "Host" ∈ REQUEST_HEADER := by decide
      have hkept : ¬Dropped bld (lit "Host") := fun hdrop => absurd hdrop.2 (by decide)
      obtain ⟨-, hfind, -⟩ := oneOne_find bld garbage request r ((noexcept_ok _ _).mpr hbody)
        (lit "Host")
      rw [hfind, if_pos hrequest, stored_firstValue, if_neg hkept]
  · rw [hversion] at hzero
    exact absurd hzero (by decide)

/-- The byte after the colon is never part of the value. -/
theorem lineHeader_fieldLine (name : Bytes) (spaces : Nat) (value : Bytes) (hn : colon ∉ name) :
    lineHeader (fieldLine name spaces value) =
      some (name, (List.replicate spaces SP ++ value).drop 1) := by
  rw [fieldLine, lineHeader_cut name _ hn, popBack_append_self]
  simp

/-- Without its first byte what follows the colon is the value exactly when that byte is the
only space. -/
theorem drop_spaces (spaces : Nat) (value : Bytes) (hv : value ≠ []) :
    (List.replicate spaces SP ++ value).drop 1 = value ↔ spaces = 1 := by
  constructor
  · intro h
    have hlen := congrArg List.length h
    have hpos := List.length_pos_of_ne_nil hv
    simp only [List.length_drop, List.length_append, List.length_replicate] at hlen
    omega
  · intro h
    subst h
    simp

theorem fieldLine_lf (name : Bytes) (spaces : Nat) (value : Bytes) (hn : LF ∉ name)
    (hv : LF ∉ value) : fieldLine name spaces value ≠ [] ∧ LF ∉ fieldLine name spaces value := by
  have hcolon : LF ≠ colon := by decide
  have hsp : LF ≠ SP := by decide
  have hcr : LF ≠ CR := by decide
  simp [fieldLine, hn, hv, hcolon, hsp, hcr]

/-- A header line stops the loop only by the name of it that makes the assertion fire. -/
theorem fieldLine_harmless (bld : Build) (name : Bytes) (spaces : Nat) (value : Bytes)
    (hn : colon ∉ name) (hv : value ≠ []) (hlf : LF ∉ fieldLine name spaces value)
    (hdrop : ¬Dropped bld name) :
    ¬(EndsAtColon (fieldLine name spaces value) ∨ LineFires bld (fieldLine name spaces value)) := by
  have hpop : popBack CR (List.replicate spaces SP ++ value ++ [CR]) ≠ [] := by
    rw [popBack_append_self]
    simp [hv]
  rw [← parseHeaderLine_ok_iff bld (.fresh .mGet) _ hlf, fieldLine,
    parseHeaderLine_colon bld _ name _ hn hlf, if_neg (by simp), if_neg hpop,
    storeHeader_apart bld _ name _ hdrop]
  exact ⟨_, rfl⟩

/-- A request with a header line after some others. -/
def withField (first : Bytes) (earlier : List Bytes) (line rest : Bytes) : Bytes :=
  first ++ LF :: (writeLines earlier ++ (line ++ LF :: rest))

theorem headerLines_written (first : Bytes) (earlier : List Bytes) (rest : Bytes)
    (hfirst : LF ∉ first) (hearlier : ∀ line ∈ earlier, line ≠ [] ∧ LF ∉ line) :
    headerLines (first ++ LF :: (writeLines earlier ++ rest)) = earlier ++ lineBlock rest := by
  rw [headerLines, afterRequestLine_cut first _ hfirst, lineBlock_writeLines earlier _ hearlier]

theorem headerLines_withField (first : Bytes) (earlier : List Bytes) (line rest : Bytes)
    (hfirst : LF ∉ first) (hearlier : ∀ line ∈ earlier, line ≠ [] ∧ LF ∉ line)
    (hline : line ≠ [] ∧ LF ∉ line) :
    headerLines (withField first earlier line rest) = earlier ++ line :: lineBlock rest := by
  rw [withField, headerLines_written first earlier _ hfirst hearlier,
    lineBlock_cons line rest hline.2 hline.1]

theorem withField_success (bld : Build) (garbage : Method) (first : Bytes) (earlier : List Bytes)
    (line rest : Bytes) (hfirst : LF ∉ first) (hearlier : ∀ line ∈ earlier, line ≠ [] ∧ LF ∉ line)
    (hline : line ≠ [] ∧ LF ∉ line) (hharmless : ¬(EndsAtColon line ∨ LineFires bld line))
    (hvalid : ∃ r, OneOne.parseRequest bld (first ++ LF :: (writeLines earlier ++ rest))
      (.fresh garbage) = .ok (.success, r)) :
    ∃ r, OneOne.parseRequest bld (withField first earlier line rest) (.fresh garbage) =
      .ok (.success, r) := by
  simp only [OneOne.parseRequest, noexcept_ok, oneOne_success_iff] at hvalid ⊢
  obtain ⟨haccepted, hothers⟩ := hvalid
  rw [headerLines_written first earlier rest hfirst hearlier] at hothers
  rw [headerLines_withField first earlier line rest hfirst hearlier hline]
  constructor
  · rw [RequestLineAccepted, requestLineOf_cut first _ hfirst] at haccepted
    rw [RequestLineAccepted, withField, requestLineOf_cut first _ hfirst]
    exact haccepted
  · intro other hother
    rcases List.mem_append.mp hother with hother | hother
    · exact hothers other (List.mem_append_left _ hother)
    · rcases List.mem_cons.mp hother with rfl | hother
      · exact hharmless
      · exact hothers other (List.mem_append_right _ hother)

theorem firstValue_fieldLine (earlier later : List Bytes) (name : Bytes) (spaces : Nat)
    (value : Bytes) (hn : colon ∉ name) (hv : value ≠ []) :
    firstValue name (earlier ++ fieldLine name spaces value :: later) = some value ↔
      firstValue name earlier = some value ∨ firstValue name earlier = none ∧ spaces = 1 := by
  have hfound : firstValue name (earlier ++ fieldLine name spaces value :: later) =
      (firstValue name earlier).or (some ((List.replicate spaces SP ++ value).drop 1)) := by
    rw [firstValue, List.filterMap_append, Assoc.find_append,
      List.filterMap_cons_some (lineHeader_fieldLine name spaces value hn)]
    simp [firstValue, Assoc.find]
  rw [hfound, Option.or_eq_some_iff, Option.some.injEq, drop_spaces spaces value hv]

/-- A header line put into a request that is parsed with success has its value recorded exactly
when one space stands before it, or when an earlier line for the name has that value. -/
theorem parseRequest_value_iff (bld : Build) (garbage : Method) (first : Bytes)
    (earlier : List Bytes) (rest name : Bytes) (spaces : Nat) (value : Bytes)
    (hfirst : LF ∉ first) (hearlier : ∀ line ∈ earlier, line ≠ [] ∧ LF ∉ line)
    (hvalid : ∃ r, OneOne.parseRequest bld (first ++ LF :: (writeLines earlier ++ rest))
      (.fresh garbage) = .ok (.success, r))
    (hlisted : Listed name) (hv : value ≠ []) (hlf : LF ∉ value) :
    (∃ r, OneOne.parseRequest bld (withField first earlier (fieldLine name spaces value) rest)
        (.fresh garbage) = .ok (.success, r) ∧ valueOf r name = some value) ↔
      ¬Dropped bld name ∧ (firstValue name earlier = some value ∨
        firstValue name earlier = none ∧ spaces = 1) := by
  obtain ⟨hcolon, hnlf⟩ := listed_plain name hlisted
  have hline := fieldLine_lf name spaces value hnlf hlf
  have hlines := headerLines_withField first earlier _ rest hfirst hearlier hline
  rw [← firstValue_fieldLine earlier (lineBlock rest) name spaces value hcolon hv, ← hlines]
  constructor
  · intro h
    obtain ⟨r, hr, hvalue⟩ := h
    rw [valueOf_firstValue bld garbage _ r hr] at hvalue
    split_ifs at hvalue with hdrop
    exact ⟨hdrop, hvalue⟩
  · intro h
    obtain ⟨hdrop, hvalue⟩ := h
    have hharmless := fieldLine_harmless bld name spaces value hcolon hv hline.2 hdrop
    obtain ⟨r, hr⟩ := withField_success bld garbage first earlier _ rest hfirst hearlier hline
      hharmless hvalid
    refine ⟨r, hr, ?_⟩
    rw [valueOf_firstValue bld garbage _ r hr, if_neg hdrop, hvalue]

theorem parseRequest_value_host :
    ∃ r, OneOne.parseRequest plainBuild (withField (lit "GET / HTTP/1.1\r") []
        (fieldLine (lit "Host") 1 (lit "a")) CRLF) (.fresh .mPut) = .ok (.success, r) ∧
      valueOf r (lit "Host") = some (lit "a") :=
  (parseRequest_value_iff plainBuild .mPut (lit "GET / HTTP/1.1\r") [] CRLF (lit "Host") 1
    (lit "a") (by decide) (by simp)
    ⟨⟨.mGet, lit "/", lit "HTTP/1.1", .empty, .empty, .empty, []⟩, by decide⟩
    (by decide) (by decide) (by decide)).mpr (by decide)

/-- Without a space after the colon the first byte of the value is lost. -/
theorem parseRequest_value_lost :
    Listed (lit "Host") ∧
      (∃ r, OneOne.parseRequest plainBuild (lit "GET / HTTP/1.1\r\n\r\n") (.fresh .mPut) =
        .ok (.success, r)) ∧
      withField (lit "GET / HTTP/1.1\r") [] (fieldLine (lit "Host") 0 (lit "abc")) CRLF =
        lit "GET / HTTP/1.1\r\nHost:abc\r\n\r\n" ∧
      ∃ r, OneOne.parseRequest plainBuild (lit "GET / HTTP/1.1\r\nHost:abc\r\n\r\n")
          (.fresh .mPut) = .ok (.success, r) ∧ valueOf r (lit "Host") = some (lit "bc") := by
  refine ⟨by decide, ⟨⟨.mGet, lit "/", lit "HTTP/1.1", .empty, .empty, .empty, []⟩,
    by decide⟩, by decide, ?_⟩
  exact ⟨⟨.mGet, lit "/", lit "HTTP/1.1", .empty, StdMap.empty.emplace (lit "Host") (lit "bc"),
    .empty, []⟩, by decide, by decide⟩

end HttpService
end HttpCpp
