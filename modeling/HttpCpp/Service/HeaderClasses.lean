import HttpCpp.Service.HeaderSection
import HttpCpp.Service.RequestLine

namespace HttpCpp
namespace HttpService

open OneOne

/-- The header on a line: what stands before the first colon, and what follows the byte after
it. A lone colon is no header. -/
def lineHeader (line : Bytes) : Option (Bytes × Bytes) :=
  if colon ∈ line ∧ 2 ≤ line.length then
    some (before colon line, (popBack CR (onward colon line).tail).drop 1)
  else none

instance (bld : Build) : Decidable bld.Adjacent :=
  inferInstanceAs (Decidable (∃ i, i ≤ ENTITY_HEADER.length ∧ _))

/-- The one name whose headers the loop drops, where the arrays stand so that the comparison
with the wrong end fails. -/
def Dropped (bld : Build) (name : Bytes) : Prop := bld.Adjacent ∧ name = lit "Allow"

instance (bld : Build) (name : Bytes) : Decidable (Dropped bld name) :=
  inferInstanceAs (Decidable (_ ∧ _))

/-- The header that the loop stores from a line. -/
def storedHeader (bld : Build) (line : Bytes) : Option (Bytes × Bytes) :=
  (lineHeader line).filter fun h => ¬Dropped bld h.1

theorem lineHeader_uncut (line : Bytes) (h : colon ∉ line) : lineHeader line = none := by
  simp [lineHeader, h]

theorem lineHeader_cut (name rest : Bytes) (hn : colon ∉ name) :
    lineHeader (name ++ colon :: rest) =
      if name = [] ∧ rest = [] then none else some (name, (popBack CR rest).drop 1) := by
  have hlen : 2 ≤ (name ++ colon :: rest).length ↔ ¬(name = [] ∧ rest = []) := by
    simp only [List.length_append, List.length_cons, ← List.length_eq_zero_iff]
    omega
  have hin : colon ∈ name ++ colon :: rest := by simp
  simp only [lineHeader, hin, true_and, hlen, before_cut colon name rest hn,
    onward_cut colon name rest hn, List.tail_cons, ite_not]

theorem storedHeader_none (bld : Build) (line : Bytes) (h : lineHeader line = none) :
    storedHeader bld line = none := by
  simp [storedHeader, h]

/-- A line that does not stop the loop records the header that is stored from it. -/
theorem parseHeaderLine_stored (bld : Build) (r s : HttpRequest) (line : Bytes) (hlf : LF ∉ line)
    (h : parseHeaderLine bld r line = .ok s) :
    s = recordAll r (storedHeader bld line).toList := by
  rcases cut_cases colon line with hc | ⟨name, rest, rfl, hn⟩
  · rw [parseHeaderLine_plain bld r line hc] at h
    rw [storedHeader_none bld line (lineHeader_uncut line hc)]
    exact (Except.ok.inj h).symm
  · rw [parseHeaderLine_colon bld r name rest hn hlf] at h
    have hheader := lineHeader_cut name rest hn
    split_ifs at h with hshort hpop
    · rw [if_pos hshort] at hheader
      rw [storedHeader_none bld _ hheader]
      exact (Except.ok.inj h).symm
    · rw [if_neg hshort] at hheader
      by_cases hdrop : Dropped bld name
      · have hnone : storedHeader bld (name ++ colon :: rest) = none := by
          rw [storedHeader, hheader, Option.filter_some]
          simp [hdrop]
        rw [hdrop.2, storeHeader_adjacent bld r _ hdrop.1] at h
        split_ifs at h
        rw [hnone]
        exact (Except.ok.inj h).symm
      · have hsome : storedHeader bld (name ++ colon :: rest) =
            some (name, (popBack CR rest).drop 1) := by
          simp only [storedHeader, hheader, Option.filter_some, hdrop, not_false_eq_true,
            decide_true, if_true]
        rw [storeHeader_apart bld r _ _ hdrop] at h
        rw [hsome]
        exact (Except.ok.inj h).symm

theorem recordAll_append (r : HttpRequest) (headers headers' : List (Bytes × Bytes)) :
    recordAll r (headers ++ headers') = recordAll (recordAll r headers) headers' :=
  List.foldl_append

theorem headerLoop_stored (bld : Build) (lines : List Bytes) (r s : HttpRequest)
    (hlf : ∀ line ∈ lines, LF ∉ line) (h : lines.foldlM (parseHeaderLine bld) r = .ok s) :
    s = recordAll r (lines.filterMap (storedHeader bld)) := by
  induction lines generalizing r with
  | nil => exact (Except.ok.inj h).symm
  | cons line lines ih =>
    obtain ⟨hline, hlines⟩ := List.forall_mem_cons.mp hlf
    rw [List.foldlM_cons] at h
    cases hstep : parseHeaderLine bld r line with
    | error e => simp [hstep, bind, Except.bind] at h
    | ok r' =>
      rw [hstep] at h
      have hrest := ih r' hlines h
      rw [parseHeaderLine_stored bld r r' line hline hstep, ← recordAll_append] at hrest
      rw [hrest, List.filterMap_cons]
      cases storedHeader bld line <;> rfl

/-- The headers stored from the lines of a request. -/
def storedHeaders (bld : Build) (request : Bytes) : List (Bytes × Bytes) :=
  (headerLines request).filterMap (storedHeader bld)

theorem lineOf_recordAll (r : HttpRequest) (headers : List (Bytes × Bytes)) :
    lineOf (recordAll r headers) = lineOf r := by
  induction headers generalizing r with
  | nil => rfl
  | cons h headers ih =>
    show lineOf (recordAll (record r h.1 h.2) headers) = _
    rw [ih, record]
    split_ifs <;> rfl

/-- What is found in the maps after recording: in each the first value of a name it takes, where
the third takes all names the others do not. -/
theorem recordAll_find (r : HttpRequest) (headers : List (Bytes × Bytes)) (k : Bytes) :
    (recordAll r headers).generalHeader.find k = (r.generalHeader.find k).or
        (if k ∈ GENERAL_HEADER then Assoc.find k headers else none) ∧
      (recordAll r headers).requestHeader.find k = (r.requestHeader.find k).or
        (if k ∈ REQUEST_HEADER then Assoc.find k headers else none) ∧
      (recordAll r headers).entityHeader.find k = (r.entityHeader.find k).or
        (if k ∈ GENERAL_HEADER ∨ k ∈ REQUEST_HEADER then none else Assoc.find k headers) := by
  have hclass : ∀ n ∈ REQUEST_HEADER, n ∉ GENERAL_HEADER := by
    intro n hr hg
    rcases listed_class n (Or.inl hg) with h | h | h
    · exact h.2.1 hr
    · exact h.1 hg
    · exact h.1 hg
  induction headers generalizing r with
  | nil => simp [recordAll]
  | cons h headers ih =>
    have hstep : recordAll r (h :: headers) = recordAll (record r h.1 h.2) headers := rfl
    obtain ⟨hgeneral, hrequest, hentity⟩ := ih (record r h.1 h.2)
    rw [hstep, hgeneral, hrequest, hentity]
    by_cases hk : k = h.1
    · subst hk
      by_cases hg : h.1 ∈ GENERAL_HEADER
      · have hr : h.1 ∉ REQUEST_HEADER := fun hr => hclass h.1 hr hg
        cases hfind : r.generalHeader.find h.1 <;>
          simp [record, hg, hr, StdMap.find_emplace, Assoc.find, hfind]
      · by_cases hr : h.1 ∈ REQUEST_HEADER
        · cases hfind : r.requestHeader.find h.1 <;>
            simp [record, hg, hr, StdMap.find_emplace, Assoc.find, hfind]
        · cases hfind : r.entityHeader.find h.1 <;>
            simp [record, hg, hr, StdMap.find_emplace, Assoc.find, hfind]
    · simp only [record, Assoc.find, hk, if_false]
      split_ifs <;> simp [StdMap.find_emplace, hk]

theorem oneOne_find (bld : Build) (garbage : Method) (request : Bytes) (r : HttpRequest)
    (h : OneOne.parseRequest bld request (.fresh garbage) = .ok (.success, r)) (k : Bytes) :
    r.generalHeader.find k =
        (if k ∈ GENERAL_HEADER then Assoc.find k (storedHeaders bld request) else none) ∧
      r.requestHeader.find k =
        (if k ∈ REQUEST_HEADER then Assoc.find k (storedHeaders bld request) else none) ∧
      r.entityHeader.find k = (if k ∈ GENERAL_HEADER ∨ k ∈ REQUEST_HEADER then none
        else Assoc.find k (storedHeaders bld request)) := by
  rw [OneOne.parseRequest, noexcept_ok] at h
  obtain ⟨method, uri, version, s, -, -, hloop, rfl⟩ := oneOne_loop bld request _ r h
  have hlf : ∀ line ∈ headerLines request, LF ∉ line :=
    fun line hl => (StringStream.lineBlock_mem _ line hl).2
  obtain rfl := headerLoop_stored bld _ _ s hlf hloop
  exact recordAll_find _ (storedHeaders bld request) k

/-- No name is in two of the header maps. -/
structure HeadersApart (r : HttpRequest) : Prop where
  generalRequest : r.generalHeader.Apart r.requestHeader
  generalEntity : r.generalHeader.Apart r.entityHeader
  requestEntity : r.requestHeader.Apart r.entityHeader

/-- Merging maps that are apart loses nothing and adds nothing. -/
theorem toGeneric_find (r : HttpRequest) (h : HeadersApart r) (k v : Bytes) :
    r.toGeneric.header.find k = some v ↔ r.generalHeader.find k = some v ∨
      r.requestHeader.find k = some v ∨ r.entityHeader.find k = some v := by
  obtain ⟨hgr, hge, hre⟩ := h
  have hentity : (r.generalHeader.insertRange r.requestHeader.entries).Apart r.entityHeader := by
    intro k
    have hrange : Assoc.find k r.requestHeader.entries = r.requestHeader.find k := rfl
    rw [StdMap.find_insertRange, hrange, Option.or_eq_none_iff]
    rcases hge k with hg | he
    · exact (hre k).imp (fun hr => ⟨hg, hr⟩) id
    · exact Or.inr he
  simp only [HttpRequest.toGeneric, StdMap.insertRange_empty]
  rw [StdMap.find_insertRange_apart _ _ hentity, StdMap.find_insertRange_apart _ _ hgr, or_assoc]

/-- The header loop gives every name one map: a listed one that of its class, all others the
entity headers. -/
theorem parseRequest_apart (bld : Build) (garbage : Method) (request : Bytes) (r : HttpRequest)
    (h : OneOne.parseRequest bld request (.fresh garbage) = .ok (.success, r)) :
    HeadersApart r := by
  have hfind := oneOne_find bld garbage request r h
  refine ⟨?_, ?_, ?_⟩
  · intro k
    obtain ⟨hgeneral, hrequest, -⟩ := hfind k
    rw [hgeneral, hrequest]
    by_cases hg : k ∈ GENERAL_HEADER
    · have hr : k ∉ REQUEST_HEADER := by
        rcases listed_class k (Or.inl hg) with hclass | hclass | hclass
        · exact hclass.2.1
        · exact absurd hg hclass.1
        · exact absurd hg hclass.1
      exact Or.inr (if_neg hr)
    · exact Or.inl (if_neg hg)
  · intro k
    obtain ⟨hgeneral, -, hentity⟩ := hfind k
    rw [hgeneral, hentity]
    by_cases hg : k ∈ GENERAL_HEADER
    · exact Or.inr (if_pos (Or.inl hg))
    · exact Or.inl (if_neg hg)
  · intro k
    obtain ⟨-, hrequest, hentity⟩ := hfind k
    rw [hrequest, hentity]
    by_cases hr : k ∈ REQUEST_HEADER
    · exact Or.inr (if_pos (Or.inr hr))
    · exact Or.inl (if_neg hr)

/-- The generic request has exactly the headers of the three maps of a parsed request. -/
theorem parseRequest_merged (bld : Build) (garbage : Method) (request : Bytes) (r : HttpRequest)
    (h : OneOne.parseRequest bld request (.fresh garbage) = .ok (.success, r)) :
    HeadersApart r ∧ ∀ k v, r.toGeneric.header.find k = some v ↔
      r.generalHeader.find k = some v ∨ r.requestHeader.find k = some v ∨
        r.entityHeader.find k = some v := by
  have hapart := parseRequest_apart bld garbage request r h
  exact ⟨hapart, toGeneric_find r hapart⟩

theorem parseRequest_merged_get :
    HeadersApart ⟨.mGet, lit "/", lit "HTTP/1.1", .empty,
        StdMap.empty.emplace (lit "Host") (lit "a"), StdMap.empty.emplace (lit "X-Foo") (lit "b"),
        []⟩ ∧
      ∀ k v, (HttpRequest.toGeneric ⟨.mGet, lit "/", lit "HTTP/1.1", .empty,
          StdMap.empty.emplace (lit "Host") (lit "a"),
          StdMap.empty.emplace (lit "X-Foo") (lit "b"), []⟩).header.find k = some v ↔
        StdMap.empty.find k = some v ∨
          (StdMap.empty.emplace (lit "Host") (lit "a")).find k = some v ∨
          (StdMap.empty.emplace (lit "X-Foo") (lit "b")).find k = some v :=
  parseRequest_merged plainBuild .mPut
    (lit "GET / HTTP/1.1\r\nHost: a\r\nX-Foo: b\r\n\r\n") _ (by decide)

/-- Each map holds headers of its class only, and no header outside the classes is in any. -/
structure HeadersClassed (r : HttpRequest) : Prop where
  general : ∀ k, (r.generalHeader.find k).isSome → k ∈ GENERAL_HEADER
  request : ∀ k, (r.requestHeader.find k).isSome → k ∈ REQUEST_HEADER
  entity : ∀ k, (r.entityHeader.find k).isSome → k ∈ ENTITY_HEADER
  unlisted : ∀ k, ¬Listed k → r.generalHeader.find k = none ∧ r.requestHeader.find k = none ∧
    r.entityHeader.find k = none

theorem find_isSome_iff (k : Bytes) (headers : List (Bytes × Bytes)) :
    (Assoc.find k headers).isSome ↔ k ∈ headers.map Prod.fst := by
  rw [Option.isSome_iff_ne_none, ne_eq, Assoc.find_none]
  simp only [not_forall, not_not, List.mem_map, exists_prop, eq_comm]

/-- The name of the header on a line. -/
def lineName (line : Bytes) : Option Bytes := (lineHeader line).map Prod.fst

theorem unlisted_stored (bld : Build) (request line name : Bytes) (hl : line ∈ headerLines request)
    (hname : name ∈ lineName line) (hno : ¬Listed name) :
    name ∈ (storedHeaders bld request).map Prod.fst := by
  obtain ⟨h, hheader, rfl⟩ := Option.map_eq_some_iff.mp hname
  have hkeep : ¬Dropped bld h.1 := by
    intro hdrop
    exact hno (hdrop.2 ▸ by decide)
  have hstored : storedHeader bld line = some h := by
    simp [storedHeader, hheader, hkeep]
  exact List.mem_map.mpr ⟨h, List.mem_filterMap.mpr ⟨line, hl, hstored⟩, rfl⟩

/-- What is dropped has a class, so the headers stored tell whether all on the lines have one. -/
theorem stored_listed_iff (bld : Build) (request : Bytes) :
    (∀ k ∈ (storedHeaders bld request).map Prod.fst, Listed k) ↔
      ∀ line ∈ headerLines request, ∀ name ∈ lineName line, Listed name := by
  constructor
  · intro h line hl name hname
    by_contra hno
    exact hno (h name (unlisted_stored bld request line name hl hname hno))
  · intro h k hk
    obtain ⟨e, he, rfl⟩ := List.mem_map.mp hk
    obtain ⟨line, hl, hstored⟩ := List.mem_filterMap.mp he
    have hheader := Option.eq_some_of_filter_eq_some hstored
    exact h line hl e.1 (by simp [lineName, hheader])

/-- The headers of a request that is parsed are in their classes exactly when all that are stored
have one. -/
theorem classed_stored_iff (bld : Build) (garbage : Method) (request : Bytes) (r : HttpRequest)
    (h : OneOne.parseRequest bld request (.fresh garbage) = .ok (.success, r)) :
    HeadersClassed r ↔ ∀ k ∈ (storedHeaders bld request).map Prod.fst, Listed k := by
  have hfind := oneOne_find bld garbage request r h
  constructor
  · intro hclassed k hk
    by_contra hno
    have hnone : ¬(k ∈ GENERAL_HEADER ∨ k ∈ REQUEST_HEADER) := by
      intro hclass
      exact hno (hclass.elim Or.inl fun hr => Or.inr (Or.inl hr))
    have hentity := (hfind k).2.2
    rw [if_neg hnone, (hclassed.unlisted k hno).2.2] at hentity
    rw [← find_isSome_iff, ← hentity] at hk
    contradiction
  · intro hlisted
    refine ⟨?_, ?_, ?_, ?_⟩
    · intro k hk
      rw [(hfind k).1] at hk
      by_contra hno
      simp [hno] at hk
    · intro k hk
      rw [(hfind k).2.1] at hk
      by_contra hno
      simp [hno] at hk
    · intro k hk
      rw [(hfind k).2.2] at hk
      split_ifs at hk with hclass
      · contradiction
      · have hk := hlisted k ((find_isSome_iff k _).mp hk)
        exact (hk.resolve_left fun hg => hclass (Or.inl hg)).resolve_left fun hr =>
          hclass (Or.inr hr)
    · intro k hno
      have hnone : Assoc.find k (storedHeaders bld request) = none := by
        by_contra hsome
        exact hno (hlisted k ((find_isSome_iff k _).mp (Option.isSome_iff_ne_none.mpr hsome)))
      obtain ⟨hgeneral, hrequest, hentity⟩ := hfind k
      rw [hgeneral, hrequest, hentity, hnone]
      simp

/-- A request that is parsed with success has its headers in their classes exactly when all headers
on its lines have one. -/
theorem parseRequest_classed_iff (bld : Build) (garbage : Method) (request : Bytes)
    (r : HttpRequest) (h : OneOne.parseRequest bld request (.fresh garbage) = .ok (.success, r)) :
    HeadersClassed r ↔ ∀ line ∈ headerLines request, ∀ name ∈ lineName line, Listed name := by
  rw [classed_stored_iff bld garbage request r h]
  exact stored_listed_iff bld request

theorem parseRequest_classed_get :
    HeadersClassed ⟨.mGet, lit "/", lit "HTTP/1.1", .empty,
      StdMap.empty.emplace (lit "Host") (lit "a"), .empty, []⟩ :=
  (parseRequest_classed_iff plainBuild .mPut (lit "GET / HTTP/1.1\r\nHost: a\r\n\r\n") _
    (by decide)).mpr (by decide)

/-- A header that no class lists is stored among the entity headers. -/
theorem parseRequest_unlisted :
    ∃ r, OneOne.parseRequest plainBuild (lit "GET / HTTP/1.1\r\nX-Foo: a\r\n\r\n")
        (.fresh .mPut) = .ok (.success, r) ∧
      r.entityHeader.find (lit "X-Foo") = some (lit "a") ∧ ¬HeadersClassed r := by
  refine ⟨⟨.mGet, lit "/", lit "HTTP/1.1", .empty, .empty,
    StdMap.empty.emplace (lit "X-Foo") (lit "a"), []⟩, by decide, by decide, ?_⟩
  intro h
  have hclass := h.entity (lit "X-Foo") (by decide)
  exact absurd hclass (by decide)

end HttpService
end HttpCpp
