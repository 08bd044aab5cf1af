import HttpCpp.Protocol.OneOne

namespace HttpCpp
namespace OneOne

theorem parseHeaderLine_plain (bld : Build) (r : HttpRequest) (line : Bytes)
    (h : colon ∉ line) : parseHeaderLine bld r line = .ok r := by
  have hnone : line.findIdx? (· = colon) = none := by
    apply List.findIdx?_eq_none_iff.mpr
    intro x hx
    have hne : x ≠ colon := fun he => h (he ▸ hx)
    simpa using hne
  simp [parseHeaderLine, hnone]

private theorem pop_past_colon (name rest : Bytes) :
    popBack CR (name ++ colon :: rest) = name ++ colon :: popBack CR rest := by
  rw [popBack_append CR name (colon :: rest) (by simp)]
  by_cases hr : rest = []
  · subst hr
    rfl
  · have h := popBack_append CR [colon] rest hr
    simp only [List.cons_append, List.nil_append] at h
    rw [h]

/-- What the loop body does with a line, in terms of what stands around its first colon. -/
theorem parseHeaderLine_colon (bld : Build) (r : HttpRequest) (name rest : Bytes)
    (hn : colon ∉ name) (hlf : LF ∉ name ++ colon :: rest) :
    parseHeaderLine bld r (name ++ colon :: rest) =
      if name = [] ∧ rest = [] then .ok r
      else if popBack CR rest = [] then .error .outOfRange
      else storeHeader bld r name ((popBack CR rest).drop 1) := by
  have hlen : (name ++ colon :: rest).length < 2 ↔ name = [] ∧ rest = [] := by
    simp only [List.length_append, List.length_cons, ← List.length_eq_zero_iff]
    omega
  simp only [parseHeaderLine, findIdx?_cut colon name rest hn, hlen, popBack_of_notMem LF _ hlf,
    pop_past_colon]
  split_ifs with hshort hpop
  · rfl
  · simp [substr, hpop]
  · have hpos : 0 < (popBack CR rest).length := List.length_pos_of_ne_nil hpop
    have hin : name.length + 2 ≤ (name ++ colon :: popBack CR rest).length := by
      simp only [List.length_append, List.length_cons]
      omega
    have hdrop : (name ++ colon :: popBack CR rest).drop (name.length + 2) =
        (popBack CR rest).drop 1 := by
      rw [← List.drop_drop, List.drop_left]
      rfl
    simp only [substr, hin, if_true, hdrop, List.take_left]

/-- A header that ends up in none of the maps and stops a build with assertions. -/
def Build.AssertFires (bld : Build) (header : Bytes) : Prop :=
  bld.ndebug = false ∧ bld.Adjacent ∧ header = lit "Allow"

/-- The class a header is recorded under when no pointer comparison goes wrong. -/
def record (r : HttpRequest) (header property : Bytes) : HttpRequest :=
  if header ∈ GENERAL_HEADER then
    { r with generalHeader := r.generalHeader.emplace header property }
  else if header ∈ REQUEST_HEADER then
    { r with requestHeader := r.requestHeader.emplace header property }
  else { r with entityHeader := r.entityHeader.emplace header property }

theorem storeHeader_apart (bld : Build) (r : HttpRequest) (header property : Bytes)
    (h : ¬(bld.Adjacent ∧ header = lit "Allow")) :
    storeHeader bld r header property = .ok (record r header property) := by
  simp only [storeHeader, record, ne_eq, arrayFind_eq_end, entity_hits_request_end, h,
    not_false_eq_true, if_true, not_not]
  split_ifs <;> rfl

theorem storeHeader_adjacent (bld : Build) (r : HttpRequest) (property : Bytes)
    (h : bld.Adjacent) :
    storeHeader bld r (lit "Allow") property =
      if bld.ndebug then .ok r else .error .assertion := by
  have hg : lit "Allow" ∉ GENERAL_HEADER := by decide
  have hr : lit "Allow" ∉ REQUEST_HEADER := by decide
  simp only [storeHeader, ne_eq, arrayFind_eq_end, entity_hits_request_end, hg, hr, h,
    and_self, not_true_eq_false, not_false_eq_true, if_false, Build.assert, Bool.or_false]
  cases bld.ndebug <;> simp

theorem storeHeader_ok_iff (bld : Build) (r : HttpRequest) (header property : Bytes) :
    (∃ r', storeHeader bld r header property = .ok r') ↔ ¬Build.AssertFires bld header := by
  by_cases h : bld.Adjacent ∧ header = lit "Allow"
  · obtain ⟨hadj, rfl⟩ := h
    rw [storeHeader_adjacent bld r property hadj]
    cases hnd : bld.ndebug <;> simp [Build.AssertFires, hnd, hadj]
  · have hfire : ¬Build.AssertFires bld header := fun hf => h hf.2
    exact iff_of_true ⟨_, storeHeader_apart bld r header property h⟩ hfire

/-- A line whose first colon is its last byte once a carriage return is taken off,
the lone colon excepted. -/
def EndsAtColon (line : Bytes) : Prop :=
  ∃ name, colon ∉ name ∧ (line = name ++ [colon] ∧ name ≠ [] ∨ line = name ++ [colon, CR])

/-- A complete header line whose name makes the assertion fire. -/
def LineFires (bld : Build) (line : Bytes) : Prop :=
  ∃ rest, line = lit "Allow" ++ colon :: rest ∧ rest ≠ [] ∧ rest ≠ [CR] ∧
    Build.AssertFires bld (lit "Allow")

private theorem endsAtColon_iff (name rest : Bytes) (hn : colon ∉ name) :
    EndsAtColon (name ++ colon :: rest) ↔ ¬(name = [] ∧ rest = []) ∧ popBack CR rest = [] := by
  rw [popBack_eq_nil]
  constructor
  · intro hends
    obtain ⟨name', hn', ⟨he, hne⟩ | he⟩ := hends
    · obtain ⟨rfl, rfl⟩ := cut_unique colon hn hn' he
      exact ⟨fun h => hne h.1, Or.inl rfl⟩
    · obtain ⟨rfl, rfl⟩ := cut_unique colon hn hn' he
      exact ⟨fun h => by simp at h, Or.inr rfl⟩
  · intro hpop
    obtain ⟨hne, rfl | rfl⟩ := hpop
    · exact ⟨name, hn, Or.inl ⟨rfl, fun h => hne ⟨h, rfl⟩⟩⟩
    · exact ⟨name, hn, Or.inr rfl⟩

private theorem lineFires_iff (bld : Build) (name rest : Bytes) (hn : colon ∉ name) :
    LineFires bld (name ++ colon :: rest) ↔ popBack CR rest ≠ [] ∧ Build.AssertFires bld name := by
  have ha : colon ∉ lit "Allow" := by decide
  simp only [ne_eq, popBack_eq_nil, not_or]
  constructor
  · intro h
    obtain ⟨rest', he, h1, h2, hf⟩ := h
    obtain ⟨rfl, rfl⟩ := cut_unique colon hn ha he
    exact ⟨⟨h1, h2⟩, hf⟩
  · intro h
    obtain ⟨⟨h1, h2⟩, hf⟩ := h
    have hname := hf.2.2
    subst hname
    exact ⟨rest, rfl, h1, h2, hf⟩

/-- The loop body returns unless the line ends at its colon or reaches the assertion. -/
theorem parseHeaderLine_ok_iff (bld : Build) (r : HttpRequest) (line : Bytes) (hlf : LF ∉ line) :
    (∃ r', parseHeaderLine bld r line = .ok r') ↔ ¬(EndsAtColon line ∨ LineFires bld line) := by
  rcases cut_cases colon line with hc | ⟨name, rest, rfl, hn⟩
  · refine iff_of_true ⟨r, parseHeaderLine_plain bld r line hc⟩ ?_
    intro h
    rcases h with ⟨name, -, ⟨rfl, -⟩ | rfl⟩ | ⟨rest, rfl, -⟩ <;> simp at hc
  · rw [parseHeaderLine_colon bld r name rest hn hlf, endsAtColon_iff name rest hn,
      lineFires_iff bld name rest hn]
    split_ifs with hshort hpop
    · obtain ⟨rfl, rfl⟩ := hshort
      simp [popBack]
    · simp [hshort, hpop]
    · simpa [hpop] using storeHeader_ok_iff bld r name ((popBack CR rest).drop 1)

end OneOne
end HttpCpp
