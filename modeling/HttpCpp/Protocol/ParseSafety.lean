import HttpCpp.Protocol.HeaderLine

namespace HttpCpp
namespace OneOne

open StringStream

/-- The request line splits into three tokens of which the first is a method. -/
def RequestLineAccepted (request : Bytes) : Prop :=
  ∃ method uri version,
    splitRequestLine (requestLineOf request) = [method, uri, version] ∧ method ∈ METHODS

/-- The lines the header loop reads: from the second one to the first empty one. -/
def headerLines (request : Bytes) : List Bytes := lineBlock (afterRequestLine request)

/-- The body of `parse_request` throws where a line the loop reads ends at its colon or reaches the
assertion. -/
theorem parseRequestBody_ok_iff (bld : Build) (request : Bytes) (r : HttpRequest) :
    (∃ out, parseRequestBody bld request r = .ok out) ↔
      ¬(RequestLineAccepted request ∧
        ∃ line ∈ headerLines request, EndsAtColon line ∨ LineFires bld line) := by
  by_cases hne : request = []
  · subst hne
    refine iff_of_true ⟨_, rfl⟩ ?_
    intro h
    obtain ⟨-, line, hl, -⟩ := h
    simp [headerLines, afterRequestLine, onward, lineBlock_nil] at hl
  · rw [parseRequestBody_eq bld request r hne]
    split
    · rename_i method uri version hsplit
      split_ifs with hm
      · have hacc : RequestLineAccepted request := ⟨method, uri, version, hsplit, hm⟩
        have hfold := foldlM_ok_iff (parseHeaderLine bld)
          (fun line => EndsAtColon line ∨ LineFires bld line) (headerLines request)
          { r with
            method := .cast (METHODS.findIdx (· = method))
            requestUri := uri
            httpVersion := version }
          (fun r' line hl => parseHeaderLine_ok_iff bld r' line (lineBlock_mem _ line hl).2)
        have hall : (∀ line ∈ headerLines request, ¬(EndsAtColon line ∨ LineFires bld line)) ↔
            ¬(RequestLineAccepted request ∧
              ∃ line ∈ headerLines request, EndsAtColon line ∨ LineFires bld line) := by
          simp only [hacc, true_and, not_exists, not_and]
        rw [← hall, ← hfold]
        exact parseFields_ok_iff bld _ _
      · refine iff_of_true ⟨_, rfl⟩ ?_
        intro h
        obtain ⟨⟨method', uri', version', hsplit', hm'⟩, -⟩ := h
        rw [hsplit] at hsplit'
        exact hm ((List.cons.inj hsplit').1 ▸ hm')
    · rename_i hno
      refine iff_of_true ⟨_, rfl⟩ ?_
      intro h
      obtain ⟨⟨method', uri', version', hsplit', -⟩, -⟩ := h
      exact hno method' uri' version' hsplit'

/-- Parsing survives exactly when no line the loop reads ends at its colon, and none reaches
the assertion. -/
theorem parseRequest_survives_iff (bld : Build) (request : Bytes) (r : HttpRequest) :
    (∃ out, parseRequest bld request r = .ok out) ↔
      ¬(RequestLineAccepted request ∧
        ∃ line ∈ headerLines request, EndsAtColon line ∨ LineFires bld line) := by
  simp only [parseRequest, noexcept_ok]
  exact parseRequestBody_ok_iff bld request r

/-- A `Host` header with nothing after its colon ends the process. -/
theorem empty_host_terminates :
    parseRequest plainBuild (lit "GET / HTTP/1.1" ++ CRLF ++ lit "Host:" ++ CRLF ++ CRLF)
      (.fresh .mGet) = .error .terminate := by
  decide

end OneOne
end HttpCpp
