import HttpCpp.Protocol.OneOne

namespace HttpCpp

namespace OneZero

def httpVersion : Bytes := lit "HTTP/1.0"

/-- `http_protocol_one_zero::parse_request`: reports success and fills nothing in. -/
def parseRequest (_request : Bytes) (structuredRequest : HttpRequest) :
    Except Fault (ParsingStatus × HttpRequest) :=
  .ok (.success, structuredRequest)

end OneZero

/-- The concrete classes behind `http_protocol_handler`. -/
inductive Handler where
  | oneOne
  | oneZero
  deriving DecidableEq, Repr

namespace Handler

def parseRequest (bld : Build) (request : Bytes) (structuredRequest : HttpRequest) :
    Handler → Except Fault (ParsingStatus × HttpRequest)
  | .oneOne => OneOne.parseRequest bld request structuredRequest
  | .oneZero => OneZero.parseRequest request structuredRequest

/-- `http_protocol_handler::get_handler`; which instance of the class the cache holds does
not matter to its caller. -/
def getHandler (httpVersion : Bytes) : Option Handler :=
  if httpVersion = OneOne.httpVersion then some .oneOne
  else if httpVersion = OneZero.httpVersion then some .oneZero
  else none

/-- `http_protocol_handler::extract_http_version`, with iterators as offsets into the line.
`first_space_it + 1` has no meaning when there is no space. -/
def extractHttpVersion (request : Bytes) : Except Fault Bytes :=
  let line := (StringStream.ofString request).getline.1.getD []
  if line.isEmpty then .ok []
  else
    let line := popBack CR line
    let firstSpaceIt := line.findIdx (· = SP)
    if line.length < firstSpaceIt + 1 then .error .pastTheEnd
    else
      let secondSpaceIt := firstSpaceIt + 1 + (line.drop (firstSpaceIt + 1)).findIdx (· = SP)
      if secondSpaceIt ≠ line.length then .ok (line.drop (secondSpaceIt + 1)) else .ok []

/-- The first line of a request without the CR at its end. -/
def versionLine (request : Bytes) : Bytes := popBack CR (OneOne.requestLineOf request)

/-- What stands after the second space of a line. -/
def versionToken (line : Bytes) : Bytes := (onward SP (onward SP line).tail).tail

theorem versionToken_cut (a b version : Bytes) (ha : SP ∉ a) (hb : SP ∉ b) :
    versionToken (a ++ SP :: (b ++ SP :: version)) = version := by
  simp [versionToken, onward_cut SP a _ ha, onward_cut SP b _ hb]

/-- A line with a version has two spaces before it. -/
theorem versionToken_cases (line : Bytes) (h : versionToken line ≠ []) :
    ∃ a b, line = a ++ SP :: (b ++ SP :: versionToken line) ∧ SP ∉ a ∧ SP ∉ b := by
  rcases cut_cases SP line with hline | ⟨a, rest, rfl, ha⟩
  · exact absurd (by simp [versionToken, onward_uncut SP line hline, onward_uncut SP []]) h
  · rcases cut_cases SP rest with hrest | ⟨b, version, rfl, hb⟩
    · exact absurd (by simp [versionToken, onward_cut SP a rest ha, onward_uncut SP rest hrest]) h
    · rw [versionToken_cut a b version ha hb]
      exact ⟨a, b, rfl, ha, hb⟩

/-- The two searches for a space, in terms of where the line is cut. -/
private theorem search_spaces (line : Bytes) :
    (let firstSpaceIt := line.findIdx (· = SP)
      if line.length < firstSpaceIt + 1 then .error .pastTheEnd
      else
        let secondSpaceIt := firstSpaceIt + 1 + (line.drop (firstSpaceIt + 1)).findIdx (· = SP)
        if secondSpaceIt ≠ line.length then .ok (line.drop (secondSpaceIt + 1)) else .ok [] :
      Except Fault Bytes) =
    if SP ∈ line then .ok (versionToken line) else .error .pastTheEnd := by
  rcases cut_cases SP line with hline | ⟨a, b, rfl, ha⟩
  · have hpast : line.length < line.length + 1 := by omega
    simp only [findIdx_uncut SP line hline, hpast, if_true, hline, if_false]
  · have hin : ¬(a ++ SP :: b).length < a.length + 1 := by
      simp only [List.length_append, List.length_cons]
      omega
    have hdrop : (a ++ SP :: b).drop (a.length + 1) = b := by
      rw [← List.drop_drop, List.drop_left]
      rfl
    have hspace : SP ∈ a ++ SP :: b := by simp
    simp only [findIdx_cut SP a b ha, hin, if_false, hdrop, hspace, if_true]
    rcases cut_cases SP b with hb | ⟨c, version, rfl, hc⟩
    · have hend : a.length + 1 + b.length = (a ++ SP :: b).length := by
        simp only [List.length_append, List.length_cons]
        omega
      simp [findIdx_uncut SP b hb, hend, versionToken, onward_cut SP a b ha, onward_uncut SP b hb]
    · have hsecond : a.length + 1 + c.length ≠ (a ++ SP :: (c ++ SP :: version)).length := by
        simp only [List.length_append, List.length_cons]
        omega
      have hrest : (a ++ SP :: (c ++ SP :: version)).drop (a.length + 1 + c.length + 1) =
          version := by
        rw [Nat.add_assoc, ← List.drop_drop, hdrop, ← List.drop_drop, List.drop_left]
        rfl
      rw [versionToken_cut a c version ha hc, findIdx_cut SP c version hc, if_pos hsecond, hrest]

/-- What the first `getline` leaves in an empty string. -/
theorem getline_line (request : Bytes) :
    (StringStream.ofString request).getline.1.getD [] = OneOne.requestLineOf request := by
  rcases cut_cases LF request with hl | ⟨a, b, rfl, ha⟩
  · by_cases hne : request = []
    · subst hne
      rfl
    · rw [StringStream.ofString, StringStream.getline_uncut 0 request hl hne,
        OneOne.requestLineOf, before_uncut LF request hl]
      rfl
  · rw [StringStream.ofString, StringStream.getline_cut 0 a b ha, OneOne.requestLineOf_cut a b ha]
    rfl

/-- The version of a request in terms of its first line. -/
theorem extractHttpVersion_eq (request : Bytes) :
    extractHttpVersion request =
      if OneOne.requestLineOf request = [] then .ok []
      else if SP ∈ versionLine request then .ok (versionToken (versionLine request))
      else .error .pastTheEnd := by
  have hsearch := search_spaces (versionLine request)
  simp only [extractHttpVersion, getline_line, List.isEmpty_iff]
  by_cases hempty : OneOne.requestLineOf request = []
  · rw [if_pos hempty, if_pos hempty]
  · rw [if_neg hempty, if_neg hempty]
    exact hsearch

/-- A first line with two spaces gives what stands after the second. -/
theorem extractHttpVersion_line (a b version rest : Bytes) (ha : SP ∉ a) (hb : SP ∉ b)
    (hlf : LF ∉ a ++ SP :: (b ++ SP :: version) ++ [CR]) :
    extractHttpVersion (a ++ SP :: (b ++ SP :: version) ++ [CR] ++ LF :: rest) = .ok version := by
  have hfirst := OneOne.requestLineOf_cut _ rest hlf
  have hline : versionLine (a ++ SP :: (b ++ SP :: version) ++ [CR] ++ LF :: rest) =
      a ++ SP :: (b ++ SP :: version) := by
    rw [versionLine, hfirst, popBack_append_self]
  have hempty : a ++ SP :: (b ++ SP :: version) ++ [CR] ≠ [] := by simp
  have hspace : SP ∈ a ++ SP :: (b ++ SP :: version) := by simp
  rw [extractHttpVersion_eq, hfirst, if_neg hempty, hline, if_pos hspace,
    versionToken_cut a b version ha hb]

/-- An iterator of a line that is formed or a range that is gone over, by offsets. -/
inductive LineAccess where
  | iterator (position : Nat)
  | range (first last : Nat)
  deriving DecidableEq

/-- From the begin to the end of a line, a range not backwards. -/
def LineAccess.Within (length : Nat) : LineAccess → Prop
  | .iterator position => position ≤ length
  | .range first last => first ≤ last ∧ last ≤ length

instance (length : Nat) (a : LineAccess) : Decidable (a.Within length) := by
  cases a with
  | iterator position => exact inferInstanceAs (Decidable (position ≤ length))
  | range first last => exact inferInstanceAs (Decidable (first ≤ last ∧ last ≤ length))

/-- The two searches of `extract_http_version` and the copy after them, with their iterators and
ranges up to the first operation that has no meaning. -/
def searchTrace (line : Bytes) : List LineAccess × Except Fault Bytes :=
  let firstSpaceIt := line.findIdx (· = SP)
  let accesses := [.range 0 line.length, .iterator firstSpaceIt, .iterator (firstSpaceIt + 1)]
  if line.length < firstSpaceIt + 1 then (accesses, .error .pastTheEnd)
  else
    let secondSpaceIt := firstSpaceIt + 1 + (line.drop (firstSpaceIt + 1)).findIdx (· = SP)
    let accesses := accesses ++
      [.range (firstSpaceIt + 1) line.length, .iterator secondSpaceIt]
    if secondSpaceIt ≠ line.length then
      (accesses ++ [.iterator (secondSpaceIt + 1), .range (secondSpaceIt + 1) line.length],
        .ok (line.drop (secondSpaceIt + 1)))
    else (accesses, .ok [])

def extractHttpVersionTrace (request : Bytes) : List LineAccess × Except Fault Bytes :=
  let line := (StringStream.ofString request).getline.1.getD []
  if line.isEmpty then ([], .ok []) else searchTrace (popBack CR line)

/-- The trace is that of the function. -/
theorem extractHttpVersionTrace_result (request : Bytes) :
    (extractHttpVersionTrace request).2 = extractHttpVersion request := by
  simp only [extractHttpVersionTrace, searchTrace, extractHttpVersion]
  split_ifs <;> rfl

theorem searchTrace_within_iff (line : Bytes) :
    (∀ a ∈ (searchTrace line).1, a.Within line.length) ↔ SP ∈ line := by
  by_cases hspace : SP ∈ line
  · have hfirst : line.findIdx (· = SP) < line.length := by
      apply List.findIdx_lt_length_of_exists
      exact ⟨SP, hspace, decide_eq_true rfl⟩
    have hsecond : (line.drop (line.findIdx (· = SP) + 1)).findIdx (· = SP) ≤
        line.length - (line.findIdx (· = SP) + 1) := by
      rw [← List.length_drop]
      exact List.findIdx_le_length
    have hin : ¬line.length < line.findIdx (· = SP) + 1 := by omega
    refine iff_of_true ?_ hspace
    simp only [searchTrace, if_neg hin]
    split_ifs with hmore
    all_goals
      simp only [List.forall_mem_append, List.forall_mem_cons, LineAccess.Within,
        List.not_mem_nil, false_implies, implies_true, and_true]
      omega
  · have hpast : line.length < line.findIdx (· = SP) + 1 := by
      rw [findIdx_uncut SP line hspace]
      omega
    refine iff_of_false ?_ hspace
    intro h
    have hstep : line.findIdx (· = SP) + 1 ≤ line.length := by
      apply h (.iterator (line.findIdx (· = SP) + 1))
      simp only [searchTrace, if_pos hpast]
      simp
    omega

/-- The extraction stays in the first line exactly when the line is empty or has a space to step
over. -/
theorem extractHttpVersion_within_iff (request : Bytes) :
    (∀ a ∈ (extractHttpVersionTrace request).1, a.Within (versionLine request).length) ↔
      OneOne.requestLineOf request = [] ∨ SP ∈ versionLine request := by
  simp only [extractHttpVersionTrace, getline_line, List.isEmpty_iff]
  by_cases hempty : OneOne.requestLineOf request = []
  · simp [hempty]
  · rw [if_neg hempty, or_iff_right hempty]
    exact searchTrace_within_iff (versionLine request)

/-- Without a space in the first line the second search would start one past its end, the line of
one carriage return included. -/
theorem extractHttpVersion_strays :
    (¬∀ a ∈ (extractHttpVersionTrace (lit "GET\r\n\r\n")).1,
        a.Within (versionLine (lit "GET\r\n\r\n")).length) ∧
      ¬∀ a ∈ (extractHttpVersionTrace (lit "\r\n")).1,
        a.Within (versionLine (lit "\r\n")).length := by
  decide

end Handler

end HttpCpp
