import HttpCpp.Framework.Bytes

namespace HttpCpp

/-- `std::istringstream`: the read position, the unread bytes and the state bits. -/
structure StringStream where
  pos : Nat
  unread : Bytes
  eofbit : Bool
  failbit : Bool
  deriving DecidableEq, Repr

namespace StringStream

def ofString (s : Bytes) : StringStream := ⟨0, s, false, false⟩

def good (input : StringStream) : Bool := !input.eofbit && !input.failbit

/-- `std::getline`. The result is `none` when the stream converts to false afterwards.
The end of input sets `eofbit`; `failbit` is set only when no byte was extracted. -/
def getline (input : StringStream) : Option Bytes × StringStream :=
  if input.good then
    let line := before LF input.unread
    match onward LF input.unread with
    | [] =>
      let input' : StringStream := ⟨input.pos + line.length, [], true, line.isEmpty⟩
      (if line.isEmpty then none else some line, input')
    | _ :: unread => (some line, ⟨input.pos + line.length + 1, unread, false, false⟩)
  else (none, { input with failbit := true })

/-- `tellg`; `none` is `pos_type(-1)`. A stream at its end fails in the sentry. -/
def tellg (input : StringStream) : Option Nat := if input.good then some input.pos else none

/-- `input.tellg() < size` in `size_t`: `-1` converts to the largest value. -/
def tellgBelow (input : StringStream) (size : Nat) : Bool :=
  match input.tellg with
  | none => false
  | some p => p < size

/-- `for (std::string line; std::getline(input, line) && !line.empty();) body`,
with the loop's state passed through `body`. -/
def forLines {σ ε : Type*} (body : σ → Bytes → Except ε σ) :
    Nat → StringStream → σ → Except ε (σ × StringStream)
  | 0, input, s => .ok (s, input)
  | fuel + 1, input, s =>
    match input.getline with
    | (none, input') => .ok (s, input')
    | (some line, input') =>
      if line.isEmpty then .ok (s, input')
      else
        match body s line with
        | .error e => .error e
        | .ok s' => forLines body fuel input' s'

/-- `if (input.tellg() < whole.size()) whole.substr(input.tellg())`, otherwise empty. -/
def remainder (whole : Bytes) (input : StringStream) : Bytes :=
  if input.tellgBelow whole.length then whole.drop (input.tellg.getD 0) else []

theorem getline_cut (pos : Nat) (a b : Bytes) (ha : LF ∉ a) :
    getline ⟨pos, a ++ LF :: b, false, false⟩ =
      (some a, ⟨pos + a.length + 1, b, false, false⟩) := by
  simp [getline, good, before_cut LF a b ha, onward_cut LF a b ha]

theorem getline_uncut (pos : Nat) (a : Bytes) (ha : LF ∉ a) (hne : a ≠ []) :
    getline ⟨pos, a, false, false⟩ = (some a, ⟨pos + a.length, [], true, false⟩) := by
  simp [getline, good, before_uncut LF a ha, onward_uncut LF a ha, hne]

theorem getline_nil (pos : Nat) :
    getline ⟨pos, [], false, false⟩ = (none, ⟨pos, [], true, true⟩) := by
  simp [getline, good, before, onward]

theorem getline_spent (pos : Nat) (fail : Bool) :
    getline ⟨pos, [], true, fail⟩ = (none, ⟨pos, [], true, true⟩) := by
  simp [getline, good]

/-- The lines a stream holds before its first empty one. -/
def lineBlock (unread : Bytes) : List Bytes := (unread.splitOn LF).takeWhile (· ≠ [])

/-- What follows the first empty line; empty when there is none. -/
def afterBlock (unread : Bytes) : Bytes :=
  [LF].intercalate ((unread.splitOn LF).dropWhile (· ≠ [])).tail

theorem lineBlock_cons (a b : Bytes) (ha : LF ∉ a) (hne : a ≠ []) :
    lineBlock (a ++ LF :: b) = a :: lineBlock b := by
  simp [lineBlock, List.splitOn_append_cons_self_of_not_mem ha, hne]

theorem lineBlock_empty (b : Bytes) : lineBlock (LF :: b) = [] := by
  have h := List.splitOn_append_cons_self_of_not_mem (List.not_mem_nil (a := LF)) b
  simp only [List.nil_append] at h
  simp [lineBlock, h]

theorem lineBlock_uncut (a : Bytes) (ha : LF ∉ a) (hne : a ≠ []) : lineBlock a = [a] := by
  simp [lineBlock, List.splitOn_eq_singleton ha, hne]

theorem lineBlock_nil : lineBlock [] = [] := by
  simp [lineBlock, List.splitOn_eq_singleton]

theorem afterBlock_cons (a b : Bytes) (ha : LF ∉ a) (hne : a ≠ []) :
    afterBlock (a ++ LF :: b) = afterBlock b := by
  simp [afterBlock, List.splitOn_append_cons_self_of_not_mem ha, hne]

theorem afterBlock_empty (b : Bytes) : afterBlock (LF :: b) = b := by
  have h := List.splitOn_append_cons_self_of_not_mem (List.not_mem_nil (a := LF)) b
  simp only [List.nil_append] at h
  simp [afterBlock, h]

theorem afterBlock_uncut (a : Bytes) (ha : LF ∉ a) : afterBlock a = [] := by
  by_cases hne : a = [] <;> simp [afterBlock, List.splitOn_eq_singleton ha, hne]

/-- Lines written one after the other, each ended by a line feed. -/
def writeLines (lines : List Bytes) : Bytes := lines.flatMap (· ++ [LF])

theorem writeLines_cons (line : Bytes) (lines : List Bytes) (rest : Bytes) :
    writeLines (line :: lines) ++ rest = line ++ LF :: (writeLines lines ++ rest) := by
  simp [writeLines]

theorem lineBlock_writeLines (lines : List Bytes) (rest : Bytes)
    (h : ∀ line ∈ lines, line ≠ [] ∧ LF ∉ line) :
    lineBlock (writeLines lines ++ rest) = lines ++ lineBlock rest := by
  induction lines with
  | nil => rfl
  | cons line lines ih =>
    obtain ⟨⟨hne, hlf⟩, htail⟩ := List.forall_mem_cons.mp h
    rw [writeLines_cons, lineBlock_cons line _ hlf hne, ih htail, List.cons_append]

theorem afterBlock_writeLines (lines : List Bytes) (rest : Bytes)
    (h : ∀ line ∈ lines, line ≠ [] ∧ LF ∉ line) :
    afterBlock (writeLines lines ++ rest) = afterBlock rest := by
  induction lines with
  | nil => rfl
  | cons line lines ih =>
    obtain ⟨⟨hne, hlf⟩, htail⟩ := List.forall_mem_cons.mp h
    rw [writeLines_cons, afterBlock_cons line _ hlf hne, ih htail]

theorem lineBlock_mem (unread line : Bytes) (h : line ∈ lineBlock unread) :
    line ≠ [] ∧ LF ∉ line := by
  induction hn : unread.length using Nat.strong_induction_on generalizing unread with
  | _ n ih =>
    rcases cut_cases LF unread with hl | ⟨a, b, rfl, ha⟩
    · by_cases hne : unread = []
      · subst hne
        simp [lineBlock_nil] at h
      · rw [lineBlock_uncut unread hl hne, List.mem_singleton] at h
        subst h
        exact ⟨hne, hl⟩
    · by_cases hne : a = []
      · subst hne
        simp [lineBlock_empty] at h
      · rw [lineBlock_cons a b ha hne] at h
        rcases List.mem_cons.mp h with rfl | h
        · exact ⟨hne, ha⟩
        · simp only [List.length_append, List.length_cons] at hn
          exact ih b.length (by omega) b h rfl

/-- The body after the first empty line is never longer than the input. -/
theorem afterBlock_length (unread : Bytes) (hne : unread ≠ []) :
    (afterBlock unread).length < unread.length := by
  induction hn : unread.length using Nat.strong_induction_on generalizing unread with
  | _ n ih =>
    have hpos : 0 < unread.length := List.length_pos_of_ne_nil hne
    rcases cut_cases LF unread with hl | ⟨a, b, rfl, ha⟩
    · simp only [afterBlock_uncut unread hl, List.length_nil]
      omega
    · have hlen : (a ++ LF :: b).length = a.length + b.length + 1 := by simp; omega
      by_cases ha0 : a = []
      · subst ha0
        simp only [List.nil_append, afterBlock_empty] at hlen hn ⊢
        simp only [List.length_nil] at hlen
        omega
      · rw [afterBlock_cons a b ha ha0]
        by_cases hb : b = []
        · subst hb
          simp only [afterBlock_uncut [] (by simp), List.length_nil]
          omega
        · have h := ih b.length (by omega) b hb rfl
          omega

theorem remainder_spent (whole : Bytes) (pos : Nat) (fail : Bool) :
    remainder whole ⟨pos, [], true, fail⟩ = [] := by
  simp [remainder, tellgBelow, tellg, good]

theorem remainder_good (a b : Bytes) :
    remainder (a ++ b) ⟨a.length, b, false, false⟩ = b := by
  by_cases hb : b = [] <;> simp [remainder, tellgBelow, tellg, good, hb, List.length_pos_iff]

/-- The getline loop is a fold over the line block, and leaves the stream where the rest
of the input is what follows the first empty line. The induction is on the fuel; every
line read shortens the unread input. -/
theorem forLines_eq {σ ε : Type*} (body : σ → Bytes → Except ε σ) (fuel : Nat)
    (consumed unread : Bytes) (s : σ) (hf : unread.length < fuel) :
    (forLines body fuel ⟨consumed.length, unread, false, false⟩ s).map
        (fun r => (r.1, remainder (consumed ++ unread) r.2)) =
      ((lineBlock unread).foldlM body s).map (fun s' => (s', afterBlock unread)) := by
  induction fuel generalizing consumed unread s with
  | zero => omega
  | succ fuel ih =>
    rcases cut_cases LF unread with hl | ⟨a, b, rfl, ha⟩
    · by_cases hne : unread = []
      · subst hne
        simp [forLines, getline_nil, lineBlock_nil, afterBlock_uncut, remainder_spent, Except.map,
          pure, Except.pure]
      · obtain ⟨fuel, rfl⟩ : ∃ n, fuel = n + 1 := by
          have hpos := List.length_pos_of_ne_nil hne
          exact ⟨fuel - 1, by omega⟩
        rw [forLines, getline_uncut _ _ hl hne, lineBlock_uncut _ hl hne, afterBlock_uncut _ hl]
        simp only [List.isEmpty_iff, hne, if_false, List.foldlM_cons, List.foldlM_nil]
        cases hbody : body s unread with
        | error e => simp [Except.map, bind, Except.bind]
        | ok s' =>
          simp [forLines, getline_spent, remainder_spent, Except.map, bind, Except.bind,
            pure, Except.pure]
    · have hstep : consumed ++ (a ++ LF :: b) = (consumed ++ (a ++ [LF])) ++ b := by simp
      have hpos : consumed.length + a.length + 1 = (consumed ++ (a ++ [LF])).length := by
        simp; omega
      rw [forLines, getline_cut _ _ _ ha]
      by_cases hne : a = []
      · subst hne
        have hrest := remainder_good (consumed ++ ([] ++ [LF])) b
        simp only [List.length_nil] at hpos
        simp only [List.nil_append] at hstep hpos hrest
        simp only [List.isEmpty_nil, if_true, List.nil_append, lineBlock_empty, afterBlock_empty,
          List.foldlM_nil, Except.map, pure, Except.pure, List.length_nil]
        rw [hstep, hpos, hrest]
      · rw [lineBlock_cons _ _ ha hne, afterBlock_cons _ _ ha hne]
        simp only [List.isEmpty_iff, hne, if_false, List.foldlM_cons]
        cases hbody : body s a with
        | error e => simp [Except.map, bind, Except.bind]
        | ok s' =>
          have hlen : b.length < fuel := by
            simp only [List.length_append, List.length_cons] at hf
            omega
          have h := ih (consumed ++ (a ++ [LF])) b s' hlen
          rw [← hstep, ← hpos] at h
          simpa [bind, Except.bind] using h

/-- A fold that a bad element stops, and nothing else, ends normally when none is bad. -/
theorem foldlM_ok_iff {σ α ε : Type*} (f : σ → α → Except ε σ) (bad : α → Prop) (l : List α)
    (s : σ) (h : ∀ s, ∀ a ∈ l, (∃ s', f s a = .ok s') ↔ ¬bad a) :
    (∃ s', l.foldlM f s = .ok s') ↔ ∀ a ∈ l, ¬bad a := by
  induction l generalizing s with
  | nil => simp [pure, Except.pure]
  | cons a l ih =>
    have hl : ∀ s, ∀ x ∈ l, (∃ s', f s x = .ok s') ↔ ¬bad x :=
      fun s x hx => h s x (List.mem_cons_of_mem a hx)
    have ha := h s a (by simp)
    simp only [List.foldlM_cons, List.forall_mem_cons]
    cases hf : f s a with
    | error e =>
      have hbad : bad a := by
        by_contra hn
        obtain ⟨s', hs⟩ := ha.mpr hn
        simp [hf] at hs
      simp [bind, Except.bind, hbad]
    | ok s' =>
      have hgood : ¬bad a := ha.mp ⟨s', hf⟩
      simpa [bind, Except.bind, hgood] using ih s' hl

end StringStream

end HttpCpp
