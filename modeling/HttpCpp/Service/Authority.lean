import HttpCpp.Service.Host

namespace HttpCpp
namespace HttpService

open Regex

def isNameByte (c : Byte) : Bool := c ≠ slash && c ≠ colon

/-- The digits of a port and what follows them; a colon without a digit is no port. -/
def splitPort : Bytes → Bytes × Bytes
  | [] => ([], [])
  | c :: s =>
    if c = colon ∧ s.takeWhile isDigit ≠ [] then (s.takeWhile isDigit, s.dropWhile isDigit)
    else ([], c :: s)

/-- What `host [":" port]` takes off the beginning of a text, and what it leaves. -/
structure Authority where
  name : Bytes
  digits : Bytes
  tail : Bytes
  deriving DecidableEq

def authority (s : Bytes) : Authority where
  name := s.takeWhile isNameByte
  digits := (splitPort (s.dropWhile isNameByte)).1
  tail := (splitPort (s.dropWhile isNameByte)).2

def Authority.host (a : Authority) : Host := ⟨a.name, readPort a.digits⟩

/-- The digits with their colon. -/
def portText (digits : Bytes) : Bytes := if digits = [] then [] else colon :: digits

def portCaptures (digits : Bytes) : Captures Byte :=
  if digits = [] then [] else [(2, colon :: digits), (3, digits)]

/-- What can follow a host in a URI. -/
def PathStart (tail : Bytes) : Prop := tail = [] ∨ tail.head? = some slash

/-- No line terminator follows the first question mark. -/
def PlainQuery (s : Bytes) : Prop := LF ∉ onward question s ∧ CR ∉ onward question s

instance (s : Bytes) : Decidable (PlainQuery s) := inferInstanceAs (Decidable (_ ∧ _))

/-- There is a port to read, or nothing is taken. -/
theorem splitPort_cases (s : Bytes) :
    (∃ t, s = colon :: t ∧ t.takeWhile isDigit ≠ [] ∧
      splitPort s = (t.takeWhile isDigit, t.dropWhile isDigit)) ∨
    (∀ t, s = colon :: t → t.takeWhile isDigit = []) ∧ splitPort s = ([], s) := by
  cases s with
  | nil => exact Or.inr ⟨by simp, rfl⟩
  | cons c s =>
    by_cases h : c = colon ∧ s.takeWhile isDigit ≠ []
    · obtain ⟨rfl, hdigits⟩ := h
      exact Or.inl ⟨s, rfl, hdigits, if_pos ⟨rfl, hdigits⟩⟩
    · refine Or.inr ⟨?_, if_neg h⟩
      intro t ht
      obtain ⟨rfl, rfl⟩ := List.cons.inj ht
      by_contra hdigits
      exact h ⟨rfl, hdigits⟩

theorem splitPort_text (s : Bytes) : portText (splitPort s).1 ++ (splitPort s).2 = s := by
  rcases splitPort_cases s with ⟨t, rfl, hdigits, hsplit⟩ | ⟨-, hsplit⟩
  · rw [hsplit, portText, if_neg hdigits, List.cons_append, List.takeWhile_append_dropWhile]
  · rw [hsplit]
    rfl

theorem splitPort_digits (s : Bytes) : ∀ c ∈ (splitPort s).1, isDigit c := by
  rcases splitPort_cases s with ⟨t, rfl, -, hsplit⟩ | ⟨-, hsplit⟩
  · rw [hsplit]
    intro c hc
    exact List.mem_takeWhile_imp hc
  · rw [hsplit]
    simp

/-- An authority is put together from its parts. -/
theorem authority_text (s : Bytes) :
    (authority s).name ++ portText (authority s).digits ++ (authority s).tail = s := by
  rw [List.append_assoc, authority, splitPort_text]
  exact List.takeWhile_append_dropWhile

theorem pathStart_stops (p : Byte → Bool) (hp : p slash = false) (tail : Bytes)
    (h : PathStart tail) : ∀ x ∈ tail.head?, ¬p x := by
  intro x hx
  rcases h with rfl | hslash
  · simp at hx
  · obtain rfl := Option.some.inj (hx.symm.trans hslash)
    simp [hp]

/-- Parts put together are read as they were. -/
theorem authority_parts (name digits tail : Bytes) (hname : slash ∉ name ∧ colon ∉ name)
    (hdigits : ∀ c ∈ digits, isDigit c) (htail : PathStart tail) :
    authority (name ++ portText digits ++ tail) = ⟨name, digits, tail⟩ := by
  have hclass : ∀ x ∈ name, isNameByte x := by
    intro x hx
    have hs : x ≠ slash := fun h => hname.1 (h ▸ hx)
    have hc : x ≠ colon := fun h => hname.2 (h ▸ hx)
    simp [isNameByte, hs, hc]
  have hstop : ∀ x ∈ (portText digits ++ tail).head?, ¬isNameByte x := by
    rw [portText]
    split_ifs with hnone
    · exact pathStart_stops isNameByte rfl tail htail
    · intro x hx
      obtain rfl := Option.some.inj hx
      decide
  have hport : splitPort (portText digits ++ tail) = (digits, tail) := by
    rw [portText]
    split_ifs with hnone
    · rcases splitPort_cases tail with ⟨t, rfl, -, -⟩ | ⟨-, hsplit⟩
      · rcases htail with hempty | hslash
        · simp at hempty
        · exact absurd (Option.some.inj hslash) (by decide)
      · rw [hnone]
        exact hsplit
    · obtain ⟨htake, hdrop⟩ :=
        run_cut isDigit digits tail hdigits (pathStart_stops isDigit rfl tail htail)
      rw [List.cons_append, splitPort, htake, hdrop, if_pos ⟨rfl, hnone⟩]
  rw [List.append_assoc]
  obtain ⟨htake, hdrop⟩ := run_cut isNameByte name (portText digits ++ tail) hclass hstop
  rw [authority, htake, hdrop, hport]

/-- A path behind an authority is left with its tail. -/
theorem authority_path (a p : Bytes) (hp : p.head? = some slash) :
    authority (a ++ p) = { authority a with tail := (authority a).tail ++ p } := by
  have hstart : PathStart p := Or.inr hp
  obtain ⟨htake, hdrop⟩ := run_append isNameByte a p (pathStart_stops isNameByte rfl p hstart)
  have hport : ∀ s, splitPort (s ++ p) = ((splitPort s).1, (splitPort s).2 ++ p) := by
    intro s
    cases s with
    | nil =>
      obtain ⟨rest, rfl⟩ := List.head?_eq_some_iff.mp hp
      have hne : slash ≠ colon := by decide
      simp [splitPort, hne]
    | cons c s =>
      obtain ⟨hdigits, hrest⟩ := run_append isDigit s p (pathStart_stops isDigit rfl p hstart)
      rw [List.cons_append, splitPort, splitPort, hdigits, hrest]
      split_ifs <;> rfl
  rw [authority, htake, hdrop, hport]
  rfl

theorem first_name (s : Bytes) (h : (authority s).name ≠ []) :
    First (.group 1 nameRegex) s [(1, (authority s).name)] (s.dropWhile isNameByte) := by
  have hsplit : (authority s).name ++ s.dropWhile isNameByte = s :=
    List.takeWhile_append_dropWhile
  have hname : First (.group 1 nameRegex) ((authority s).name ++ s.dropWhile isNameByte)
      [(1, (authority s).name)] (s.dropWhile isNameByte) := by
    apply first_group
    apply first_plus isNameByte _ _ h
    · intro x hx
      exact List.mem_takeWhile_imp hx
    · intro x hx
      have hstop := List.head?_dropWhile_not isNameByte s
      rw [hx] at hstop
      simpa using hstop
  rwa [hsplit] at hname

theorem first_port (s : Bytes) :
    First (.opt (portRegex 2)) s (portCaptures (splitPort s).1) (splitPort s).2 := by
  rcases splitPort_cases s with ⟨t, rfl, hdigits, hsplit⟩ | ⟨hnone, hsplit⟩
  · have hgroup : First (.group 3 (.plus isDigit)) (t.takeWhile isDigit ++ t.dropWhile isDigit)
        [(3, t.takeWhile isDigit)] (t.dropWhile isDigit) := by
      apply first_group
      apply first_plus _ _ _ hdigits
      · intro x hx
        exact List.mem_takeWhile_imp hx
      · intro x hx
        have hstop := List.head?_dropWhile_not isDigit t
        rw [hx] at hstop
        simpa using hstop
    have hport : First (portRegex 2) (colon :: t.takeWhile isDigit ++ t.dropWhile isDigit)
        [(2, colon :: t.takeWhile isDigit), (3, t.takeWhile isDigit)] (t.dropWhile isDigit) := by
      apply first_group
      exact first_seq _ _ _ _ _ [] _ (first_literal (lit ":") _) hgroup
    rw [List.cons_append, List.takeWhile_append_dropWhile] at hport
    rw [hsplit, portCaptures, if_neg hdigits]
    exact first_opt _ _ _ _ hport
  · rw [hsplit]
    apply first_skip
    intro c t hrun
    obtain ⟨c', g, hseq, -, -⟩ := (mem_run_group _ _ _ _ _).mp hrun
    obtain ⟨c₁, u, c₂, hlit, hgroup, -⟩ := (mem_run_seq _ _ _ _ _).mp hseq
    obtain ⟨-, hcolon⟩ := (mem_run_literal _ _ _ _).mp hlit
    obtain ⟨c₃, g', hplus, -, -⟩ := (mem_run_group _ _ _ _ _).mp hgroup
    exact (run_plus_leaves _ _ _ _ hplus).1 (hnone u hcolon)

/-- Whatever backtracking gives up, the tail stays. -/
theorem host_leaves (s u t : Bytes) (c d : Captures Byte)
    (hname : (c, u) ∈ (Regex.group 1 nameRegex).run s)
    (hport : (d, t) ∈ (Regex.opt (portRegex 2)).run u) :
    (authority s).name ≠ [] ∧ ∃ r, t = r ++ (authority s).tail := by
  obtain ⟨c', g, hplus, -, -⟩ := (mem_run_group _ _ _ _ _).mp hname
  obtain ⟨hne, r, hr⟩ := run_plus_leaves _ _ _ _ hplus
  refine ⟨hne, ?_⟩
  have hrest : s.dropWhile isNameByte = u.dropWhile isNameByte := by
    obtain ⟨-, a, -, ha, rfl⟩ := (mem_run_plus _ _ _ _).mp hplus
    exact List.dropWhile_append_of_pos ha
  rcases (mem_run_opt _ _ _ _).mp hport with hrun | ⟨-, rfl⟩
  · obtain ⟨d', g', hseq, -, -⟩ := (mem_run_group _ _ _ _ _).mp hrun
    obtain ⟨d₁, v, d₂, hlit, hgroup, -⟩ := (mem_run_seq _ _ _ _ _).mp hseq
    obtain ⟨-, hcolon⟩ := (mem_run_literal _ _ _ _).mp hlit
    obtain rfl : u = colon :: v := hcolon
    obtain ⟨d₃, g₃, hdigits, -, -⟩ := (mem_run_group _ _ _ _ _).mp hgroup
    obtain ⟨hne', r', hr'⟩ := run_plus_leaves _ _ _ _ hdigits
    refine ⟨r', ?_⟩
    have hstop : (colon :: v).dropWhile isNameByte = colon :: v := by simp [isNameByte]
    rw [authority, hrest, hstop, splitPort, if_pos ⟨rfl, hne'⟩]
    exact hr'
  · refine ⟨r ++ portText (authority s).digits, ?_⟩
    rw [List.append_assoc]
    exact hr.trans (congrArg (r ++ ·) (splitPort_text _).symm)

theorem plainQuery_of_plain (s : Bytes) (h : LF ∉ s ∧ CR ∉ s) : PlainQuery s := by
  have hsub := (List.dropWhile_sublist (l := s) fun c => decide (c ≠ question)).subset
  exact ⟨fun hlf => h.1 (hsub hlf), fun hcr => h.2 (hsub hcr)⟩

/-- Less text before it hides no line terminator of a query. -/
theorem plainQuery_suffix (r s : Bytes) (h : PlainQuery (r ++ s)) : PlainQuery s := by
  rcases cut_cases question r with hr | ⟨a, b, rfl, ha⟩
  · have honward : onward question (r ++ s) = onward question s := by
      apply List.dropWhile_append_of_pos
      intro c hc
      have hne : c ≠ question := fun h => hr (h ▸ hc)
      simpa using hne
    rwa [PlainQuery, honward] at h
  · rw [List.append_assoc, List.cons_append, PlainQuery, onward_cut question a _ ha] at h
    apply plainQuery_of_plain
    exact ⟨fun hlf => h.1 (by simp [hlf]), fun hcr => h.2 (by simp [hcr])⟩

theorem first_path (path query : Bytes) (hpath : question ∉ path)
    (hquery : ∀ x ∈ query.head?, x = question) :
    First (.star (· ≠ question)) (path ++ query) [] query := by
  apply first_star
  · intro x hx
    have hne : x ≠ question := fun h => hpath (h ▸ hx)
    simpa using hne
  · intro x hx
    simp [hquery x hx]

theorem first_noQuery (n : Nat) : First (.opt (queryRegex n)) [] [] [] := by
  apply first_skip
  intro c t hrun
  obtain ⟨c', g, hseq, -, -⟩ := (mem_run_group _ _ _ _ _).mp hrun
  obtain ⟨c₁, u, c₂, hlit, -, -⟩ := (mem_run_seq _ _ _ _ _).mp hseq
  obtain ⟨-, hempty⟩ := (mem_run_literal _ _ _ _).mp hlit
  simp [lit] at hempty

theorem first_query (q : Bytes) (hlf : LF ∉ q) (hcr : CR ∉ q) (n : Nat) :
    First (.opt (queryRegex n)) (question :: q) [(n, question :: q), (n + 1, q)] [] := by
  have hdots : First (.group (n + 1) (.star isDot)) (q ++ []) [(n + 1, q)] [] := by
    apply first_group
    apply first_star
    · intro x hx
      have hxlf : x ≠ LF := fun h => hlf (h ▸ hx)
      have hxcr : x ≠ CR := fun h => hcr (h ▸ hx)
      simp [isDot, hxlf, hxcr]
    · simp
  have hquery : First (queryRegex n) (question :: q ++ []) [(n, question :: q), (n + 1, q)]
      [] := by
    apply first_group
    rw [List.append_nil] at hdots ⊢
    exact first_seq _ _ _ _ _ [] _ (first_literal (lit "?") q) hdots
  rw [List.append_nil] at hquery
  exact first_opt _ _ _ _ hquery

/-- A path is taken up to its first question mark, and the query is the rest. -/
theorem path_split (tail : Bytes) (htail : PlainQuery tail) :
    ∃ path query, tail = path ++ query ∧
      First (.star (· ≠ question)) (path ++ query) [] query ∧
      ∀ n, ∃ c, First (.opt (queryRegex n)) query c [] ∧ ∀ k < n, Assoc.find k c = none := by
  rcases cut_cases question tail with hquestion | ⟨path, q, rfl, hquestion⟩
  · refine ⟨tail, [], (List.append_nil _).symm, first_path tail [] hquestion (by simp), ?_⟩
    intro n
    exact ⟨[], first_noQuery n, fun k _ => rfl⟩
  · rw [PlainQuery, onward_cut question path q hquestion] at htail
    obtain ⟨hlf, hcr⟩ := htail
    refine ⟨path, question :: q, rfl, first_path path _ hquestion (by simp), ?_⟩
    intro n
    have hquery := first_query q (fun h => hlf (List.mem_cons_of_mem _ h))
      (fun h => hcr (List.mem_cons_of_mem _ h)) n
    refine ⟨_, hquery, ?_⟩
    intro k hk
    have hn : k ≠ n := by omega
    have hn' : k ≠ n + 1 := by omega
    simp [Assoc.find, hn, hn']

/-- A path and a query that together take everything hold no line terminator after the question
mark. -/
theorem query_plain (n m : Nat) (s u : Bytes) (c d : Captures Byte)
    (hpath : (c, u) ∈ (Regex.group n (.star fun x => decide (x ≠ question))).run s)
    (hquery : (d, []) ∈ (Regex.opt (queryRegex m)).run u) : PlainQuery s := by
  obtain ⟨c', g, hstar, -, -⟩ := (mem_run_group _ _ _ _ _).mp hpath
  obtain ⟨-, path, hclass, rfl⟩ := (mem_run_star _ _ _ _).mp hstar
  have hfree : question ∉ path := by
    intro hm
    simpa using hclass question hm
  rcases (mem_run_opt _ _ _ _).mp hquery with hrun | ⟨-, rfl⟩
  · obtain ⟨d', g', hseq, -, -⟩ := (mem_run_group _ _ _ _ _).mp hrun
    obtain ⟨d₁, v, d₂, hlit, hgroup, -⟩ := (mem_run_seq _ _ _ _ _).mp hseq
    obtain ⟨-, hquestion⟩ := (mem_run_literal _ _ _ _).mp hlit
    obtain rfl : u = question :: v := hquestion
    obtain ⟨d₃, g₃, hdots, -, -⟩ := (mem_run_group _ _ _ _ _).mp hgroup
    obtain ⟨-, q, hq, hv⟩ := (mem_run_star _ _ _ _).mp hdots
    rw [List.append_nil] at hv
    rw [PlainQuery, onward_cut question path v hfree]
    constructor
    · intro hlf
      rcases List.mem_cons.mp hlf with h | h
      · exact absurd h (by decide)
      · exact absurd (hq LF (hv ▸ h)) (by decide)
    · intro hcr
      rcases List.mem_cons.mp hcr with h | h
      · exact absurd h (by decide)
      · exact absurd (hq CR (hv ▸ h)) (by decide)
  · rw [List.append_nil, PlainQuery, onward_uncut question path hfree]
    exact ⟨List.not_mem_nil, List.not_mem_nil⟩

/-- The absolute path forms. -/
theorem absolutePath_iff (uri : Bytes) :
    AbsolutePath uri ↔ uri.head? = some slash ∧ PlainQuery uri := by
  constructor
  · intro h
    refine ⟨absolutePath_leading uri h, ?_⟩
    obtain ⟨c, hc⟩ := (regexMatch_isSome _ _).mp h
    obtain ⟨c₁, u, c₂, hgroup, hquery, -⟩ := (mem_run_seq _ _ _ _ _).mp hc
    obtain ⟨c', g, hseq, -, -⟩ := (mem_run_group _ _ _ _ _).mp hgroup
    obtain ⟨d₁, v, d₂, hlit, hpath, -⟩ := (mem_run_seq _ _ _ _ _).mp hseq
    obtain ⟨-, hslash⟩ := (mem_run_literal _ _ _ _).mp hlit
    obtain rfl : uri = slash :: v := hslash
    exact query_plain 2 3 v u d₂ c₂ hpath hquery
  · intro h
    obtain ⟨hslash, hplain⟩ := h
    obtain ⟨rest, rfl⟩ := List.head?_eq_some_iff.mp hslash
    obtain ⟨path, query, rfl, hpath, hquery⟩ :=
      path_split rest (plainQuery_suffix [slash] rest hplain)
    obtain ⟨c, hc, -⟩ := hquery 3
    have hslash : First (.seq (.literal (lit "/")) (.group 2 (.star (· ≠ question))))
        (slash :: path ++ query) [(2, path)] query :=
      first_seq _ _ _ _ _ [] _ (first_literal (lit "/") (path ++ query))
        (first_group 2 _ path query [] hpath)
    have hmatch := regexMatch_first absolutePathRegex (slash :: (path ++ query)) _
      (first_seq _ _ _ _ _ _ c (first_group 1 _ (slash :: path) query _ hslash) hc)
    rw [AbsolutePath, hmatch]
    rfl

/-- The groups of the port do not hide the others. -/
theorem port_get (name digits : Bytes) (c : Captures Byte) (h : Assoc.find 3 c = none) :
    Captures.get ((1, name) :: (portCaptures digits ++ c)) 1 = name ∧
      Captures.get ((1, name) :: (portCaptures digits ++ c)) 3 = digits := by
  rw [portCaptures]
  split_ifs with hdigits
  · simp [Captures.get, Assoc.find, h, hdigits]
  · simp [Captures.get, Assoc.find]

/-- The absolute URI form, and the host it gives. -/
theorem absoluteUri_authority (s : Bytes) :
    (absoluteUriRegex.regexMatch (lit "http://" ++ s)).map
        (fun captures => (⟨captures.get 1, readPort (captures.get 3)⟩ : Host)) =
      if (authority s).name ≠ [] ∧ PlainQuery (authority s).tail then some (authority s).host
      else none := by
  split_ifs with h
  · obtain ⟨hname, hplain⟩ := h
    obtain ⟨path, query, hsplit, hpath, hquery⟩ := path_split _ hplain
    obtain ⟨d, hd, hnone⟩ := hquery 5
    have hrest : First (.seq (.group 4 (.star (· ≠ question))) (.opt (queryRegex 5)))
        (authority s).tail ((4, path) :: d) [] := by
      rw [hsplit]
      exact first_seq _ _ _ _ _ [(4, path)] d (first_group 4 _ path query [] hpath) hd
    have hmatch : absoluteUriRegex.regexMatch (lit "http://" ++ s) =
        some ((1, (authority s).name) ::
          (portCaptures (authority s).digits ++ (4, path) :: d)) := by
      apply regexMatch_first
      apply first_seq _ _ _ _ _ [] _ (first_literal (lit "http://") s)
      apply first_seq _ _ _ _ _ [(1, (authority s).name)] _ (first_name s hname)
      exact first_seq _ _ _ _ _ _ _ (first_port _) hrest
    have hthree : Assoc.find 3 ((4, path) :: d) = none := by
      simp [Assoc.find, hnone 3 (by omega)]
    obtain ⟨hone, hport⟩ := port_get (authority s).name (authority s).digits _ hthree
    rw [hmatch, Option.map_some, hone, hport]
    rfl
  · rw [Option.map_eq_none_iff]
    by_contra hsome
    obtain ⟨c, hc⟩ := (regexMatch_isSome _ _).mp (Option.isSome_iff_ne_none.mpr hsome)
    obtain ⟨c₁, u₁, d₁, hlit, hrest₁, -⟩ := (mem_run_seq _ _ _ _ _).mp hc
    obtain ⟨-, hs⟩ := (mem_run_literal _ _ _ _).mp hlit
    obtain rfl : s = u₁ := List.append_cancel_left hs
    obtain ⟨c₂, u₂, d₂, hname, hrest₂, -⟩ := (mem_run_seq _ _ _ _ _).mp hrest₁
    obtain ⟨c₃, u₃, d₃, hport, hrest₃, -⟩ := (mem_run_seq _ _ _ _ _).mp hrest₂
    obtain ⟨c₄, u₄, d₄, hpath, hquery, -⟩ := (mem_run_seq _ _ _ _ _).mp hrest₃
    obtain ⟨hne, r, rfl⟩ := host_leaves _ _ _ _ _ hname hport
    exact h ⟨hne, plainQuery_suffix r _ (query_plain 4 5 _ u₄ c₄ d₄ hpath hquery)⟩

/-- The values of a `Host` header, and the host each gives. -/
theorem hostRegex_authority (s : Bytes) :
    (hostRegex.regexMatch s).map
        (fun captures => (⟨captures.get 1, readPort (captures.get 3)⟩ : Host)) =
      if (authority s).name ≠ [] ∧ (authority s).tail = [] then some (authority s).host
      else none := by
  split_ifs with h
  · obtain ⟨hname, htail⟩ := h
    have hport := first_port (s.dropWhile isNameByte)
    have hend : (splitPort (s.dropWhile isNameByte)).2 = [] := htail
    rw [hend] at hport
    have hmatch : hostRegex.regexMatch s =
        some ((1, (authority s).name) :: portCaptures (authority s).digits) := by
      apply regexMatch_first
      exact first_seq _ _ _ _ _ [(1, (authority s).name)] _ (first_name s hname) hport
    have hget := port_get (authority s).name (authority s).digits [] rfl
    rw [List.append_nil] at hget
    rw [hmatch, Option.map_some, hget.1, hget.2]
    rfl
  · rw [Option.map_eq_none_iff]
    by_contra hsome
    obtain ⟨c, hc⟩ := (regexMatch_isSome _ _).mp (Option.isSome_iff_ne_none.mpr hsome)
    obtain ⟨c₁, u, c₂, hname, hport, -⟩ := (mem_run_seq _ _ _ _ _).mp hc
    obtain ⟨hne, r, hr⟩ := host_leaves _ _ _ _ _ hname hport
    exact h ⟨hne, (List.append_eq_nil_iff.mp hr.symm).2⟩

/-- What `extract_host` throws when no form of the Request-URI gives a host. -/
def invalidUri : Fault := .invalidArgument (lit
  "Invalid Request-URI parameter in the request, could not detect a valid format.")

theorem scheme_ne_slash (s : Bytes) : (lit "http://" ++ s).head? ≠ some slash := by
  show some (byteOf 'h') ≠ some slash
  decide

theorem scheme_ne_star (s : Bytes) : lit "http://" ++ s ≠ lit "*" := by
  intro hstar
  have hhead : some (byteOf 'h') = some (byteOf '*') := congrArg List.head? hstar
  exact absurd hhead (by decide)

/-- What is behind the scheme decides on an absolute URI, whatever the headers say. -/
theorem extractHost_uri (request : HttpRequest) (s : Bytes)
    (huri : request.requestUri = lit "http://" ++ s) :
    extractHost request =
      if (authority s).name ≠ [] ∧ PlainQuery (authority s).tail then .ok (authority s).host
      else .error invalidUri := by
  have hmatch := absoluteUri_authority s
  have hpath : absolutePathRegex.regexMatch (lit "http://" ++ s) = none := by
    apply absolutePath_none
    intro hpath
    exact scheme_ne_slash s (absolutePath_leading _ hpath)
  by_cases h : (authority s).name ≠ [] ∧ PlainQuery (authority s).tail
  · rw [if_pos h] at hmatch ⊢
    obtain ⟨c, hc, hhost⟩ := Option.map_eq_some_iff.mp hmatch
    simp only [extractHost, huri, hc, hhost]
  · rw [if_neg h] at hmatch ⊢
    simp only [extractHost, huri, Option.map_eq_none_iff.mp hmatch, hpath,
      if_neg (scheme_ne_star s), invalidUri]

/-- The value of the `Host` header decides on an absolute path. -/
theorem extractHost_path (request : HttpRequest) (value : Bytes)
    (hpath : AbsolutePath request.requestUri)
    (hvalue : request.requestHeader.find (lit "Host") = some value) :
    extractHost request =
      if (authority value).name ≠ [] ∧ (authority value).tail = [] then
        .ok (authority value).host
      else .error invalidUri := by
  have hmatch := hostRegex_authority value
  have hlead := absolutePath_leading _ hpath
  have huri := absoluteUri_path_none _ hlead
  have hstar := slash_ne_star _ hlead
  obtain ⟨c, hc⟩ := Option.isSome_iff_exists.mp hpath
  by_cases h : (authority value).name ≠ [] ∧ (authority value).tail = []
  · rw [if_pos h] at hmatch ⊢
    obtain ⟨d, hd, hhost⟩ := Option.map_eq_some_iff.mp hmatch
    simp only [extractHost, huri, hc, hvalue, hd, hhost]
  · rw [if_neg h] at hmatch ⊢
    simp only [extractHost, huri, hc, hvalue, Option.map_eq_none_iff.mp hmatch, if_neg hstar,
      invalidUri]

theorem absoluteUri_scheme (uri : Bytes) (h : (absoluteUriRegex.regexMatch uri).isSome) :
    ∃ s, uri = lit "http://" ++ s := by
  obtain ⟨c, hc⟩ := (regexMatch_isSome _ _).mp h
  obtain ⟨c₁, s, c₂, hlit, -, -⟩ := (mem_run_seq _ _ _ _ _).mp hc
  exact ⟨s, ((mem_run_literal _ _ _ _).mp hlit).2⟩

/-- Where the host of a request comes from. -/
theorem extractHost_forms (request : HttpRequest) (h : Host)
    (haccept : extractHost request = .ok h) :
    (∃ s, request.requestUri = lit "http://" ++ s ∧ h = (authority s).host) ∨
    (request.requestUri.head? = some slash ∧ ∃ value,
      request.requestHeader.find (lit "Host") = some value ∧ h = (authority value).host) ∨
    request.requestUri = lit "*" ∧ h = ⟨lit "*", 80⟩ := by
  by_cases huri : ∃ s, request.requestUri = lit "http://" ++ s
  · obtain ⟨s, hs⟩ := huri
    rw [extractHost_uri request s hs] at haccept
    split_ifs at haccept
    exact Or.inl ⟨s, hs, (Except.ok.inj haccept).symm⟩
  · have hnot : absoluteUriRegex.regexMatch request.requestUri = none := by
      by_contra hsome
      exact huri (absoluteUri_scheme _ (Option.isSome_iff_ne_none.mpr hsome))
    right
    by_cases hpath : AbsolutePath request.requestUri
    · left
      refine ⟨absolutePath_leading _ hpath, ?_⟩
      cases hvalue : request.requestHeader.find (lit "Host") with
      | none =>
        obtain ⟨c, hc⟩ := Option.isSome_iff_exists.mp hpath
        simp [extractHost, hnot, hc, hvalue] at haccept
      | some value =>
        rw [extractHost_path request value hpath hvalue] at haccept
        split_ifs at haccept
        exact ⟨value, rfl, (Except.ok.inj haccept).symm⟩
    · right
      simp only [extractHost, hnot, absolutePath_none _ hpath] at haccept
      split_ifs at haccept with hstar
      exact ⟨hstar, (Except.ok.inj haccept).symm⟩

end HttpService
end HttpCpp
