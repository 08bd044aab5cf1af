import HttpCpp.Framework.Decimal

namespace HttpCpp

/-- `std::tm`; the two fields that index a table of names are in range. -/
structure Tm where
  sec : Int
  min : Int
  hour : Int
  mday : Int
  mon : Fin 12
  year : Int
  wday : Fin 7
  deriving DecidableEq

def wdayName : List Bytes :=
  [lit "Sun", lit "Mon", lit "Tue", lit "Wed", lit "Thu", lit "Fri", lit "Sat"]

def monName : List Bytes :=
  [lit "Jan", lit "Feb", lit "Mar", lit "Apr", lit "May", lit "Jun", lit "Jul", lit "Aug",
    lit "Sep", lit "Oct", lit "Nov", lit "Dec"]

/-- `http_constants::httptime`: the text that `sprintf` writes. -/
def httptime (timeptr : Tm) : Bytes :=
  wdayName.getD timeptr.wday.val [] ++ lit ", " ++ formatInt 2 1 timeptr.mday ++ lit " " ++
    monName.getD timeptr.mon.val [] ++ lit " " ++ formatInt 0 1 (1900 + timeptr.year) ++ lit " " ++
    formatInt 0 2 timeptr.hour ++ lit ":" ++ formatInt 0 2 timeptr.min ++ lit ":" ++
    formatInt 0 2 timeptr.sec ++ lit " GMT"

theorem name_printable (names : List Bytes) (i : Nat) (h : ∀ name ∈ names, ∀ c ∈ name, 32 ≤ c.val) :
    ∀ c ∈ names.getD i [], 32 ≤ c.val := by
  intro c hc
  rw [List.getD_eq_getElem?_getD] at hc
  cases hname : names[i]? with
  | none => simp [hname] at hc
  | some name =>
    rw [hname, Option.getD_some] at hc
    exact h name (List.mem_of_getElem? hname) c hc

theorem httptime_printable (timeptr : Tm) : ∀ c ∈ httptime timeptr, 32 ≤ c.val := by
  have hwday := name_printable wdayName timeptr.wday.val (by
    simp only [wdayName, List.forall_mem_cons]
    and_intros
    all_goals first | exact lit_forall _ (by decide) | exact List.forall_mem_nil _)
  have hmon := name_printable monName timeptr.mon.val (by
    simp only [monName, List.forall_mem_cons]
    and_intros
    all_goals first | exact lit_forall _ (by decide) | exact List.forall_mem_nil _)
  have hcomma : ∀ c ∈ lit ", ", 32 ≤ c.val := lit_forall _ (by decide)
  have hspace : ∀ c ∈ lit " ", 32 ≤ c.val := lit_forall _ (by decide)
  have hcolon : ∀ c ∈ lit ":", 32 ≤ c.val := lit_forall _ (by decide)
  have hgmt : ∀ c ∈ lit " GMT", 32 ≤ c.val := lit_forall _ (by decide)
  have hint : ∀ width precision n, ∀ c ∈ formatInt width precision n, 32 ≤ c.val :=
    fun width precision n c hc => (formatInt_bytes width precision n c hc).1
  simp only [httptime, List.mem_append, or_imp, forall_and]
  exact ⟨⟨⟨⟨⟨⟨⟨⟨⟨⟨⟨⟨⟨hwday, hcomma⟩, hint _ _ _⟩, hspace⟩, hmon⟩, hspace⟩, hint _ _ _⟩, hspace⟩,
    hint _ _ _⟩, hcolon⟩, hint _ _ _⟩, hcolon⟩, hint _ _ _⟩, hgmt⟩

example : httptime ⟨37, 49, 8, 6, 10, 94, 0⟩ = lit "Sun,  6 Nov 1994 08:49:37 GMT" := by
  decide

end HttpCpp
