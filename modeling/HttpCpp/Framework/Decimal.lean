import HttpCpp.Framework.Bytes
import Mathlib.Algebra.Group.Nat.Defs
import Mathlib.Data.List.Induction

namespace HttpCpp

/-- An unsigned number as `operator<<` and `std::to_string` write it. -/
def decimalText (n : Nat) : Bytes := (Nat.toDigits 10 n).map byteOf

theorem decimalText_ne_nil (n : Nat) : decimalText n ≠ [] := by
  intro h
  exact Nat.toDigits_ne_nil (List.map_eq_nil_iff.mp h)

private theorem toNat_toDigits (n : Nat) (c : Char) (hc : c ∈ Nat.toDigits 10 n) :
    48 ≤ c.toNat ∧ c.toNat ≤ 57 := by
  have hdigit := Nat.isDigit_of_mem_toDigits (by decide) (by decide) hc
  simp only [Char.isDigit, Bool.and_eq_true, decide_eq_true_eq] at hdigit
  exact hdigit

theorem decimalText_digit (n : Nat) (c : Byte) (hc : c ∈ decimalText n) :
    48 ≤ c.val ∧ c.val ≤ 57 := by
  obtain ⟨d, hd, rfl⟩ := List.mem_map.mp hc
  obtain ⟨hlow, hhigh⟩ := toNat_toDigits n d hd
  rw [byteOf_val d (by omega)]
  exact ⟨hlow, hhigh⟩

/-- Reading the digits from the left gives the number back. -/
theorem decimalText_value (n : Nat) :
    (decimalText n).foldl (fun m c => 10 * m + (c.val - 48)) 0 = n := by
  have hread : ∀ (l : List Char) (m : Nat), (∀ c ∈ l, c.toNat < 256) →
      (l.map byteOf).foldl (fun m c => 10 * m + (c.val - 48)) m = Nat.ofDigitChars 10 l m := by
    intro l
    induction l with
    | nil => intro m _; rfl
    | cons c l ih =>
      intro m h
      obtain ⟨hc, hl⟩ := List.forall_mem_cons.mp h
      rw [List.map_cons, List.foldl_cons, byteOf_val c hc, ih _ hl]
      rfl
  rw [decimalText, hread, Nat.ofDigitChars_ten_toDigits]
  intro c hc
  have hdigit := toNat_toDigits n c hc
  omega

example : decimalText 8080 = lit "8080" := by decide

/-- The number that digits stand for. -/
def decimalValue (digits : Bytes) : Nat := digits.foldl (fun m c => 10 * m + (c.val - 48)) 0

theorem decimalValue_decimalText (n : Nat) : decimalValue (decimalText n) = n := decimalText_value n

/-- Digits are zeros before the number as it is written. -/
theorem digits_zeros (digits : Bytes) (hne : digits ≠ [])
    (hdigits : ∀ c ∈ digits, 48 ≤ c.val ∧ c.val ≤ 57) :
    ∃ k, digits = List.replicate k (byteOf '0') ++ decimalText (decimalValue digits) := by
  have hone : ∀ c : Byte, 48 ≤ c.val ∧ c.val ≤ 57 → decimalText (c.val - 48) = [c] := by
    decide +kernel
  -- induction from the last digit, which the value is written with last
  induction digits using List.reverseRecOn with
  | nil => exact absurd rfl hne
  | append_singleton digits c ih =>
    have hc := hdigits c (by simp)
    have hvalue : decimalValue (digits ++ [c]) = 10 * decimalValue digits + (c.val - 48) := by
      simp [decimalValue, List.foldl_append]
    rw [hvalue]
    by_cases hempty : digits = []
    · subst hempty
      refine ⟨0, ?_⟩
      have hzero : decimalValue [] = 0 := rfl
      rw [hzero, Nat.mul_zero, Nat.zero_add, hone c hc]
      rfl
    · obtain ⟨k, hk⟩ := ih hempty fun x hx => hdigits x (List.mem_append_left [c] hx)
      by_cases hzero : decimalValue digits = 0
      · refine ⟨k + 1, ?_⟩
        have htext : decimalText 0 = [byteOf '0'] := rfl
        rw [hzero, htext, ← List.replicate_succ'] at hk
        rw [hzero, Nat.mul_zero, Nat.zero_add, hone c hc, ← hk]
      · refine ⟨k, ?_⟩
        have happend := Nat.toDigits_append_toDigits (b := 10) (n := decimalValue digits)
          (d := c.val - 48) (by omega) (by omega) (by omega)
        have htext : decimalText (10 * decimalValue digits + (c.val - 48)) =
            decimalText (decimalValue digits) ++ [c] := by
          rw [← hone c hc, decimalText, ← happend, List.map_append]
          rfl
        rw [htext, ← List.append_assoc, ← hk]

/-- `%d` of `printf` with a field width and a precision of at least one. -/
def formatInt (width precision : Nat) (n : Int) : Bytes :=
  let digits := decimalText n.natAbs
  let text := (if n < 0 then lit "-" else []) ++
    List.replicate (precision - digits.length) (byteOf '0') ++ digits
  List.replicate (width - text.length) SP ++ text

theorem formatInt_bytes (width precision : Nat) (n : Int) (c : Byte)
    (hc : c ∈ formatInt width precision n) : 32 ≤ c.val ∧ c.val ≤ 57 := by
  have hzero : 32 ≤ (byteOf '0').val ∧ (byteOf '0').val ≤ 57 := by decide
  have hspace : 32 ≤ SP.val ∧ SP.val ≤ 57 := by decide
  have hsign : ∀ c ∈ lit "-", 32 ≤ c.val ∧ c.val ≤ 57 := by decide +kernel
  simp only [formatInt, List.mem_append, List.mem_replicate] at hc
  rcases hc with ⟨-, rfl⟩ | (hc | ⟨-, rfl⟩) | hc
  · exact hspace
  · split_ifs at hc with hneg
    · exact hsign c hc
    · simp at hc
  · exact hzero
  · obtain ⟨hlow, hhigh⟩ := decimalText_digit n.natAbs c hc
    omega

/-- The number of digits is the least that holds the number. -/
theorem decimalText_length_le (n k : Nat) (hk : 0 < k) :
    (decimalText n).length ≤ k ↔ n < 10 ^ k := by
  rw [decimalText, List.length_map]
  exact Nat.length_toDigits_le_iff (by omega) hk

theorem decimalText_length_pos (n : Nat) : 0 < (decimalText n).length :=
  List.length_pos_of_ne_nil (decimalText_ne_nil n)

/-- Zeros in front of a number do not count. -/
theorem decimalValue_zeros (k : Nat) (digits : Bytes) :
    decimalValue (List.replicate k (byteOf '0') ++ digits) = decimalValue digits := by
  have hzero : (byteOf '0').val = 48 := rfl
  induction k with
  | zero => rfl
  | succ k ih =>
    rw [List.replicate_succ, List.cons_append]
    simpa [decimalValue, hzero] using ih

theorem formatInt_no_space (precision : Nat) (n : Int) : SP ∉ formatInt 0 precision n := by
  simp only [formatInt, Nat.zero_sub, List.replicate_zero, List.nil_append, List.mem_append,
    List.mem_replicate, not_or, not_and]
  refine ⟨⟨?_, fun _ => by decide⟩, ?_⟩
  · split_ifs
    · decide
    · exact List.not_mem_nil
  · intro hdigit
    exact absurd (decimalText_digit _ SP hdigit) (by decide)

/-- A text that is a number in exactly so many decimal digits, such as `2DIGIT`. -/
def InDigits (count : Nat) (text : Bytes) (value : Int) : Prop :=
  text.length = count ∧ (∀ c ∈ text, 48 ≤ c.val ∧ c.val ≤ 57) ∧ (decimalValue text : Int) = value

theorem formatInt_nat (width precision n : Nat) :
    formatInt width precision n =
      List.replicate (width - (precision - (decimalText n).length + (decimalText n).length)) SP ++
        (List.replicate (precision - (decimalText n).length) (byteOf '0') ++ decimalText n) := by
  have hsign : ¬(n : Int) < 0 := by omega
  simp [formatInt, hsign]

/-- A precision pads with zeros. -/
theorem formatInt_inDigits (precision n : Nat) :
    InDigits (max precision (decimalText n).length) (formatInt 0 precision n) n := by
  rw [formatInt_nat, Nat.zero_sub, List.replicate_zero, List.nil_append]
  refine ⟨?_, ?_, ?_⟩
  · rw [List.length_append, List.length_replicate]
    omega
  · intro c hc
    rcases List.mem_append.mp hc with hzero | hdigit
    · obtain ⟨-, rfl⟩ := List.mem_replicate.mp hzero
      decide
    · exact decimalText_digit n c hdigit
  · rw [decimalValue_zeros, decimalValue_decimalText]

theorem inDigits_value (count count' : Nat) (text : Bytes) (value value' : Int)
    (h : InDigits count text value) :
    InDigits count' text value' ↔ count' = count ∧ value' = value := by
  obtain ⟨hlength, hdigits, hvalue⟩ := h
  constructor
  · intro h'
    obtain ⟨hlength', -, hvalue'⟩ := h'
    exact ⟨hlength'.symm.trans hlength, hvalue'.symm.trans hvalue⟩
  · intro h'
    obtain ⟨rfl, rfl⟩ := h'
    exact ⟨hlength, hdigits, hvalue⟩

/-- `%.2d` writes two digits. -/
theorem formatInt_two (n : Int) (hlow : 0 ≤ n) (hhigh : n < 100) :
    InDigits 2 (formatInt 0 2 n) n := by
  obtain ⟨n, rfl⟩ := Int.eq_ofNat_of_zero_le hlow
  have hlength := (decimalText_length_le n 2 (by omega)).mpr (by omega)
  have hdigits := formatInt_inDigits 2 n
  rwa [max_eq_left hlength] at hdigits

/-- `%2d` pads with a space. -/
theorem formatInt_spaced (n : Int) (hlow : 0 ≤ n) (hhigh : n < 100) :
    formatInt 2 1 n = if n < 10 then SP :: formatInt 0 1 n else formatInt 0 2 n := by
  obtain ⟨n, rfl⟩ := Int.eq_ofNat_of_zero_le hlow
  have htwo := (decimalText_length_le n 2 (by omega)).mpr (by omega)
  have hone := decimalText_length_le n 1 (by omega)
  have hpos := decimalText_length_pos n
  simp only [formatInt_nat]
  split_ifs with hn
  · have hlength : (decimalText n).length = 1 := by omega
    rw [hlength]
    rfl
  · have hlength : (decimalText n).length = 2 := by omega
    rw [hlength]

example : formatInt 2 1 6 = lit " 6" ∧ formatInt 0 2 6 = lit "06" := by decide

end HttpCpp
