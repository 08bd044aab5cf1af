import HttpCpp.Framework.Bytes

namespace HttpCpp

/-- `std::ios_base::basefield`; any other combination of its bits writes decimal numbers. -/
inductive BaseField where
  | dec
  | oct
  | hex
  | other
  deriving DecidableEq

/-- `std::ios_base::adjustfield`. -/
inductive AdjustField where
  | left
  | right
  | internal
  | other
  deriving DecidableEq

/-- `std::ios_base::fmtflags`; `rest` are the flags that no unsigned number and no text reads. -/
structure FmtFlags where
  basefield : BaseField
  adjustfield : AdjustField
  showbase : Bool
  uppercase : Bool
  rest : Nat
  deriving DecidableEq

/-- `std::ios_base::hex` alone. -/
def FmtFlags.hex : FmtFlags := ⟨.hex, .other, false, false, 0⟩

/-- A `std::ostream`: its format state and what was written. -/
structure OStream where
  flags : FmtFlags
  fill : Byte
  width : Nat
  text : Bytes
  deriving DecidableEq

namespace OStream

/-- A number as it is written, cut after the `0x` that `internal` fills behind. -/
def numeral (flags : FmtFlags) (n : Nat) : Bytes × Bytes :=
  match flags.basefield with
  | .hex =>
    if flags.uppercase then
      (if flags.showbase ∧ n ≠ 0 then lit "0X" else [],
        (Nat.toDigits 16 n).map fun c => byteOf c.toUpper)
    else (if flags.showbase ∧ n ≠ 0 then lit "0x" else [], (Nat.toDigits 16 n).map byteOf)
  | .oct => ([], (if flags.showbase ∧ n ≠ 0 then lit "0" else []) ++ (Nat.toDigits 8 n).map byteOf)
  | _ => ([], (Nat.toDigits 10 n).map byteOf)

/-- What is written is filled up to the width, which is then forgotten. -/
def pad (s : OStream) (base text : Bytes) : OStream :=
  let filling := List.replicate (s.width - (base ++ text).length) s.fill
  { s with
    width := 0
    text := s.text ++
      match s.flags.adjustfield with
      | .left => base ++ text ++ filling
      | .internal => base ++ filling ++ text
      | _ => filling ++ base ++ text }

/-- `operator<<` of an unsigned number. -/
def putUnsigned (s : OStream) (n : Nat) : OStream :=
  s.pad (numeral s.flags n).1 (numeral s.flags n).2

/-- `operator<<` of a text. -/
def putText (s : OStream) (text : Bytes) : OStream := s.pad [] text

/-- `std::setfill`, `std::setw` and `std::hex`. -/
def setfill (s : OStream) (fill : Byte) : OStream := { s with fill := fill }
def setw (s : OStream) (width : Nat) : OStream := { s with width := width }
def hex (s : OStream) : OStream := { s with flags := { s.flags with basefield := .hex } }

/-- A text is written as it is where no width is set. -/
theorem putText_unset (s : OStream) (text : Bytes) (h : s.width = 0) :
    s.putText text = { s with text := s.text ++ text } := by
  obtain ⟨flags, fill, width, written⟩ := s
  obtain rfl := h
  cases hadjust : flags.adjustfield <;> simp [putText, pad, hadjust]

/-- The two digits of a byte. -/
def hexPair (b : Byte) : Bytes :=
  [byteOf (Nat.digitChar (b.val / 16)), byteOf (Nat.digitChar (b.val % 16))]

/-- With the flag `hex` alone and zeros to fill with, a byte is two digits. -/
theorem putUnsigned_byte (s : OStream) (b : Byte) (hflags : s.flags = .hex)
    (hfill : s.fill = byteOf '0') (hwidth : s.width = 2) :
    s.putUnsigned b.val = { s with width := 0, text := s.text ++ hexPair b } := by
  have hall : ∀ b : Byte, List.replicate
      (2 - ((numeral .hex b.val).1 ++ (numeral .hex b.val).2).length) (byteOf '0') ++
        (numeral .hex b.val).1 ++ (numeral .hex b.val).2 = hexPair b := by
    decide +kernel
  obtain ⟨flags, fill, width, written⟩ := s
  simp only at hflags hfill hwidth
  subst hflags hfill hwidth
  rw [← hall b]
  rfl

/-- The value of a hexadecimal digit. -/
def digitValue (x : Byte) : Option Nat :=
  (List.range 16).find? fun d => byteOf (Nat.digitChar d) = x

theorem digitValue_digit (d : Nat) (h : d < 16) :
    digitValue (byteOf (Nat.digitChar d)) = some d := by
  have hall : ∀ d ∈ List.range 16, digitValue (byteOf (Nat.digitChar d)) = some d := by decide
  exact hall d (List.mem_range.mpr h)

/-- The byte that two digits stand for. -/
def byteOfPair (x y : Byte) : Option Byte :=
  (digitValue x).bind fun high => (digitValue y).bind fun low =>
    if h : 16 * high + low < 256 then some ⟨16 * high + low, h⟩ else none

theorem byteOfPair_hexPair (b : Byte) : ∃ x y, hexPair b = [x, y] ∧ byteOfPair x y = some b := by
  refine ⟨_, _, rfl, ?_⟩
  have hhigh : b.val / 16 < 16 := by omega
  have hlow : b.val % 16 < 16 := by omega
  have hvalue : 16 * (b.val / 16) + b.val % 16 = b.val := Nat.div_add_mod _ _
  simp only [byteOfPair, digitValue_digit _ hhigh, digitValue_digit _ hlow, Option.bind_some,
    hvalue, b.isLt, dite_true]

end OStream

end HttpCpp
