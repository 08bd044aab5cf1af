import HttpCpp.Framework.FormattedStream
import HttpCpp.Server.FrontEnd

namespace HttpCpp

namespace ZmqIdentity

open OStream

/-- The body of the loop of `operator<<`, for one byte and its index. -/
def putByte (stream : OStream) (e : Byte × Nat) : OStream :=
  let stream := (((stream.setfill (byteOf '0')).setw 2).hex).putUnsigned e.1.val
  if e.2 % 2 = 1 then stream.putText (lit ":") else stream

/-- `operator<<` of a `zmq_identity`. -/
def put (stream : OStream) (id : ZmqIdentity) : OStream :=
  let previousFlags := stream.flags
  let previousFill := stream.fill
  let previousWidth := stream.width
  let stream := { stream with flags := .hex, fill := byteOf '0', width := 2 }
  let stream := id.identity.zipIdx.foldl putByte stream
  { stream with flags := previousFlags, fill := previousFill, width := previousWidth }

/-- The digits of the bytes, with a colon after every second one. -/
def textOf : Bytes → Bytes
  | [] => []
  | [a] => hexPair a
  | a :: b :: bytes => hexPair a ++ hexPair b ++ colon :: textOf bytes

/-- The bytes that such a text was written for. -/
def readText : Bytes → Option Bytes
  | [] => some []
  | [x, y] => (byteOfPair x y).map fun a => [a]
  | x :: y :: x' :: y' :: c :: text =>
    if c = colon then
      match byteOfPair x y, byteOfPair x' y', readText text with
      | some a, some b, some bytes => some (a :: b :: bytes)
      | _, _, _ => none
    else none
  | _ => none

theorem readText_textOf (bytes : Bytes) : readText (textOf bytes) = some bytes := by
  induction bytes using textOf.induct with
  | case1 => rfl
  | case2 a =>
    obtain ⟨x, y, hpair, hread⟩ := byteOfPair_hexPair a
    simp [textOf, hpair, readText, hread]
  | case3 a b bytes ih =>
    obtain ⟨x, y, hpair, hread⟩ := byteOfPair_hexPair a
    obtain ⟨x', y', hpair', hread'⟩ := byteOfPair_hexPair b
    simp [textOf, hpair, hpair', readText, hread, hread', ih]

/-- One byte is written as its digits, whatever the fill and the width were; the width is spent. -/
theorem putByte_eq (stream : OStream) (b : Byte) (i : Nat) (hflags : stream.flags = .hex) :
    putByte stream (b, i) = { stream with
      fill := byteOf '0'
      width := 0
      text := stream.text ++ (hexPair b ++ if i % 2 = 1 then [colon] else []) } := by
  have hbyte := putUnsigned_byte ((stream.setfill (byteOf '0')).setw 2).hex b
    (by simp [OStream.hex, setw, setfill, hflags]; rfl) rfl rfl
  have hsame : { stream.flags with basefield := .hex } = stream.flags := by rw [hflags]; rfl
  simp only [putByte, hbyte]
  by_cases hodd : i % 2 = 1
  · have hcolon : lit ":" = [colon] := rfl
    rw [if_pos hodd, putText_unset _ _ rfl, hcolon]
    simp [OStream.hex, setw, setfill, hodd, hsame]
  · simp [OStream.hex, setw, setfill, hodd, hsame]

/-- The loop from an even index on. -/
theorem putBytes_eq (bytes : Bytes) (n : Nat) (heven : n % 2 = 0) (stream : OStream)
    (hflags : stream.flags = .hex) : ∃ fill width, (bytes.zipIdx n).foldl putByte stream =
      { stream with fill := fill, width := width, text := stream.text ++ textOf bytes } := by
  induction bytes using textOf.induct generalizing n stream with
  | case1 => exact ⟨stream.fill, stream.width, by simp [textOf]⟩
  | case2 a =>
    refine ⟨byteOf '0', 0, ?_⟩
    have hodd : ¬n % 2 = 1 := by omega
    rw [List.zipIdx_singleton, List.foldl_cons, List.foldl_nil, putByte_eq stream a n hflags,
      if_neg hodd, List.append_nil, textOf]
  | case3 a b bytes ih =>
    have hodd : ¬n % 2 = 1 := by omega
    have hnext : (n + 1) % 2 = 1 := by omega
    have hfirst := putByte_eq stream a n hflags
    have hkept : (putByte stream (a, n)).flags = .hex := by rw [hfirst]; exact hflags
    have hsecond := putByte_eq (putByte stream (a, n)) b (n + 1) hkept
    obtain ⟨fill, width, hrest⟩ := ih (n + 1 + 1) (by omega)
      (putByte (putByte stream (a, n)) (b, n + 1)) (by rw [hsecond]; exact hkept)
    refine ⟨fill, width, ?_⟩
    rw [List.zipIdx_cons, List.zipIdx_cons, List.foldl_cons, List.foldl_cons, hrest, hsecond,
      hfirst, if_neg hodd, if_pos hnext]
    simp [textOf]

/-- Whatever the format of a stream is set to, an identity is written to it as a text from which
it can be read back, and the format is left as it was, the width not spent. -/
theorem put_readable (stream : OStream) (id : ZmqIdentity) :
    ∃ text, put stream id = { stream with text := stream.text ++ text } ∧
      readText text = some id.identity := by
  obtain ⟨fill, width, hloop⟩ := putBytes_eq id.identity 0 rfl
    { stream with flags := .hex, fill := byteOf '0', width := 2 } rfl
  refine ⟨textOf id.identity, ?_, readText_textOf id.identity⟩
  simp only [put, hloop]

/-- Even under a width and uppercase letters. -/
example : put ⟨⟨.dec, .left, true, true, 0⟩, byteOf '*', 9, lit "id "⟩
      ⟨[⟨0, by decide⟩, ⟨171, by decide⟩, ⟨255, by decide⟩], by decide⟩ =
    ⟨⟨.dec, .left, true, true, 0⟩, byteOf '*', 9, lit "id 00ab:ff"⟩ := by
  decide

end ZmqIdentity

end HttpCpp
