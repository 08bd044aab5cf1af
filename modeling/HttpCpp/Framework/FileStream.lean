import HttpCpp.Framework.Bytes

namespace HttpCpp

/-- `std::ifstream`: the bytes of the file, none when it could not be opened, the read position,
what `gcount` returns and the state bits. -/
structure FileStream where
  file : Option Bytes
  pos : Nat
  gcount : Nat
  eofbit : Bool
  failbit : Bool
  deriving DecidableEq, Repr

namespace FileStream

def ofFile (file : Option Bytes) : FileStream := ⟨file, 0, 0, false, file.isNone⟩

def good (input : FileStream) : Bool := !input.eofbit && !input.failbit

/-- What the buffer has left. -/
def unread (input : FileStream) : Bytes := (input.file.getD []).drop input.pos

/-- `ignore(std::numeric_limits<std::streamsize>::max())`, which stops at the end of the file
only. -/
def ignoreAll (input : FileStream) : FileStream :=
  if input.good then
    { input with
      pos := input.pos + input.unread.length, gcount := input.unread.length, eofbit := true }
  else { input with gcount := 0, failbit := true }

def clear (input : FileStream) : FileStream := { input with eofbit := false, failbit := false }

/-- `seekg(0, std::ios_base::beg)`, which fails without a file. -/
def seekBeg (input : FileStream) : FileStream :=
  if input.failbit then { input with eofbit := false }
  else if input.file.isSome then { input with eofbit := false, pos := 0 }
  else { input with eofbit := false, failbit := true }

/-- The bytes from one `std::istreambuf_iterator` to the end iterator; they come from the buffer,
whatever the state bits are. -/
def copyAll (input : FileStream) : Bytes × FileStream :=
  (input.unread, { input with pos := input.pos + input.unread.length })

/-- Skipping a file that has just been opened counts its bytes; one that could not be opened
counts as empty. -/
theorem ignoreAll_gcount (file : Option Bytes) :
    (ofFile file).ignoreAll.gcount = (file.getD []).length := by
  cases file <;> simp [ofFile, ignoreAll, good, unread]

/-- From the start the whole file is copied, wherever the stream has been before. -/
theorem copyAll_rewound (input : FileStream) :
    input.clear.seekBeg.copyAll.1 = input.file.getD [] := by
  cases hfile : input.file with
  | none => simp [copyAll, unread, seekBeg, clear, hfile]
  | some content => simp [copyAll, unread, seekBeg, clear, hfile]

theorem ignoreAll_file (input : FileStream) : input.ignoreAll.file = input.file := by
  unfold ignoreAll
  split_ifs <;> rfl

theorem rewound_file (input : FileStream) : input.clear.seekBeg.file = input.file := by
  unfold seekBeg clear
  split_ifs <;> rfl

end FileStream

end HttpCpp
