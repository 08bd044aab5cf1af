import HttpCpp.Framework.Excursion
import HttpCpp.Framework.StdMap
import HttpCpp.Framework.Bytes

namespace HttpCpp

/-- A file tree without symbolic links. -/
inductive FsNode where
  | regular (content : Bytes) (lastWriteTime : Int)
  | directory (entries : List (Bytes × FsNode))
  | other

namespace FsNode

def isDirectory : FsNode → Bool
  | .directory _ => true
  | _ => false

def isRegularFile : FsNode → Bool
  | .regular _ _ => true
  | _ => false

/-- The node at a place below. -/
def at? : FsNode → List Bytes → Option FsNode
  | node, [] => some node
  | .directory entries, name :: loc => (Assoc.find name entries).bind fun node => node.at? loc
  | _, _ :: _ => none

theorem at?_append (node : FsNode) (loc loc' : List Bytes) :
    node.at? (loc ++ loc') = (node.at? loc).bind (·.at? loc') := by
  induction loc generalizing node with
  | nil => rw [List.nil_append, at?, Option.bind_some]
  | cons name loc ih =>
    cases node with
    | regular content time => simp [at?]
    | other => simp [at?]
    | directory entries =>
      simp only [List.cons_append, at?]
      cases Assoc.find name entries with
      | none => rfl
      | some next => exact ih next

end FsNode

/-- What the process sees of the filesystem at one moment; no call fails for lack of permission or
for a length limit. -/
structure Snapshot where
  root : FsNode
  cwd : List Bytes
  cwdDirectory : (root.at? cwd).any FsNode.isDirectory

/-- A `std::string` as a system call reads it, up to the first zero byte. -/
def cString (s : Bytes) : Bytes := s.takeWhile (· ≠ NUL)

/-- The move a path component stands for. -/
def component (name : Bytes) : Move Bytes :=
  if name = [] ∨ name = lit "." then .stay
  else if name = lit ".." then .up
  else .down name

def components (path : Bytes) : List Bytes := (cString path).splitOn slash

namespace Snapshot

/-- Path resolution from a place, each component looked up in a directory. -/
def walk (fs : Snapshot) : List Bytes → List Bytes → Option (List Bytes)
  | [], loc => some loc
  | name :: rest, loc =>
    let next := (component name).go loc
    if (fs.root.at? loc).any FsNode.isDirectory ∧ (fs.root.at? next).isSome then fs.walk rest next
    else none

/-- Where the resolution of a path begins. -/
def start (fs : Snapshot) (path : Bytes) : List Bytes :=
  if (cString path).head? = some slash then [] else fs.cwd

/-- The place a path names. -/
def resolve (fs : Snapshot) (path : Bytes) : Option (List Bytes) :=
  if cString path = [] then none else fs.walk (components path) (fs.start path)

/-- `boost::filesystem::status`. -/
def status (fs : Snapshot) (path : Bytes) : Option FsNode := (fs.resolve path).bind fs.root.at?

/-- `boost::filesystem::exists`. -/
def fileExists (fs : Snapshot) (path : Bytes) : Bool := (fs.status path).isSome

def isRegularFile (fs : Snapshot) (path : Bytes) : Bool :=
  (fs.status path).any FsNode.isRegularFile

def isDirectory (fs : Snapshot) (path : Bytes) : Bool := (fs.status path).any FsNode.isDirectory

theorem walk_append (fs : Snapshot) (names names' : List Bytes) (loc : List Bytes) :
    fs.walk (names ++ names') loc = (fs.walk names loc).bind (fs.walk names') := by
  induction names generalizing loc with
  | nil => rfl
  | cons name names ih =>
    simp only [List.cons_append, walk]
    split_ifs with h
    · exact ih _
    · rfl

/-- One component that is a name leads to the entry of that name. -/
theorem walk_entry (fs : Snapshot) (loc : List Bytes) (entries : List (Bytes × FsNode))
    (hloc : fs.root.at? loc = some (.directory entries)) (name : Bytes) (node : FsNode)
    (hname : component name = .down name) (hfind : Assoc.find name entries = some node) :
    fs.walk [name] loc = some (loc ++ [name]) ∧ fs.root.at? (loc ++ [name]) = some node := by
  have hat : fs.root.at? (loc ++ [name]) = some node := by
    rw [FsNode.at?_append, hloc, Option.bind_some]
    simp [FsNode.at?, hfind]
  have hnext : (component name).go loc = loc ++ [name] := by
    rw [hname]
    rfl
  have hdir : (fs.root.at? loc).any FsNode.isDirectory := by
    rw [hloc]
    rfl
  refine ⟨?_, hat⟩
  simp [walk, hnext, hat, hdir]

/-- Without symbolic links, resolution goes where the components say. -/
theorem walk_some (fs : Snapshot) (names loc end_ : List Bytes)
    (h : fs.walk names loc = some end_) : end_ = Move.walk loc (names.map component) := by
  induction names generalizing loc with
  | nil => simpa [walk, Move.walk, eq_comm] using h
  | cons name names ih =>
    simp only [walk] at h
    split_ifs at h with hdir
    exact ih _ h

theorem walk_directory (fs : Snapshot) (names loc end_ : List Bytes) (hne : names ≠ [])
    (h : fs.walk names loc = some end_) : (fs.root.at? loc).any FsNode.isDirectory := by
  cases names with
  | nil => exact absurd rfl hne
  | cons name names =>
    simp only [walk] at h
    split_ifs at h with hdir
    exact hdir.1

end Snapshot

theorem cString_named (path : Bytes) (h : cString path ≠ []) : path ≠ [] := by
  intro hempty
  rw [hempty] at h
  exact h rfl

theorem cString_append (a b : Bytes) :
    cString (a ++ b) = if NUL ∈ a then cString a else a ++ cString b := by
  induction a with
  | nil => rfl
  | cons x a ih =>
    by_cases hx : x = NUL
    · simp [cString, hx]
    · have hx' : NUL ≠ x := Ne.symm hx
      have hcons : ∀ l, cString (x :: l) = x :: cString l := fun l => by simp [cString, hx]
      rw [List.cons_append, hcons, ih, hcons]
      simp only [List.mem_cons, hx', false_or]
      split_ifs <;> rfl

theorem cString_self (a : Bytes) (h : NUL ∉ a) : cString a = a := by
  have hself := cString_append a []
  rw [List.append_nil, if_neg h] at hself
  simpa [cString] using hself

theorem cString_nonzero (s : Bytes) : NUL ∉ cString s := by
  intro hin
  have hne := List.mem_takeWhile_imp hin
  simp at hne

theorem cString_slash (a rest : Bytes) (h : NUL ∉ a) :
    cString (a ++ slash :: rest) = a ++ slash :: cString rest := by
  rw [cString_append, if_neg h]
  rfl

namespace Snapshot

/-- Resolution reads a path up to its zero byte. -/
theorem resolve_congr (fs : Snapshot) (path path' : Bytes) (h : cString path = cString path') :
    fs.resolve path = fs.resolve path' := by
  simp only [resolve, components, start, h]

theorem resolve_cString (fs : Snapshot) (path : Bytes) :
    fs.resolve (cString path) = fs.resolve path :=
  fs.resolve_congr _ path (cString_self _ (cString_nonzero path))

/-- Resolution of a path that goes on after a slash. -/
theorem resolve_slash (fs : Snapshot) (path rest : Bytes) (h : NUL ∉ path) :
    fs.resolve (path ++ slash :: rest) =
      (fs.walk (components path) (fs.start (path ++ [slash]))).bind
        (fs.walk (components rest)) := by
  have hstart : fs.start (path ++ slash :: rest) = fs.start (path ++ [slash]) := by
    simp only [start, cString_slash path _ h]
    cases path <;> rfl
  have hcomponents : components (path ++ slash :: rest) = components path ++ components rest := by
    rw [components, cString_slash path rest h, List.splitOn_append_cons_self, components,
      components, cString_self path h]
  rw [resolve, if_neg (by simp [cString_slash path rest h]), hstart, hcomponents, walk_append]

theorem resolve_below (fs : Snapshot) (path rest : Bytes) (h : NUL ∉ path) (hne : path ≠ []) :
    fs.resolve (path ++ slash :: rest) =
      (fs.resolve path).bind (fs.walk (components rest)) := by
  have hstart : fs.start (path ++ [slash]) = fs.start path := by
    simp only [start, cString_slash path _ h, cString_self path h]
    cases path with
    | nil => exact absurd rfl hne
    | cons x path => rfl
  rw [resolve_slash fs path rest h, hstart, resolve, if_neg (by rwa [cString_self path h])]

end Snapshot

end HttpCpp
