import HttpCpp.Filesystem.Containment

namespace HttpCpp

/-- A file or a listing, by its place in the tree whatever path it was found with. -/
inductive Served where
  | file (place : Option (List Bytes))
  | listing (place : Option (List Bytes))

def FilesystemResource.served (fs : Snapshot) : FilesystemResource → Served
  | .file path => .file (fs.resolve path)
  | .listing path => .listing (fs.resolve path)

namespace FilesystemFactory

def indexName : Bytes := lit "index.html"

/-- The path names the directory `d`, which has an index. -/
structure Indexed (fs : Snapshot) (path : Bytes) (d : List Bytes) : Prop where
  resolve : fs.resolve path = some d
  directory : fs.isDirectory path
  nonzero : NUL ∉ path
  index : ∃ node, fs.root.at? (d ++ [indexName]) = some node ∧ ¬node.isDirectory

/-- The four outcomes for a path. -/
inductive Leads (fs : Snapshot) (path : Bytes) : Option Served → Prop where
  | file (loc : List Bytes) (hloc : fs.resolve path = some loc) (hfile : fs.isRegularFile path) :
      Leads fs path (some (.file (some loc)))
  | index (d : List Bytes) (hindex : Indexed fs path d) :
      Leads fs path (some (.file (some (d ++ [indexName]))))
  | listing (d : List Bytes) (hd : fs.resolve path = some d) (hdir : fs.isDirectory path)
      (hnone : ¬Indexed fs path d) : Leads fs path (some (.listing (some d)))
  | nothing (hfile : ¬fs.isRegularFile path) (hdir : ¬fs.isDirectory path) : Leads fs path none

theorem directory_not_regular (fs : Snapshot) (path : Bytes) (h : fs.isDirectory path) :
    ¬fs.isRegularFile path := by
  simp only [Snapshot.isDirectory, Snapshot.isRegularFile] at h ⊢
  cases hnode : fs.status path with
  | none => simp
  | some node =>
    rw [hnode] at h
    cases node <;> simp_all [FsNode.isDirectory, FsNode.isRegularFile]

/-- The test for an index is passed exactly by the directories that have one. -/
theorem indexed_iff (fs : Snapshot) (path : Bytes) (d : List Bytes) (hd : fs.resolve path = some d)
    (hdir : fs.isDirectory path) : Indexed fs path d ↔
      fs.fileExists (indexPath path) ∧ ¬fs.isDirectory (indexPath path) := by
  constructor
  · intro h
    obtain ⟨node, hnode, hkind⟩ := h.index
    have hdown : (component indexName).go d = d ++ [indexName] := by
      have hname : component indexName = .down indexName := by decide
      rw [hname]
      rfl
    have hplace := resolved_directory fs path d hd
    have hwalk : fs.walk [indexName] d = some (d ++ [indexName]) := by
      simp [Snapshot.walk, hdown, hplace ▸ hdir, hnode]
    have hstatus : fs.status (indexPath path) = some node := by
      rw [Snapshot.status, resolve_indexPath fs path d hd h.nonzero]
      show (fs.walk [indexName] d).bind fs.root.at? = some node
      rw [hwalk, Option.bind_some, hnode]
    simp [Snapshot.fileExists, Snapshot.isDirectory, hstatus, hkind]
  · intro h
    obtain ⟨hexists, hnot⟩ := h
    have hbuilt := resolve_index_built fs path d hd hdir hexists hnot
    refine ⟨hd, hdir, index_nonzero fs path hdir hnot, ?_⟩
    simp only [Snapshot.fileExists, Snapshot.isDirectory, Snapshot.status, hbuilt,
      Option.bind_some] at hexists hnot
    obtain ⟨node, hnode⟩ := Option.isSome_iff_exists.mp hexists
    refine ⟨node, hnode, ?_⟩
    simpa [hnode] using hnot

/-- An outcome for a path is what the factory builds for it, by place. -/
theorem leads_value (fs : Snapshot) (path : Bytes) (x : Option Served) (h : Leads fs path x) :
    (resource fs path).map (FilesystemResource.served fs) = x := by
  cases h with
  | file loc hloc hfile =>
    simp only [resource, hfile, if_true, Option.map_some, FilesystemResource.served, hloc]
  | index d hindex =>
    have htest := (indexed_iff fs path d hindex.resolve hindex.directory).mp hindex
    have hplace := resolve_index_built fs path d hindex.resolve hindex.directory htest.1 htest.2
    rw [resource, if_neg (directory_not_regular fs path hindex.directory),
      if_pos hindex.directory, if_pos htest]
    simp only [Option.map_some, FilesystemResource.served, hplace]
    rfl
  | listing d hd hdir hnone =>
    have htest := mt (indexed_iff fs path d hd hdir).mpr hnone
    rw [resource, if_neg (directory_not_regular fs path hdir), if_pos hdir, if_neg htest]
    simp only [Option.map_some, FilesystemResource.served, resolve_closeDirectory fs path d hd hdir]
  | nothing hfile hdir =>
    rw [(resource_none_iff fs path).mpr (not_or.mpr ⟨hfile, hdir⟩)]
    rfl

theorem leads_exists (fs : Snapshot) (path : Bytes) : ∃ x, Leads fs path x := by
  by_cases hfile : fs.isRegularFile path
  · obtain ⟨loc, hloc⟩ := resource_resolved fs path (.file path) (by simp [resource, hfile])
    exact ⟨_, .file loc hloc hfile⟩
  · by_cases hdir : fs.isDirectory path
    · cases hd : fs.resolve path with
      | none => simp [Snapshot.isDirectory, Snapshot.status, hd] at hdir
      | some d =>
        by_cases hindex : Indexed fs path d
        · exact ⟨_, .index d hindex⟩
        · exact ⟨_, .listing d hd hdir hindex⟩
    · exact ⟨_, .nothing hfile hdir⟩

/-- Two paths lead to nothing that is served, to one place, or one to a directory and the other to
its index. -/
inductive SamePlace (fs : Snapshot) (a b : Bytes) : Prop where
  | nothing (ha : ¬(fs.isRegularFile a ∨ fs.isDirectory a))
      (hb : ¬(fs.isRegularFile b ∨ fs.isDirectory b)) : SamePlace fs a b
  | place (hloc : fs.resolve a = fs.resolve b)
      (hindex : ∀ d, Indexed fs a d ↔ Indexed fs b d) : SamePlace fs a b
  | indexRight (d : List Bytes) (ha : Indexed fs a d) (hb : fs.isRegularFile b)
      (hloc : fs.resolve b = some (d ++ [indexName])) : SamePlace fs a b
  | indexLeft (d : List Bytes) (hb : Indexed fs b d) (ha : fs.isRegularFile a)
      (hloc : fs.resolve a = some (d ++ [indexName])) : SamePlace fs a b

theorem file_not_indexed (fs : Snapshot) (path : Bytes) (hfile : fs.isRegularFile path)
    (d : List Bytes) : ¬Indexed fs path d :=
  fun h => directory_not_regular fs path h.directory hfile

theorem leads_functional (fs : Snapshot) (path : Bytes) (x y : Option Served)
    (hx : Leads fs path x) (hy : Leads fs path y) : x = y :=
  (leads_value fs path x hx).symm.trans (leads_value fs path y hy)

/-- The outcome is decided by the place of a path and by its index. -/
theorem leads_congr (fs : Snapshot) (a b : Bytes) (x : Option Served) (hx : Leads fs a x)
    (hloc : fs.resolve a = fs.resolve b) (hindex : ∀ d, Indexed fs a d ↔ Indexed fs b d) :
    Leads fs b x := by
  have hfiles : fs.isRegularFile a = fs.isRegularFile b := by
    simp only [Snapshot.isRegularFile, Snapshot.status, hloc]
  have hdirs : fs.isDirectory a = fs.isDirectory b := by
    simp only [Snapshot.isDirectory, Snapshot.status, hloc]
  cases hx with
  | file loc hplace hfile => exact .file loc (hloc ▸ hplace) (hfiles ▸ hfile)
  | index d h => exact .index d ((hindex d).mp h)
  | listing d hd hdir hnone =>
    exact .listing d (hloc ▸ hd) (hdirs ▸ hdir) (fun h => hnone ((hindex d).mpr h))
  | nothing hfile hdir => exact .nothing (hfiles ▸ hfile) (hdirs ▸ hdir)

/-- Two paths to the same place lead to one thing when both or neither have its index. -/
theorem samePlace_of_place (fs : Snapshot) (a b : Bytes) (d : List Bytes)
    (ha : fs.resolve a = some d) (hb : fs.resolve b = some d)
    (hindex : Indexed fs a d ↔ Indexed fs b d) : SamePlace fs a b := by
  apply SamePlace.place (ha.trans hb.symm)
  intro e
  by_cases he : e = d
  · rw [he]
    exact hindex
  · apply iff_of_false
    · intro h
      exact he (Option.some.inj (h.resolve.symm.trans ha))
    · intro h
      exact he (Option.some.inj (h.resolve.symm.trans hb))

/-- Paths with the same outcome lead to the same place: the cases are what stands at the one and at
the other. -/
theorem samePlace_of_leads (fs : Snapshot) (a b : Bytes) (x y : Option Served)
    (hx : Leads fs a x) (hy : Leads fs b y) (h : x = y) : SamePlace fs a b := by
  cases hx with
  | file loc hloc hfile =>
    cases hy with
    | file loc' hloc' hfile' =>
      have hsame : loc = loc' := by simpa using h
      exact samePlace_of_place fs a b loc hloc (hsame ▸ hloc')
        (iff_of_false (file_not_indexed fs a hfile loc) (file_not_indexed fs b hfile' loc))
    | index d hindex =>
      have hsame : loc = d ++ [indexName] := by simpa using h
      exact .indexLeft d hindex hfile (hsame ▸ hloc)
    | listing d hd hdir hnone => simp at h
    | nothing hfile' hdir => simp at h
  | index d hindex =>
    cases hy with
    | file loc hloc hfile =>
      have hsame : d ++ [indexName] = loc := by simpa using h
      exact .indexRight d hindex hfile (hsame ▸ hloc)
    | index d' hindex' =>
      have hsame : d = d' := by simpa using h
      subst hsame
      exact samePlace_of_place fs a b d hindex.resolve hindex'.resolve
        (iff_of_true hindex hindex')
    | listing d' hd hdir hnone => simp at h
    | nothing hfile hdir => simp at h
  | listing d hd hdir hnone =>
    cases hy with
    | file loc hloc hfile => simp at h
    | index d' hindex => simp at h
    | listing d' hd' hdir' hnone' =>
      have hsame : d = d' := by simpa using h
      subst hsame
      exact samePlace_of_place fs a b d hd hd' (iff_of_false hnone hnone')
    | nothing hfile hdir' => simp at h
  | nothing hfile hdir =>
    cases hy with
    | file loc hloc hfile' => simp at h
    | index d hindex => simp at h
    | listing d hd hdir' hnone => simp at h
    | nothing hfile' hdir' =>
      exact .nothing (not_or.mpr ⟨hfile, hdir⟩) (not_or.mpr ⟨hfile', hdir'⟩)

theorem leads_of_samePlace (fs : Snapshot) (a b : Bytes) (x y : Option Served)
    (hx : Leads fs a x) (hy : Leads fs b y) (h : SamePlace fs a b) : x = y := by
  cases h with
  | nothing ha hb =>
    have hnone := Leads.nothing (not_or.mp ha).1 (not_or.mp ha).2
    have hnone' := Leads.nothing (not_or.mp hb).1 (not_or.mp hb).2
    rw [leads_functional fs a x none hx hnone, leads_functional fs b y none hy hnone']
  | place hloc hindex =>
    exact leads_functional fs b x y (leads_congr fs a b x hx hloc hindex) hy
  | indexRight d ha hb hloc =>
    have hfile := Leads.file (d ++ [indexName]) hloc hb
    rw [leads_functional fs a x _ hx (.index d ha), leads_functional fs b y _ hy hfile]
  | indexLeft d hb ha hloc =>
    have hfile := Leads.file (d ++ [indexName]) hloc ha
    rw [leads_functional fs a x _ hx hfile, leads_functional fs b y _ hy (.index d hb)]

/-- Paths with the same outcome are those that lead to the same place. -/
theorem leads_same_iff (fs : Snapshot) (a b : Bytes) (x y : Option Served) (hx : Leads fs a x)
    (hy : Leads fs b y) : x = y ↔ SamePlace fs a b :=
  ⟨samePlace_of_leads fs a b x y hx hy, leads_of_samePlace fs a b x y hx hy⟩

/-- The same file or directory is found with two paths exactly when they lead to one place. -/
theorem resource_same_iff (fs : Snapshot) (a b : Bytes) :
    (resource fs a).map (FilesystemResource.served fs) =
        (resource fs b).map (FilesystemResource.served fs) ↔ SamePlace fs a b := by
  obtain ⟨x, hx⟩ := leads_exists fs a
  obtain ⟨y, hy⟩ := leads_exists fs b
  rw [leads_value fs a x hx, leads_value fs b y hy]
  exact leads_same_iff fs a b x y hx hy

end FilesystemFactory
end HttpCpp
