import HttpCpp.Filesystem.Listing
import HttpCpp.Filesystem.Place

namespace HttpCpp

open FilesystemFactory

/-- What a website shows at a place: a file, or what is in a directory without an index. -/
inductive Page where
  | file (content : Bytes)
  | listing (directories files : List Bytes)

/-- The body of a page. -/
def Page.text : Page → Bytes
  | .file content => content
  | .listing directories files =>
    directories.flatMap (fun filename => lit "[DIR] " ++ filename ++ CRLF) ++
      files.flatMap (fun filename => lit "[FILE] " ++ filename ++ CRLF)

/-- The length that is told of a page: that of a file, and none of a listing. -/
def Page.lengthText : Page → Bytes
  | .file content => decimalText content.length
  | .listing _ _ => []

namespace FsNode

def page : FsNode → Option Page
  | .regular content _ => some (.file content)
  | .directory entries =>
    match Assoc.find indexName entries with
    | some (.regular content _) => some (.file content)
    | _ => some (.listing ((entries.filter (·.2.isDirectory)).map Prod.fst)
        ((entries.filter (·.2.isRegularFile)).map Prod.fst))
  | .other => none

/-- A tree of directories and regular files, with names as a filesystem has them. -/
structure Proper (node : FsNode) : Prop where
  names : ∀ loc entries, node.at? loc = some (.directory entries) →
    ProperNames (entries.map Prod.fst)
  regular : ∀ loc, node.at? loc ≠ some .other

theorem Proper.below {node child : FsNode} (h : node.Proper) (loc : List Bytes)
    (hchild : node.at? loc = some child) : child.Proper where
  names := by
    intro rest entries hat
    apply h.names (loc ++ rest)
    rw [at?_append, hchild, Option.bind_some, hat]
  regular := by
    intro rest hat
    apply h.regular (loc ++ rest)
    rw [at?_append, hchild, Option.bind_some, hat]

end FsNode

/-- The length that is told of a resource: that of a file, and none of a listing. -/
def FilesystemResource.lengthText (env : ResourceContext) (r : FilesystemResource) : Bytes :=
  match r with
  | .file _ => decimalText (r.content env).length
  | .listing _ => []

theorem FilesystemResource.header_lengthText (env : ResourceContext) (r : FilesystemResource) :
    (r.header env).find (lit "Content-Length") = some (r.lengthText env) := by
  rw [header_contentLength]
  cases r <;> rfl

/-- A name as it can stand between slashes. -/
structure PlainName (name : Bytes) : Prop where
  down : component name = .down name
  slashless : slash ∉ name
  nonzero : NUL ∉ name

/-- The absolute path of a place below a website. -/
def uriOf (names : List Bytes) : Bytes := slash :: [slash].intercalate names

theorem intercalate_nonzero (names : List Bytes) (h : ∀ name ∈ names, PlainName name) :
    NUL ∉ [slash].intercalate names := by
  have hslash : NUL ≠ slash := by decide
  induction names with
  | nil => exact List.not_mem_nil
  | cons name names ih =>
    obtain ⟨hname, hrest⟩ := List.forall_mem_cons.mp h
    cases names with
    | nil => simpa [List.intercalate] using hname.nonzero
    | cons next names =>
      have htail := ih hrest
      simp only [List.intercalate, List.intersperse_cons_cons, List.flatten_cons, List.mem_append,
        not_or] at htail ⊢
      exact ⟨hname.nonzero, by simpa using hslash, htail⟩

/-- The components of such a path are the names again. -/
theorem components_uriOf (names : List Bytes) (hne : names ≠ [])
    (h : ∀ name ∈ names, PlainName name) : components ((uriOf names).drop 1) = names := by
  show components ([slash].intercalate names) = names
  rw [components, cString_self _ (intercalate_nonzero names h)]
  exact List.splitOn_intercalate _ (fun name hname => (h name hname).slashless) hne

namespace Snapshot

/-- Resolution goes down into what is there. -/
theorem walk_down (fs : Snapshot) (names loc : List Bytes)
    (h : ∀ name ∈ names, component name = .down name)
    (hloc : (fs.root.at? loc).isSome) :
    fs.walk names loc =
      if (fs.root.at? (loc ++ names)).isSome then some (loc ++ names) else none := by
  induction names generalizing loc with
  | nil => simp [walk, hloc]
  | cons name names ih =>
    obtain ⟨hname, hrest⟩ := List.forall_mem_cons.mp h
    have hnext : (component name).go loc = loc ++ [name] := by rw [hname]; rfl
    have hassoc : loc ++ name :: names = (loc ++ [name]) ++ names := by simp
    simp only [walk, hnext]
    by_cases hchild : (fs.root.at? (loc ++ [name])).isSome
    · have hdir : (fs.root.at? loc).any FsNode.isDirectory := by
        rw [FsNode.at?_append] at hchild
        cases hnode : fs.root.at? loc with
        | none => simp [hnode] at hchild
        | some node =>
          cases node with
          | directory entries => rfl
          | regular content time => simp [hnode, FsNode.at?] at hchild
          | other => simp [hnode, FsNode.at?] at hchild
      rw [if_pos ⟨hdir, hchild⟩, ih _ hrest hchild, hassoc]
    · have hnone : fs.root.at? (loc ++ name :: names) = none := by
        rw [hassoc, FsNode.at?_append, Option.not_isSome_iff_eq_none.mp hchild, Option.bind_none]
      simp [hchild, hnone]

end Snapshot

namespace FilesystemFactory

variable {fs : Snapshot} {virtualPath : Bytes} {d : List Bytes} {site : FsNode}

/-- A website in a directory, by the path it was connected with and the tree behind it. -/
structure SiteAt (fs : Snapshot) (virtualPath : Bytes) (d : List Bytes) (site : FsNode) :
    Prop where
  resolve : fs.resolve virtualPath = some d
  nonzero : NUL ∉ virtualPath
  root : fs.root.at? d = some site
  directory : site.isDirectory = true
  proper : site.Proper

/-- The path of a place leads to the place. -/
theorem SiteAt.resolve_uriOf (h : SiteAt fs virtualPath d site) (names : List Bytes)
    (hnames : ∀ name ∈ names, PlainName name) : fs.resolve (virtualPath ++ uriOf names) =
      if (site.at? names).isSome then some (d ++ names) else none := by
  have hnamed : cString virtualPath ≠ [] := by
    intro hempty
    have hnone := h.resolve
    simp [Snapshot.resolve, hempty] at hnone
  have hat : fs.root.at? (d ++ names) = site.at? names := by
    rw [FsNode.at?_append, h.root, Option.bind_some]
  rw [resolve_uri fs virtualPath _ hnamed rfl, h.resolve, Option.bind_some, uriComponents,
    if_neg h.nonzero]
  by_cases hne : names = []
  · subst hne
    have hdir : (fs.root.at? d).any FsNode.isDirectory := by rw [h.root]; exact h.directory
    have hself : site.at? [] = some site := by cases site <;> rfl
    rw [hself, List.append_nil]
    exact walk_empty_component fs d hdir
  · rw [components_uriOf names hne hnames,
      fs.walk_down names d (fun name hname => (hnames name hname).down) (by rw [h.root]; rfl), hat]

theorem SiteAt.status_uriOf (h : SiteAt fs virtualPath d site) (names : List Bytes)
    (hnames : ∀ name ∈ names, PlainName name) :
    fs.status (virtualPath ++ uriOf names) = site.at? names := by
  rw [Snapshot.status, h.resolve_uriOf names hnames]
  split_ifs with hsome
  · rw [Option.bind_some, FsNode.at?_append, h.root, Option.bind_some]
  · rw [Option.bind_none, Option.not_isSome_iff_eq_none.mp hsome]

/-- What stands under a name in a directory. -/
theorem status_entry (fs : Snapshot) (path : Bytes) (hzero : NUL ∉ path)
    (entries : List (Bytes × FsNode)) (hstatus : fs.status path = some (.directory entries))
    (name : Bytes) (hname : PlainName name) :
    fs.status (closeDirectory path ++ name) = Assoc.find name entries := by
  obtain ⟨loc, hloc, hat⟩ := Option.bind_eq_some_iff.mp hstatus
  have hcomponents : components name = [name] := by
    rw [components, cString_self name hname.nonzero, List.splitOn_eq_singleton hname.slashless]
  have hentry : fs.root.at? (loc ++ [name]) = Assoc.find name entries := by
    rw [FsNode.at?_append, hat, Option.bind_some]
    cases hfind : Assoc.find name entries <;> simp [FsNode.at?, hfind]
  rw [Snapshot.status, resolve_entry fs path name loc hloc hzero, hcomponents,
    fs.walk_down [name] loc (List.forall_mem_singleton.mpr hname.down) (by rw [hat]; rfl), hentry]
  cases hfind : Assoc.find name entries with
  | none => rfl
  | some node => rw [Option.isSome_some, if_pos rfl, Option.bind_some, hentry, hfind]

theorem filter_names (entries : List (Bytes × FsNode)) (keep : Bytes → Bool)
    (keepNode : FsNode → Bool) (h : ∀ e ∈ entries, keep e.1 = keepNode e.2) :
    (entries.map Prod.fst).filter keep =
      (entries.filter fun e => keepNode e.2).map Prod.fst := by
  rw [List.filter_map]
  congr 1
  exact List.filter_congr h

/-- The text of a listing, by what is in the directory. -/
theorem listingContent_entries (fs : Snapshot) (path : Bytes) (hzero : NUL ∉ path)
    (entries : List (Bytes × FsNode)) (hstatus : fs.status path = some (.directory entries))
    (hnames : ProperNames (entries.map Prod.fst)) (hregular : ∀ e ∈ entries, e.2 ≠ .other) :
    FilesystemResource.listingContent fs (closeDirectory path) =
      Page.text (.listing ((entries.filter (·.2.isDirectory)).map Prod.fst)
        ((entries.filter (·.2.isRegularFile)).map Prod.fst)) := by
  have hnode : ∀ e ∈ entries, fs.status (closeDirectory path ++ e.1) = some e.2 := by
    intro e he
    have hin : e.1 ∈ entries.map Prod.fst := List.mem_map_of_mem he
    rw [status_entry fs path hzero entries hstatus e.1
      ⟨hnames.down _ hin, (hnames.plain _ hin).1, (hnames.plain _ hin).2⟩]
    exact Assoc.find_of_mem e.1 e.2 entries hnames.distinct he
  have hclosed : fs.directoryEntries (closeDirectory path) = entries.map Prod.fst := by
    obtain ⟨loc, hloc, hat⟩ := Option.bind_eq_some_iff.mp hstatus
    have hdir : fs.isDirectory path := by rw [Snapshot.isDirectory, hstatus]; rfl
    rw [Snapshot.directoryEntries, Snapshot.status, resolve_closeDirectory fs path loc hloc hdir,
      Option.bind_some, hat]
  have hdirectories := filter_names entries
    (fun filename => fs.isDirectory (closeDirectory path ++ filename)) FsNode.isDirectory
    (fun e he => by simp only [Snapshot.isDirectory, hnode e he, Option.any_some])
  have hfiles := filter_names entries
    (fun filename => fs.isRegularFile (closeDirectory path ++ filename)) FsNode.isRegularFile
    (fun e he => by simp only [Snapshot.isRegularFile, hnode e he, Option.any_some])
  have hothers : (entries.map Prod.fst).filter (fun filename =>
      !fs.isDirectory (closeDirectory path ++ filename) &&
        !fs.isRegularFile (closeDirectory path ++ filename)) = [] := by
    rw [List.filter_eq_nil_iff, List.forall_mem_map]
    intro e he
    have hkind := hregular e he
    simp only [Snapshot.isDirectory, Snapshot.isRegularFile, hnode e he, Option.any_some]
    cases hcase : e.2 with
    | regular content time => simp [FsNode.isRegularFile]
    | directory entries => simp [FsNode.isDirectory]
    | other => exact absurd hcase hkind
  simp only [FilesystemResource.listingContent, hclosed, hdirectories, hfiles, hothers,
    List.flatMap_nil, List.nil_append, Page.text]

/-- What is told of a resource, or of a page: the body of a GET and the length. -/
def shown (env : ResourceContext) (r : FilesystemResource) : Bytes × Bytes :=
  (r.content env, r.lengthText env)

theorem shown_file (env : ResourceContext) (path content : Bytes) (time : Int)
    (hstatus : env.fs.status path = some (.regular content time)) :
    shown env (.file path) = (content, decimalText content.length) := by
  have hcontent : FilesystemResource.content env (.file path) = content := by
    rw [FilesystemResource.content, ResourceContext.fileAt, hstatus, Option.getD_some]
  rw [shown, FilesystemResource.lengthText, hcontent]

/-- A directory is shown as its index, or else listed. -/
theorem directory_shown (env : ResourceContext) (path : Bytes) (hzero : NUL ∉ path)
    (entries : List (Bytes × FsNode)) (hproper : (FsNode.directory entries).Proper)
    (hstatus : env.fs.status path = some (.directory entries)) :
    (resource env.fs path).map (shown env) =
      (FsNode.directory entries).page.map fun page => (page.text, page.lengthText) := by
  have hindexName : PlainName indexName := by
    refine ⟨?_, ?_, ?_⟩ <;> decide
  have hindex : env.fs.status (indexPath path) = Assoc.find indexName entries :=
    status_entry env.fs path hzero entries hstatus indexName hindexName
  have hfile : ¬env.fs.isRegularFile path = true := by
    simp [Snapshot.isRegularFile, hstatus, FsNode.isRegularFile]
  have hdir : env.fs.isDirectory path = true := by
    simp [Snapshot.isDirectory, hstatus, FsNode.isDirectory]
  have hself : FsNode.at? (.directory entries) [] = some (.directory entries) := rfl
  have hregular : ∀ e ∈ entries, e.2 ≠ .other := by
    intro e he hother
    apply hproper.regular [e.1]
    have hfind := Assoc.find_of_mem e.1 e.2 entries (hproper.names [] entries hself).distinct he
    simp [FsNode.at?, hfind, hother]
  have hlisting := listingContent_entries env.fs path hzero entries hstatus
    (hproper.names [] entries hself) hregular
  rw [resource, if_neg hfile, if_pos hdir, FsNode.page]
  simp only [Snapshot.fileExists, Snapshot.isDirectory, hindex]
  cases hfind : Assoc.find indexName entries with
  | none => simp [shown, FilesystemResource.content, FilesystemResource.lengthText, hlisting,
      Page.lengthText]
  | some node =>
    cases node with
    | regular content time =>
      have hshown := shown_file env (indexPath path) content time (hindex.trans hfind)
      simp [FsNode.isDirectory, hshown, Page.text, Page.lengthText]
    | directory inner => simp [FsNode.isDirectory, shown, FilesystemResource.content,
        FilesystemResource.lengthText, hlisting, Page.lengthText]
    | other => exact absurd rfl (hregular _ (Assoc.find_mem _ _ _ hfind))

/-- What the paths of a website show is what is in its tree. -/
theorem SiteAt.resource_page {env : ResourceContext} (h : SiteAt env.fs virtualPath d site)
    (names : List Bytes) (hnames : ∀ name ∈ names, PlainName name) :
    (resource env.fs (virtualPath ++ uriOf names)).map (shown env) =
      ((site.at? names).bind FsNode.page).map fun page => (page.text, page.lengthText) := by
  have hstatus := h.status_uriOf names hnames
  have hzero : NUL ∉ virtualPath ++ uriOf names := by
    have hslash : NUL ≠ slash := by decide
    simp only [uriOf, List.mem_append, List.mem_cons, not_or]
    exact ⟨h.nonzero, hslash, intercalate_nonzero names hnames⟩
  cases hat : site.at? names with
  | none =>
    rw [hat] at hstatus
    simp [resource, Snapshot.isRegularFile, Snapshot.isDirectory, hstatus]
  | some node =>
    rw [hat] at hstatus
    cases node with
    | regular content time =>
      have hfile : env.fs.isRegularFile (virtualPath ++ uriOf names) = true := by
        simp [Snapshot.isRegularFile, hstatus, FsNode.isRegularFile]
      have hshown := shown_file env _ content time hstatus
      simp [resource, hfile, hshown, FsNode.page, Page.text, Page.lengthText]
    | directory entries =>
      rw [Option.bind_some]
      exact directory_shown env _ hzero entries (h.proper.below names hat) hstatus
    | other => exact absurd hat (h.proper.regular names)

end FilesystemFactory

end HttpCpp
