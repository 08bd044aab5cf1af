import HttpCpp.Filesystem.Containment
import HttpCpp.Filesystem.Listing
import HttpCpp.Filesystem.Place

namespace HttpCpp

/-- Two file trees with the same below a place, whatever lies beside it. -/
structure Snapshot.SameBelow (fs fs' : Snapshot) (d : List Bytes) : Prop where
  below : fs.root.at? d = fs'.root.at? d
  present : (fs.root.at? d).isSome

namespace Snapshot.SameBelow

variable {fs fs' : Snapshot} {d : List Bytes}

theorem symm (h : SameBelow fs fs' d) : SameBelow fs' fs d := ⟨h.below.symm, h.below ▸ h.present⟩

theorem at_below (h : SameBelow fs fs' d) (loc : List Bytes) (hloc : d <+: loc) :
    fs.root.at? loc = fs'.root.at? loc := by
  obtain ⟨rest, rfl⟩ := hloc
  rw [FsNode.at?_append, FsNode.at?_append, h.below]

/-- A place above one that is there is a directory. -/
theorem directory_above (fs : Snapshot) (loc : List Bytes) (name : Bytes) (rest : List Bytes)
    (h : (fs.root.at? (loc ++ name :: rest)).isSome) :
    (fs.root.at? loc).any FsNode.isDirectory = true ∧ (fs.root.at? loc).isSome = true := by
  rw [FsNode.at?_append] at h
  cases hloc : fs.root.at? loc with
  | none => simp [hloc] at h
  | some node =>
    cases node with
    | regular content time => simp [hloc, FsNode.at?] at h
    | directory entries => exact ⟨rfl, rfl⟩
    | other => simp [hloc, FsNode.at?] at h

/-- Above the place and below it, the same is there as far as the resolution of a path asks. -/
theorem at_near (h : SameBelow fs fs' d) (loc : List Bytes) (hloc : loc <+: d ∨ d <+: loc) :
    (fs.root.at? loc).any FsNode.isDirectory = (fs'.root.at? loc).any FsNode.isDirectory ∧
      (fs.root.at? loc).isSome = (fs'.root.at? loc).isSome := by
  rcases hloc with ⟨rest, hd⟩ | hbelow
  · cases rest with
    | nil =>
      rw [List.append_nil] at hd
      rw [hd, h.below]
      exact ⟨rfl, rfl⟩
    | cons name rest =>
      obtain ⟨hdir, hsome⟩ := directory_above fs loc name rest (hd ▸ h.present)
      obtain ⟨hdir', hsome'⟩ := directory_above fs' loc name rest (hd ▸ h.symm.present)
      rw [hdir, hdir', hsome, hsome']
      exact ⟨rfl, rfl⟩
  · rw [h.at_below loc hbelow]
    exact ⟨rfl, rfl⟩

/-- The resolution of components that keep to the place takes the same way. -/
theorem walk (h : SameBelow fs fs' d) (names loc : List Bytes)
    (hkeeps : Move.Keeps d loc (names.map component)) : fs.walk names loc = fs'.walk names loc := by
  induction names generalizing loc with
  | nil => rfl
  | cons name names ih =>
    obtain ⟨hloc, hrest⟩ := hkeeps
    have hnext : (component name).go loc <+: d ∨ d <+: (component name).go loc := by
      cases names with
      | nil => exact Or.inr hrest
      | cons next names => exact hrest.1
    simp only [Snapshot.walk, (h.at_near loc hloc).1, (h.at_near _ hnext).2, ih _ hrest]

theorem walk_down (h : SameBelow fs fs' d) (name : Bytes) (loc : List Bytes) (hloc : d <+: loc)
    (hname : component name ≠ .up) : fs.walk [name] loc = fs'.walk [name] loc := by
  apply h.walk
  apply Move.keeps_of_down d loc _ hloc
  simpa using hname

end Snapshot.SameBelow

/-- What two contexts have in common for a website: its directory and what the libraries say of the
paths into it. -/
structure ResourceContext.SameFor (env env' : ResourceContext) (virtualPath : Bytes)
    (d : List Bytes) : Prop where
  resolve : env.fs.resolve virtualPath = some d
  resolve' : env'.fs.resolve virtualPath = some d
  below : env.fs.SameBelow env'.fs d
  localtime : env.localtime = env'.localtime
  special : ∀ path loc, env.fs.resolve path = some loc → env'.fs.resolve path = some loc →
    d <+: loc → env.special (cString path) = env'.special (cString path)
  types : ∀ path loc, env.fs.resolve path = some loc → env'.fs.resolve path = some loc →
    d <+: loc → env.magicFile.map (· (cString path)) = env'.magicFile.map (· (cString path))
  proper : ∀ loc entries, d <+: loc → env.fs.root.at? loc = some (.directory entries) →
    ProperNames (entries.map Prod.fst)

theorem ResourceContext.SameFor.symm {env env' : ResourceContext} {virtualPath : Bytes}
    {d : List Bytes} (h : env.SameFor env' virtualPath d) : env'.SameFor env virtualPath d where
  resolve := h.resolve'
  resolve' := h.resolve
  below := h.below.symm
  localtime := h.localtime.symm
  special := fun path loc hloc hloc' hd => (h.special path loc hloc' hloc hd).symm
  types := fun path loc hloc hloc' hd => (h.types path loc hloc' hloc hd).symm
  proper := fun loc entries hd hat =>
    h.proper loc entries hd ((h.below.at_below loc hd).trans hat)

namespace FilesystemFactory

/-- The Request-URI keeps to the directory of the website and those above it. -/
def KeepsInside (d : List Bytes) (virtualPath uri : Bytes) : Prop :=
  Move.Keeps d d ((uriComponents virtualPath uri).map component)

instance (d : List Bytes) (virtualPath uri : Bytes) : Decidable (KeepsInside d virtualPath uri) :=
  inferInstanceAs (Decidable (Move.Keeps _ _ _))

variable {env env' : ResourceContext} {virtualPath : Bytes} {d : List Bytes}

/-- The paths name one place of the website, or neither names any. -/
structure SamePaths (env env' : ResourceContext) (d : List Bytes) (path : Bytes) : Prop where
  resolve : env.fs.resolve path = env'.fs.resolve path
  inside : ∀ loc, env.fs.resolve path = some loc → d <+: loc

theorem SamePaths.status (h : env.SameFor env' virtualPath d) {path : Bytes}
    (hpath : SamePaths env env' d path) : env.fs.status path = env'.fs.status path := by
  rw [Snapshot.status, Snapshot.status, ← hpath.resolve]
  cases hloc : env.fs.resolve path with
  | none => rfl
  | some loc => exact h.below.at_below loc (hpath.inside loc hloc)

theorem samePaths_uri (h : env.SameFor env' virtualPath d) (uri : Bytes)
    (hlead : uri.head? = some slash) (hkeeps : KeepsInside d virtualPath uri) :
    SamePaths env env' d (virtualPath ++ uri) := by
  have hnamed : cString virtualPath ≠ [] := by
    intro hempty
    have hnone := h.resolve
    simp [Snapshot.resolve, hempty] at hnone
  have hresolve := resolve_uri env.fs virtualPath uri hnamed hlead
  have hresolve' := resolve_uri env'.fs virtualPath uri hnamed hlead
  rw [h.resolve, Option.bind_some] at hresolve
  rw [h.resolve', Option.bind_some, ← h.below.walk _ d hkeeps] at hresolve'
  refine ⟨hresolve.trans hresolve'.symm, ?_⟩
  intro loc hloc
  rw [env.fs.walk_some _ d loc (hresolve.symm.trans hloc)]
  exact Move.keeps_end d d _ hkeeps

/-- What is named in a directory of the website is the same in both. -/
theorem SamePaths.entry (h : env.SameFor env' virtualPath d) {path : Bytes}
    (hpath : SamePaths env env' d path) (hdir : env.fs.isDirectory path) (name : Bytes)
    (hname : component name ≠ .up) (hslash : slash ∉ name) (hzero : NUL ∉ name) :
    SamePaths env env' d (closeDirectory path ++ name) := by
  obtain ⟨loc, hloc⟩ : ∃ loc, env.fs.resolve path = some loc := by
    cases hloc : env.fs.resolve path with
    | none => simp [Snapshot.isDirectory, Snapshot.status, hloc] at hdir
    | some loc => exact ⟨loc, rfl⟩
  have hinside := hpath.inside loc hloc
  by_cases hcut : NUL ∈ path
  · have hsame : cString (closeDirectory path ++ name) = cString path := by
      rw [closeDirectory]
      split_ifs <;> simp [cString_append, hcut]
    have hresolve := env.fs.resolve_congr _ _ hsame
    have hresolve' := env'.fs.resolve_congr _ _ hsame
    refine ⟨by rw [hresolve, hresolve', hpath.resolve], ?_⟩
    intro loc' hloc'
    exact hpath.inside loc' (hresolve ▸ hloc')
  · have hcomponents : components name = [name] := by
      rw [components, cString_self name hzero, List.splitOn_eq_singleton hslash]
    have hresolve := resolve_entry env.fs path name loc hloc hcut
    have hresolve' := resolve_entry env'.fs path name loc (hpath.resolve ▸ hloc) hcut
    rw [hcomponents] at hresolve hresolve'
    rw [← h.below.walk_down name loc hinside hname] at hresolve'
    refine ⟨hresolve.trans hresolve'.symm, ?_⟩
    intro loc' hloc'
    rw [env.fs.walk_some _ loc loc' (hresolve.symm.trans hloc')]
    apply Move.keeps_end d loc
    exact Move.keeps_of_down d loc _ hinside (by simpa using hname)

theorem SamePaths.index (h : env.SameFor env' virtualPath d) {path : Bytes}
    (hpath : SamePaths env env' d path) (hdir : env.fs.isDirectory path) :
    SamePaths env env' d (indexPath path) := by
  have hname : component indexName ≠ .up ∧ slash ∉ indexName ∧ NUL ∉ indexName := by
    decide
  exact hpath.entry h hdir indexName hname.1 hname.2.1 hname.2.2

theorem SamePaths.close (h : env.SameFor env' virtualPath d) {path : Bytes}
    (hpath : SamePaths env env' d path) (hdir : env.fs.isDirectory path) :
    SamePaths env env' d (closeDirectory path) := by
  have hclosed := hpath.entry h hdir [] (by decide) List.not_mem_nil List.not_mem_nil
  rwa [List.append_nil] at hclosed

/-- The same is built for a path of the website. -/
theorem resource_same (h : env.SameFor env' virtualPath d) (path : Bytes)
    (hpath : SamePaths env env' d path) : resource env.fs path = resource env'.fs path := by
  have hstatus := hpath.status h
  have hregular : env.fs.isRegularFile path = env'.fs.isRegularFile path := by
    rw [Snapshot.isRegularFile, Snapshot.isRegularFile, hstatus]
  have hdirectory : env.fs.isDirectory path = env'.fs.isDirectory path := by
    rw [Snapshot.isDirectory, Snapshot.isDirectory, hstatus]
  by_cases hdir : env.fs.isDirectory path
  · have hindex := (hpath.index h hdir).status h
    have hexists : env.fs.fileExists (indexPath path) = env'.fs.fileExists (indexPath path) := by
      rw [Snapshot.fileExists, Snapshot.fileExists, hindex]
    have hkind : env.fs.isDirectory (indexPath path) = env'.fs.isDirectory (indexPath path) := by
      rw [Snapshot.isDirectory, Snapshot.isDirectory, hindex]
    simp only [resource, hregular, hdirectory, hexists, hkind]
  · have hdir' : ¬env'.fs.isDirectory path := hdirectory ▸ hdir
    simp only [resource, hregular, if_neg hdir, if_neg hdir']

/-- A file of the website is read alike and told alike. -/
theorem file_same (h : env.SameFor env' virtualPath d) (path : Bytes) (loc : List Bytes)
    (hpath : SamePaths env env' d path) (hloc : env.fs.resolve path = some loc) :
    FilesystemResource.content env (.file path) = FilesystemResource.content env' (.file path) ∧
      FilesystemResource.header env (.file path) = FilesystemResource.header env' (.file path) := by
  have hinside := hpath.inside loc hloc
  have hstatus := hpath.status h
  have hloc' := hpath.resolve ▸ hloc
  have hspecial := h.special path loc hloc hloc' hinside
  have htypes := h.types path loc hloc hloc' hinside
  have hfile : env.fileAt path = env'.fileAt path := by
    simp only [ResourceContext.fileAt, hstatus, hspecial]
  have htime : env.lastWriteTime path = env'.lastWriteTime path := by
    simp only [ResourceContext.lastWriteTime, hstatus, hspecial]
  have htype : FilesystemResource.getContentType env path =
      FilesystemResource.getContentType env' path := by
    simp only [FilesystemResource.getContentType]
    cases hmagic : env.magicFile with
    | none => cases hmagic' : env'.magicFile <;> simp_all
    | some magic => cases hmagic' : env'.magicFile <;> simp_all
  constructor
  · rw [FilesystemResource.content, FilesystemResource.content, hfile]
  · simp only [FilesystemResource.header, FilesystemResource.fetchResourceHeader,
      FilesystemResource.requestUri, hfile, htype, htime, ResourceContext.httpDate, h.localtime]

/-- A directory of the website is listed alike. -/
theorem listing_same (h : env.SameFor env' virtualPath d) (path : Bytes)
    (hpath : SamePaths env env' d path) (hdir : env.fs.isDirectory path) :
    FilesystemResource.listingContent env.fs (closeDirectory path) =
      FilesystemResource.listingContent env'.fs (closeDirectory path) := by
  have hclosed := hpath.close h hdir
  have hstatus := hclosed.status h
  have hentries : env.fs.directoryEntries (closeDirectory path) =
      env'.fs.directoryEntries (closeDirectory path) := by
    rw [Snapshot.directoryEntries, Snapshot.directoryEntries, hstatus]
  have hproper : ProperNames (env.fs.directoryEntries (closeDirectory path)) := by
    rw [Snapshot.directoryEntries, Snapshot.status]
    cases hloc : env.fs.resolve (closeDirectory path) with
    | none => exact ⟨List.nodup_nil, by simp, by simp⟩
    | some loc =>
      rw [Option.bind_some]
      split
      · rename_i entries hat
        exact h.proper loc entries (hclosed.inside loc hloc) hat
      · exact ⟨List.nodup_nil, by simp, by simp⟩
  have hkinds : ∀ filename ∈ env.fs.directoryEntries (closeDirectory path),
      env.fs.isDirectory (closeDirectory path ++ filename) =
          env'.fs.isDirectory (closeDirectory path ++ filename) ∧
        env.fs.isRegularFile (closeDirectory path ++ filename) =
          env'.fs.isRegularFile (closeDirectory path ++ filename) := by
    intro filename hin
    have hdown := hproper.down filename hin
    obtain ⟨hslash, hzero⟩ := hproper.plain filename hin
    have hentry := (hpath.entry h hdir filename (by simp [hdown]) hslash hzero).status h
    rw [Snapshot.isDirectory, Snapshot.isDirectory, Snapshot.isRegularFile,
      Snapshot.isRegularFile, hentry]
    exact ⟨rfl, rfl⟩
  have hfilter : ∀ (keep keep' : Bytes → Bool) (line : Bytes → Bytes),
      (∀ filename ∈ env.fs.directoryEntries (closeDirectory path),
        keep filename = keep' filename) →
      ((env.fs.directoryEntries (closeDirectory path)).filter keep).flatMap line =
        ((env.fs.directoryEntries (closeDirectory path)).filter keep').flatMap line := by
    intro keep keep' line hsame
    rw [List.filter_congr hsame]
  simp only [FilesystemResource.listingContent, ← hentries]
  refine congrArg₂ _ (congrArg₂ _ ?_ ?_) ?_
  · apply hfilter
    intro filename hin
    rw [(hkinds filename hin).1, (hkinds filename hin).2]
  · exact hfilter _ _ _ fun filename hin => (hkinds filename hin).1
  · exact hfilter _ _ _ fun filename hin => (hkinds filename hin).2

/-- Whatever is built for a path of the website has the same content and the same headers. -/
theorem resource_same_content (h : env.SameFor env' virtualPath d) (path : Bytes)
    (hpath : SamePaths env env' d path) (r : FilesystemResource)
    (hr : resource env.fs path = some r) :
    r.content env = r.content env' ∧ r.header env = r.header env' := by
  obtain ⟨loc, hloc⟩ := resource_resolved env.fs path r hr
  simp only [resource] at hr
  split_ifs at hr with hfile hdir hindex
  · obtain rfl := Option.some.inj hr
    exact file_same h path loc hpath hloc
  · obtain rfl := Option.some.inj hr
    have hplace := resolve_index_built env.fs path loc hloc hdir hindex.1 hindex.2
    exact file_same h _ _ (hpath.index h hdir) hplace
  · obtain rfl := Option.some.inj hr
    exact ⟨listing_same h path hpath hdir, rfl⟩

end FilesystemFactory

end HttpCpp
