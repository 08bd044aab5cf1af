import HttpCpp.Filesystem.ResourceFactory
import HttpCpp.Service.Host

namespace HttpCpp

/-- The path names a place in the directory or below. -/
def Snapshot.Inside (fs : Snapshot) (directory path : Bytes) : Prop :=
  ∃ d loc, fs.resolve directory = some d ∧ fs.resolve path = some loc ∧ d <+: loc

namespace FilesystemFactory

/-- The components a Request-URI adds to the path of the website. -/
def uriComponents (virtualPath uri : Bytes) : List Bytes :=
  if NUL ∈ virtualPath then [] else components (uri.drop 1)

/-- The Request-URI rises above the website at most to come down into it again. -/
def StaysInside (fs : Snapshot) (virtualPath uri : Bytes) : Prop :=
  ∃ d, fs.resolve virtualPath = some d ∧
    Excursion.Returns d (Excursion.of ((uriComponents virtualPath uri).map component))

theorem resolve_uri (fs : Snapshot) (virtualPath uri : Bytes) (hnamed : cString virtualPath ≠ [])
    (hlead : uri.head? = some slash) : fs.resolve (virtualPath ++ uri) =
      (fs.resolve virtualPath).bind (fs.walk (uriComponents virtualPath uri)) := by
  obtain ⟨rel, rfl⟩ := List.head?_eq_some_iff.mp hlead
  by_cases hzero : NUL ∈ virtualPath
  · have hsame : cString (virtualPath ++ slash :: rel) = cString virtualPath := by
      rw [cString_append, if_pos hzero]
    rw [fs.resolve_congr _ _ hsame, uriComponents, if_pos hzero]
    cases fs.resolve virtualPath <;> rfl
  · have hne := cString_named virtualPath hnamed
    rw [fs.resolve_below virtualPath rel hzero hne, uriComponents, if_neg hzero]
    rfl

/-- Whether a resolved path is inside is decided by its components. -/
theorem inside_uri_iff (fs : Snapshot) (virtualPath uri : Bytes)
    (hnamed : cString virtualPath ≠ []) (hlead : uri.head? = some slash) (loc : List Bytes)
    (hloc : fs.resolve (virtualPath ++ uri) = some loc) :
    fs.Inside virtualPath (virtualPath ++ uri) ↔ StaysInside fs virtualPath uri := by
  rw [resolve_uri fs virtualPath uri hnamed hlead] at hloc
  obtain ⟨d, hd, hwalk⟩ := Option.bind_eq_some_iff.mp hloc
  have hplace := fs.walk_some _ d loc hwalk
  simp only [Snapshot.Inside, StaysInside, resolve_uri fs virtualPath uri hnamed hlead, hd,
    Option.bind_some, hwalk, Option.some.injEq, exists_and_left, exists_eq_left', hplace]
  exact Excursion.prefix_walk_iff d _

theorem resolved_directory (fs : Snapshot) (path : Bytes) (loc : List Bytes)
    (hloc : fs.resolve path = some loc) :
    fs.isDirectory path = (fs.root.at? loc).any FsNode.isDirectory := by
  rw [Snapshot.isDirectory, Snapshot.status, hloc, Option.bind_some]

theorem resolved_ne_nil (fs : Snapshot) (path : Bytes) (loc : List Bytes)
    (hloc : fs.resolve path = some loc) : path ≠ [] := by
  intro h
  subst h
  simp [Snapshot.resolve, cString] at hloc

theorem walk_empty_component (fs : Snapshot) (loc : List Bytes)
    (hdir : (fs.root.at? loc).any FsNode.isDirectory) : fs.walk [[]] loc = some loc := by
  have hsome : (fs.root.at? loc).isSome := by
    cases h : fs.root.at? loc with
    | none => simp [h] at hdir
    | some node => rfl
  simp only [Snapshot.walk, component, true_or, if_true, Move.go, hdir, hsome, and_self]

theorem resolve_closeDirectory (fs : Snapshot) (path : Bytes) (loc : List Bytes)
    (hloc : fs.resolve path = some loc) (hdir : fs.isDirectory path) :
    fs.resolve (closeDirectory path) = some loc := by
  rw [closeDirectory]
  split_ifs with hlast
  · by_cases hzero : NUL ∈ path
    · have hsame : cString (path ++ lit "/") = cString path := by rw [cString_append, if_pos hzero]
      rw [fs.resolve_congr _ _ hsame, hloc]
    · have hcomponents : components [] = [[]] := rfl
      have hbelow := fs.resolve_below path [] hzero (resolved_ne_nil fs path loc hloc)
      rw [resolved_directory fs path loc hloc] at hdir
      rw [hloc, Option.bind_some, hcomponents, walk_empty_component fs loc hdir] at hbelow
      exact hbelow
  · exact hloc

/-- What follows the path of a directory is looked up in the directory. -/
theorem resolve_entry (fs : Snapshot) (path name : Bytes) (loc : List Bytes)
    (hloc : fs.resolve path = some loc) (hzero : NUL ∉ path) :
    fs.resolve (closeDirectory path ++ name) = fs.walk (components name) loc := by
  rw [closeDirectory]
  split_ifs with hlast
  · have hbelow := fs.resolve_below path name hzero (resolved_ne_nil fs path loc hloc)
    rw [hloc, Option.bind_some] at hbelow
    rw [List.append_assoc]
    exact hbelow
  · rw [not_not] at hlast
    obtain ⟨dir, rfl⟩ := List.getLast?_eq_some_iff.mp hlast
    have hdir : NUL ∉ dir := fun h => hzero (List.mem_append_left _ h)
    rw [fs.resolve_slash dir [] hdir] at hloc
    obtain ⟨d, hd, hwalk⟩ := Option.bind_eq_some_iff.mp hloc
    have hplace : loc = d := fs.walk_some _ d loc hwalk
    rw [List.append_assoc]
    show fs.resolve (dir ++ slash :: name) = _
    rw [fs.resolve_slash dir _ hdir, hd, Option.bind_some, hplace]

/-- The index of a directory is looked up in the directory. -/
theorem resolve_indexPath (fs : Snapshot) (path : Bytes) (loc : List Bytes)
    (hloc : fs.resolve path = some loc) (hzero : NUL ∉ path) :
    fs.resolve (indexPath path) = fs.walk [lit "index.html"] loc := by
  have hindex : components (lit "index.html") = [lit "index.html"] := by decide
  rw [indexPath, resolve_entry fs path _ loc hloc hzero, hindex]

/-- Past a zero byte no index is looked up, and the path names its directory again. -/
theorem index_nonzero (fs : Snapshot) (path : Bytes) (hdir : fs.isDirectory path)
    (hfile : ¬fs.isDirectory (indexPath path)) : NUL ∉ path := by
  intro hzero
  have hsame : cString (indexPath path) = cString path := by
    rw [indexPath, closeDirectory]
    split_ifs <;> simp [cString_append, hzero]
  rw [Snapshot.isDirectory, Snapshot.status, fs.resolve_congr _ _ hsame] at hfile
  exact hfile hdir

/-- An index that is built stands in the directory of the path. -/
theorem resolve_index_built (fs : Snapshot) (path : Bytes) (loc : List Bytes)
    (hloc : fs.resolve path = some loc) (hdir : fs.isDirectory path)
    (hindex : fs.fileExists (indexPath path)) (hfile : ¬fs.isDirectory (indexPath path)) :
    fs.resolve (indexPath path) = some (loc ++ [lit "index.html"]) := by
  have hzero := index_nonzero fs path hdir hfile
  have hresolve := resolve_indexPath fs path loc hloc hzero
  rw [Snapshot.fileExists, Snapshot.status, hresolve] at hindex
  cases hwalk : fs.walk [lit "index.html"] loc with
  | none => simp [hwalk] at hindex
  | some end_ =>
    rw [hresolve, hwalk, fs.walk_some _ loc end_ hwalk]
    rfl

theorem resource_resolved (fs : Snapshot) (path : Bytes) (r : FilesystemResource)
    (hr : resource fs path = some r) : ∃ loc, fs.resolve path = some loc := by
  cases hloc : fs.resolve path with
  | none =>
    simp [resource, Snapshot.isRegularFile, Snapshot.isDirectory, Snapshot.status, hloc] at hr
  | some loc => exact ⟨loc, rfl⟩

/-- The website's own directory is a directory when something below it resolves. -/
theorem website_directory (fs : Snapshot) (virtualPath uri : Bytes)
    (hnamed : cString virtualPath ≠ []) (hlead : uri.head? = some slash) (loc d : List Bytes)
    (hloc : fs.resolve (virtualPath ++ uri) = some loc) (hd : fs.resolve virtualPath = some d)
    (hdir : fs.isDirectory (virtualPath ++ uri)) :
    (fs.root.at? d).any FsNode.isDirectory := by
  have hwalk := hloc
  rw [resolve_uri fs virtualPath uri hnamed hlead, hd, Option.bind_some] at hwalk
  by_cases hzero : NUL ∈ virtualPath
  · rw [uriComponents, if_pos hzero] at hwalk
    have hplace : loc = d := fs.walk_some _ d loc hwalk
    rwa [resolved_directory fs _ loc hloc, hplace] at hdir
  · rw [uriComponents, if_neg hzero] at hwalk
    exact fs.walk_directory _ d loc (List.splitOn_ne_nil _ _) hwalk

theorem resource_none_iff (fs : Snapshot) (path : Bytes) :
    resource fs path = none ↔ ¬(fs.isRegularFile path ∨ fs.isDirectory path) := by
  simp only [resource]
  split_ifs with hfile hdir hindex <;> simp [*]

/-- All three kinds of resource are inside when the path they were built for is. -/
theorem resource_inside_iff (fs : Snapshot) (virtualPath uri : Bytes)
    (hnamed : cString virtualPath ≠ []) (hlead : uri.head? = some slash) (r : FilesystemResource)
    (hr : resource fs (virtualPath ++ uri) = some r) :
    fs.Inside virtualPath r.requestUri ↔ fs.Inside virtualPath (virtualPath ++ uri) := by
  obtain ⟨loc, hloc⟩ := resource_resolved fs _ r hr
  simp only [resource] at hr
  split_ifs at hr with hfile hdir hindex
  · obtain rfl := Option.some.inj hr
    rfl
  · obtain rfl := Option.some.inj hr
    have hplace := resolve_index_built fs _ loc hloc hdir hindex.1 hindex.2
    simp only [Snapshot.Inside, FilesystemResource.requestUri, hplace, hloc, Option.some.injEq,
      exists_and_left, exists_eq_left']
    apply exists_congr
    intro d
    apply and_congr_right
    intro hd
    rw [List.prefix_concat_iff, or_iff_right]
    intro heq
    have hdirectory := website_directory fs virtualPath uri hnamed hlead loc d hloc hd hdir
    have hnot := hindex.2
    rw [resolved_directory fs _ _ hplace, ← heq] at hnot
    exact hnot hdirectory
  · obtain rfl := Option.some.inj hr
    simp only [Snapshot.Inside, FilesystemResource.requestUri,
      resolve_closeDirectory fs _ loc hloc hdir, hloc]

/-- What the factory builds for an absolute path lies in the website exactly when the path leads to
no file or directory or its components stay inside. -/
theorem createHandle_contained_iff (bld : Build) (fs₀ fs : Snapshot)
    (servicePath virtualPath : Bytes)
    (hbuilt : createResourceFactory fs₀ servicePath = .ok (.filesystem virtualPath))
    (request : HttpRequest) (huri : HttpService.AbsolutePath request.requestUri) :
    (∀ r, createHandle bld fs virtualPath request.toGeneric = .ok (some r) →
      fs.Inside virtualPath r.requestUri) ↔
    ¬(fs.isRegularFile (virtualPath ++ request.requestUri) ∨
        fs.isDirectory (virtualPath ++ request.requestUri)) ∨
      StaysInside fs virtualPath request.requestUri := by
  have hnamed := createResourceFactory_named fs₀ servicePath virtualPath hbuilt
  have hlead := HttpService.absolutePath_leading _ huri
  have hne : virtualPath ++ request.toGeneric.requestUri ≠ [] :=
    List.append_ne_nil_of_left_ne_nil (cString_named virtualPath hnamed) _
  rw [createHandle_eq bld fs virtualPath request.toGeneric hne]
  show (∀ r, Except.ok (resource fs (virtualPath ++ request.requestUri)) = _ → _) ↔ _
  simp only [Except.ok.injEq]
  rw [← resource_none_iff]
  cases hr : resource fs (virtualPath ++ request.requestUri) with
  | none => simp
  | some r =>
    obtain ⟨loc, hloc⟩ := resource_resolved fs _ r hr
    simp only [Option.some.injEq, forall_eq', reduceCtorEq, false_or]
    rw [resource_inside_iff fs virtualPath _ hnamed hlead r hr,
      inside_uri_iff fs virtualPath _ hnamed hlead loc hloc]

/-- A website in `/srv/www` beside a file `/srv/secret`. -/
def sampleSnapshot : Snapshot where
  root := .directory [(lit "srv", .directory [(lit "secret", .regular (lit "key") 0),
    (lit "www", .directory [(lit "index.html", .regular (lit "hello") 0)])])]
  cwd := []
  cwdDirectory := rfl

theorem createHandle_contained_index :
    sampleSnapshot.Inside (lit "/srv/www") (lit "/srv/www/index.html") :=
  (createHandle_contained_iff plainBuild sampleSnapshot sampleSnapshot (lit "/srv/www")
    (lit "/srv/www") (by decide)
    { HttpRequest.fresh .mGet with requestUri := lit "/" } (by decide)).mpr
    (Or.inr ⟨[lit "srv", lit "www"], by decide, by decide⟩)
    (.file (lit "/srv/www/index.html")) (by decide)

/-- A request for the file `../secret` of a website. -/
def parentRequest : HttpRequest :=
  { HttpRequest.fresh .mGet with
    requestUri := lit "/../secret"
    requestHeader := StdMap.empty.emplace (lit "Host") (lit "a") }

/-- Two dots lead out of the website to a file beside it. -/
theorem parent_file_served :
    HttpService.extractHost parentRequest = .ok ⟨lit "a", 80⟩ ∧
      createHandle plainBuild sampleSnapshot (lit "/srv/www") parentRequest.toGeneric =
        .ok (some (.file (lit "/srv/www/../secret"))) ∧
      ¬sampleSnapshot.Inside (lit "/srv/www") (lit "/srv/www/../secret") := by
  refine ⟨by decide, by decide, ?_⟩
  have hdirectory : sampleSnapshot.resolve (lit "/srv/www") = some [lit "srv", lit "www"] := by
    decide
  have hpath : sampleSnapshot.resolve (lit "/srv/www/../secret") =
      some [lit "srv", lit "secret"] := by decide
  simp only [Snapshot.Inside, hdirectory, hpath, Option.some.injEq, exists_and_left,
    exists_eq_left']
  decide

end FilesystemFactory

end HttpCpp
