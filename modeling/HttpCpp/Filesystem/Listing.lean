import HttpCpp.Filesystem.Containment
import HttpCpp.Filesystem.Resource

namespace HttpCpp

/-- `boost::filesystem::file_type` of what a path leads to, links followed; a dangling link leads to
nothing. -/
inductive FileType where
  | fileNotFound
  | regularFile
  | directoryFile
  | otherFile
  deriving DecidableEq

namespace FileType

def tag : FileType → Bytes
  | directoryFile => lit "[DIR] "
  | regularFile => lit "[FILE] "
  | fileNotFound | otherFile => lit "[?] "

/-- The pass of the listing that an entry is for. -/
def pass : FileType → Nat
  | fileNotFound | otherFile => 0
  | directoryFile => 1
  | regularFile => 2

theorem tag_plain (t : FileType) : CR ∉ t.tag ∧ LF ∉ t.tag ∧ slash ∉ t.tag := by
  cases t <;> decide

theorem tag_start (t t' : FileType) (h : t.tag.take 2 = t'.tag.take 2) :
    t.pass = t'.pass ∧ t.tag = t'.tag := by
  revert h
  cases t <;> cases t' <;> decide

/-- A line has one tag and one name. -/
theorem tag_name (t t' : FileType) (name name' : Bytes) (h : t.tag ++ name = t'.tag ++ name') :
    t.pass = t'.pass ∧ name = name' := by
  have hlong : ∀ t : FileType, 2 ≤ t.tag.length := by
    intro t
    cases t <;> decide
  have hstart := congrArg (List.take 2) h
  rw [List.take_append_of_le_length (hlong t), List.take_append_of_le_length (hlong t')] at hstart
  obtain ⟨hpass, htag⟩ := tag_start t t' hstart
  rw [htag] at h
  exact ⟨hpass, List.append_cancel_left h⟩

end FileType

namespace FilesystemResource

/-- The three passes of `fetch_resource_content` over the names in a directory, whatever the paths
lead to. -/
def listingText (isDirectory isRegularFile : Bytes → Bool) (names : List Bytes)
    (requestUri : Bytes) : Bytes :=
  ((names.filter fun filename => !isDirectory (requestUri ++ filename) &&
      !isRegularFile (requestUri ++ filename)).flatMap
    fun filename => lit "[?] " ++ (requestUri ++ filename) ++ CRLF) ++
  ((names.filter fun filename => isDirectory (requestUri ++ filename)).flatMap
    fun filename => lit "[DIR] " ++ filename ++ CRLF) ++
  (names.filter fun filename => isRegularFile (requestUri ++ filename)).flatMap
    fun filename => lit "[FILE] " ++ filename ++ CRLF

theorem listingContent_text (fs : Snapshot) (requestUri : Bytes) :
    listingContent fs requestUri =
      listingText fs.isDirectory fs.isRegularFile (fs.directoryEntries requestUri) requestUri :=
  rfl

end FilesystemResource

/-- A directory while it is listed: the path of the listing, as `create_handle` closes it, the names
in the directory, and what a path leads to once it is read up to its first zero byte. -/
structure ListedDirectory where
  requestUri : Bytes
  names : List Bytes
  leadsTo : Bytes → FileType
  closed : requestUri.getLast? = some slash
  directory : leadsTo (cString requestUri) = .directoryFile
  distinct : names.Nodup
  single : ∀ name ∈ names, slash ∉ name

/-- A text of lines, each ended by CRLF and with no line end inside. -/
def IsLines (text : Bytes) (lines : List Bytes) : Prop :=
  text = lines.flatMap (· ++ CRLF) ∧ ∀ line ∈ lines, CR ∉ line ∧ LF ∉ line

/-- A text has its lines in one way only. -/
theorem isLines_unique (text : Bytes) (lines lines' : List Bytes) (h : IsLines text lines)
    (h' : IsLines text lines') : lines = lines' := by
  obtain ⟨rfl, hlines⟩ := h
  obtain ⟨htext, hlines'⟩ := h'
  induction lines generalizing lines' with
  | nil =>
    cases lines' with
    | nil => rfl
    | cons line' lines' => simp [CRLF] at htext
  | cons line lines ih =>
    cases lines' with
    | nil => simp [CRLF] at htext
    | cons line' lines' =>
      obtain ⟨hline, hrest⟩ := List.forall_mem_cons.mp hlines
      obtain ⟨hline', hrest'⟩ := List.forall_mem_cons.mp hlines'
      have hcut : line ++ CR :: LF :: lines.flatMap (· ++ CRLF) =
          line' ++ CR :: LF :: lines'.flatMap (· ++ CRLF) := by
        simpa [CRLF] using htext
      obtain ⟨rfl, htail⟩ := cut_unique CR hline.1 hline'.1 hcut
      rw [ih lines' hrest (List.cons.inj htail).2 hrest']

namespace ListedDirectory

open FilesystemResource

/-- `boost::filesystem::status` -/
def status (dir : ListedDirectory) (path : Bytes) : FileType := dir.leadsTo (cString path)

/-- What an entry of the directory is. -/
def kind (dir : ListedDirectory) (name : Bytes) : FileType :=
  dir.status (FilesystemFactory.closeDirectory (cString dir.requestUri) ++ name)

def entryLine (dir : ListedDirectory) (name : Bytes) : Bytes := (dir.kind name).tag ++ name

/-- `http_directory_listing::fetch_resource_content` -/
def fetchResourceContent (dir : ListedDirectory) : Bytes :=
  listingText (dir.status · = .directoryFile) (dir.status · = .regularFile) dir.names
    dir.requestUri

/-- The text is one line for each entry, with its tag and its name and nothing of the path: the
others, then the directories, then the files. -/
def Lists (dir : ListedDirectory) (text : Bytes) : Prop :=
  ∃ order : List Bytes, order.Perm dir.names ∧
    order.Pairwise (fun a b => (dir.kind a).pass ≤ (dir.kind b).pass) ∧
    (order.map dir.entryLine).Nodup ∧ IsLines text (order.map dir.entryLine) ∧
    ∀ line ∈ order.map dir.entryLine, ¬dir.requestUri <:+: line

theorem slash_mem (dir : ListedDirectory) : slash ∈ dir.requestUri :=
  List.mem_of_getLast? dir.closed

theorem entryLine_slash (dir : ListedDirectory) (name : Bytes) (h : name ∈ dir.names) :
    slash ∉ dir.entryLine name := by
  rw [entryLine, List.mem_append, not_or]
  exact ⟨(FileType.tag_plain _).2.2, dir.single name h⟩

/-- The text of a proper listing has no slash, so nothing of a path. -/
theorem lists_slash (dir : ListedDirectory) (text : Bytes) (h : dir.Lists text) :
    slash ∉ text := by
  obtain ⟨order, hperm, -, -, ⟨rfl, -⟩, -⟩ := h
  have hend : slash ∉ CRLF := by decide
  intro hin
  obtain ⟨line, hline, hin⟩ := List.mem_flatMap.mp hin
  obtain ⟨name, hname, rfl⟩ := List.mem_map.mp hline
  rcases List.mem_append.mp hin with hin | hin
  · exact dir.entryLine_slash name (hperm.mem_iff.mp hname) hin
  · exact hend hin

/-- The entries in an order of their passes, with the lines that the text has, are a proper
listing. -/
theorem lists_of_order (dir : ListedDirectory)
    (hplain : ∀ name ∈ dir.names, CR ∉ name ∧ LF ∉ name) (order : List Bytes)
    (hperm : order.Perm dir.names)
    (hsorted : order.Pairwise (fun a b => (dir.kind a).pass ≤ (dir.kind b).pass)) :
    dir.Lists ((order.map dir.entryLine).flatMap (· ++ CRLF)) := by
  refine ⟨order, hperm, hsorted, ?_, ⟨rfl, ?_⟩, ?_⟩
  · apply List.Nodup.map
    · intro name name' h
      exact (FileType.tag_name _ _ name name' h).2
    · exact hperm.nodup_iff.mpr dir.distinct
  · intro line hline
    obtain ⟨name, hname, rfl⟩ := List.mem_map.mp hline
    obtain ⟨hcr, hlf⟩ := hplain name (hperm.mem_iff.mp hname)
    obtain ⟨htagCr, htagLf, -⟩ := FileType.tag_plain (dir.kind name)
    simp only [entryLine, List.mem_append, not_or]
    exact ⟨⟨htagCr, hcr⟩, htagLf, hlf⟩
  · intro line hline hpath
    obtain ⟨name, hname, rfl⟩ := List.mem_map.mp hline
    exact dir.entryLine_slash name (hperm.mem_iff.mp hname) (hpath.subset dir.slash_mem)

theorem status_kind (dir : ListedDirectory) (hzero : NUL ∉ dir.requestUri) (name : Bytes) :
    dir.status (dir.requestUri ++ name) = dir.kind name := by
  rw [kind, cString_self _ hzero, FilesystemFactory.closeDirectory, if_neg]
  exact not_not.mpr dir.closed

/-- Past a zero byte every entry is taken for the directory itself. -/
theorem status_zero (dir : ListedDirectory) (hzero : NUL ∈ dir.requestUri) (name : Bytes) :
    dir.status (dir.requestUri ++ name) = .directoryFile := by
  rw [status, cString_append, if_pos hzero, dir.directory]

/-- An entry that the first pass writes has the path of the directory on its line. -/
theorem others_slash (dir : ListedDirectory) (name : Bytes) (hname : name ∈ dir.names)
    (hdir : dir.status (dir.requestUri ++ name) ≠ .directoryFile)
    (hfile : dir.status (dir.requestUri ++ name) ≠ .regularFile) :
    slash ∈ dir.fetchResourceContent := by
  have hline : slash ∈ lit "[?] " ++ (dir.requestUri ++ name) ++ CRLF := by
    simp [dir.slash_mem]
  simp only [fetchResourceContent, listingText, List.mem_append, List.mem_flatMap]
  refine Or.inl (Or.inl ⟨name, List.mem_filter.mpr ⟨hname, ?_⟩, ?_⟩)
  · simp [hdir, hfile]
  · simpa only [List.mem_append] using hline

/-- Where all entries are directories and files, and are seen so, the last two passes write one
line for each. -/
theorem content_order (dir : ListedDirectory)
    (hkind : ∀ name ∈ dir.names, dir.status (dir.requestUri ++ name) = dir.kind name)
    (hknown : ∀ name ∈ dir.names, dir.kind name = .directoryFile ∨ dir.kind name = .regularFile) :
    dir.fetchResourceContent =
      ((dir.names.filter (dir.kind · = .directoryFile) ++
        dir.names.filter (dir.kind · = .regularFile)).map dir.entryLine).flatMap (· ++ CRLF) := by
  have hothers : (dir.names.filter fun name =>
      !decide (dir.status (dir.requestUri ++ name) = .directoryFile) &&
        !decide (dir.status (dir.requestUri ++ name) = .regularFile)) = [] := by
    rw [List.filter_eq_nil_iff]
    intro name hname
    rw [hkind name hname]
    rcases hknown name hname with h | h
    · simp [h]
    · simp [h]
  have hpass : ∀ t : FileType, (dir.names.filter fun name =>
      decide (dir.status (dir.requestUri ++ name) = t)) =
        dir.names.filter (dir.kind · = t) := by
    intro t
    apply List.filter_congr
    intro name hname
    rw [hkind name hname]
  have hlines : ∀ t : FileType, ((dir.names.filter (dir.kind · = t)).map dir.entryLine).flatMap
      (· ++ CRLF) = (dir.names.filter (dir.kind · = t)).flatMap fun name =>
        t.tag ++ name ++ CRLF := by
    intro t
    rw [List.flatMap_map]
    apply List.flatMap_congr
    intro name hname
    obtain ⟨-, hname⟩ := List.mem_filter.mp hname
    rw [entryLine, of_decide_eq_true hname]
  rw [fetchResourceContent, listingText, hothers, hpass, hpass, List.map_append,
    List.flatMap_append, hlines, hlines]
  rfl

/-- Past a zero byte the second pass writes all entries, whatever they are. -/
theorem content_zero (dir : ListedDirectory) (hzero : NUL ∈ dir.requestUri) :
    dir.fetchResourceContent =
      (dir.names.map (FileType.directoryFile.tag ++ ·)).flatMap (· ++ CRLF) := by
  have hstatus := dir.status_zero hzero
  simp [fetchResourceContent, listingText, hstatus, List.flatMap_map, FileType.tag]

theorem content_zero_lines (dir : ListedDirectory)
    (hplain : ∀ name ∈ dir.names, CR ∉ name ∧ LF ∉ name) (hzero : NUL ∈ dir.requestUri) :
    IsLines dir.fetchResourceContent (dir.names.map (FileType.directoryFile.tag ++ ·)) := by
  refine ⟨dir.content_zero hzero, ?_⟩
  intro line hline
  obtain ⟨entry, hentry, rfl⟩ := List.mem_map.mp hline
  obtain ⟨hcr, hlf⟩ := hplain entry hentry
  obtain ⟨htagCr, htagLf, -⟩ := FileType.tag_plain .directoryFile
  simp only [List.mem_append, not_or]
  exact ⟨⟨htagCr, hcr⟩, htagLf, hlf⟩

/-- Past a zero byte all lines have the tag of a directory, so the proper ones must have it too. -/
theorem lists_zero (dir : ListedDirectory) (hplain : ∀ name ∈ dir.names, CR ∉ name ∧ LF ∉ name)
    (hzero : NUL ∈ dir.requestUri) (h : dir.Lists dir.fetchResourceContent) (name : Bytes)
    (hname : name ∈ dir.names) : dir.kind name = .directoryFile := by
  have hlines := dir.content_zero_lines hplain hzero
  obtain ⟨order, hperm, -, -, horder, -⟩ := h
  have hline : dir.entryLine name ∈ dir.names.map (FileType.directoryFile.tag ++ ·) := by
    rw [← isLines_unique _ _ _ horder hlines]
    exact List.mem_map_of_mem (hperm.mem_iff.mpr hname)
  obtain ⟨entry, -, hentry⟩ := List.mem_map.mp hline
  obtain ⟨hpass, -⟩ := FileType.tag_name _ _ _ _ hentry
  cases hkind : dir.kind name with
  | directoryFile => rfl
  | _ => simp [hkind, FileType.pass] at hpass

theorem order_perm (dir : ListedDirectory)
    (hknown : ∀ name ∈ dir.names, dir.kind name = .directoryFile ∨ dir.kind name = .regularFile) :
    (dir.names.filter (dir.kind · = .directoryFile) ++
      dir.names.filter (dir.kind · = .regularFile)).Perm dir.names := by
  have hfiles : dir.names.filter (dir.kind · = .regularFile) =
      dir.names.filter fun name => !decide (dir.kind name = .directoryFile) := by
    apply List.filter_congr
    intro name hname
    rcases hknown name hname with h | h
    · simp [h]
    · simp [h]
  rw [hfiles]
  exact List.filter_append_perm _ dir.names

theorem order_sorted (dir : ListedDirectory) :
    (dir.names.filter (dir.kind · = .directoryFile) ++
      dir.names.filter (dir.kind · = .regularFile)).Pairwise
        fun a b => (dir.kind a).pass ≤ (dir.kind b).pass := by
  have hkind : ∀ t : FileType, ∀ name ∈ dir.names.filter (dir.kind · = t), dir.kind name = t := by
    intro t name hname
    exact of_decide_eq_true (List.mem_filter.mp hname).2
  have hequal : ∀ t : FileType, (dir.names.filter (dir.kind · = t)).Pairwise
      fun a b => (dir.kind a).pass ≤ (dir.kind b).pass := by
    intro t
    apply List.pairwise_of_forall_mem_list
    intro a ha b hb
    rw [hkind t a ha, hkind t b hb]
  rw [List.pairwise_append]
  refine ⟨hequal _, hequal _, ?_⟩
  intro a ha b hb
  rw [hkind _ a ha, hkind _ b hb]
  decide

/-- The body lists a directory as it should exactly when every entry is a directory, or a regular
file where the path has no zero byte. -/
theorem fetchResourceContent_lists_iff (dir : ListedDirectory)
    (hplain : ∀ name ∈ dir.names, CR ∉ name ∧ LF ∉ name) :
    dir.Lists dir.fetchResourceContent ↔ ∀ name ∈ dir.names, dir.kind name = .directoryFile ∨
      dir.kind name = .regularFile ∧ NUL ∉ dir.requestUri := by
  constructor
  · intro h name hname
    by_cases hzero : NUL ∈ dir.requestUri
    · exact Or.inl (dir.lists_zero hplain hzero h name hname)
    · by_contra hother
      obtain ⟨hdir, hfile⟩ := not_or.mp hother
      have hkind := dir.status_kind hzero name
      apply dir.lists_slash _ h
      apply dir.others_slash name hname
      · rwa [hkind]
      · rw [hkind]
        exact fun hregular => hfile ⟨hregular, hzero⟩
  · intro h
    have hknown : ∀ name ∈ dir.names,
        dir.kind name = .directoryFile ∨ dir.kind name = .regularFile :=
      fun name hname => (h name hname).imp id And.left
    have hkind : ∀ name ∈ dir.names, dir.status (dir.requestUri ++ name) = dir.kind name := by
      intro name hname
      by_cases hzero : NUL ∈ dir.requestUri
      · rw [dir.status_zero hzero, (h name hname).resolve_right fun hfile => hfile.2 hzero]
      · exact dir.status_kind hzero name
    rw [dir.content_order hkind hknown]
    exact dir.lists_of_order hplain _ (dir.order_perm hknown) dir.order_sorted

theorem fetchResourceContent_lists_two :
    ∃ dir : ListedDirectory, dir.names = [lit "b", lit "a"] ∧
      dir.fetchResourceContent = lit "[DIR] a\r\n[FILE] b\r\n" ∧
      dir.Lists dir.fetchResourceContent :=
  ⟨⟨lit "/srv/", [lit "b", lit "a"],
      fun path => if path = lit "/srv/b" then .regularFile else .directoryFile, by decide,
      by decide, by decide, by decide⟩, rfl, by decide,
    (fetchResourceContent_lists_iff _ (by decide)).mpr (by decide)⟩

/-- A dangling link is listed with the path of the directory. -/
theorem fetchResourceContent_discloses :
    ∃ dir : ListedDirectory, dir.requestUri = lit "/srv/" ∧ dir.names = [lit "a"] ∧
      dir.kind (lit "a") = .fileNotFound ∧
      dir.fetchResourceContent = lit "[?] /srv/a\r\n" ∧ ¬dir.Lists dir.fetchResourceContent :=
  ⟨⟨lit "/srv/", [lit "a"],
      fun path => if path = lit "/srv/" then .directoryFile else .fileNotFound, by decide,
      by decide, by decide, by decide⟩, rfl, rfl, by decide, by decide,
    fun h => lists_slash _ _ h (by decide)⟩

end ListedDirectory

def FsNode.fileType : FsNode → FileType
  | .regular _ _ => .regularFile
  | .directory _ => .directoryFile
  | .other => .otherFile

/-- The type in `boost::filesystem::status`. -/
def Snapshot.fileType (fs : Snapshot) (path : Bytes) : FileType :=
  ((fs.status path).map FsNode.fileType).getD .fileNotFound

/-- A path is read up to its first zero byte. -/
theorem fileType_cString (fs : Snapshot) (path : Bytes) :
    fs.fileType (cString path) = fs.fileType path := by
  rw [Snapshot.fileType, Snapshot.fileType, Snapshot.status, Snapshot.status, fs.resolve_cString]

theorem fileType_directory (fs : Snapshot) (path : Bytes) :
    fs.isDirectory path = decide (fs.fileType path = .directoryFile) := by
  rw [Snapshot.isDirectory, Snapshot.fileType]
  rcases fs.status path with _ | (_ | _ | _) <;> rfl

theorem fileType_regular (fs : Snapshot) (path : Bytes) :
    fs.isRegularFile path = decide (fs.fileType path = .regularFile) := by
  rw [Snapshot.isRegularFile, Snapshot.fileType]
  rcases fs.status path with _ | (_ | _ | _) <;> rfl

/-- The names in a directory as a filesystem has them. -/
structure ProperNames (names : List Bytes) : Prop where
  distinct : names.Nodup
  down : ∀ name ∈ names, component name = .down name
  plain : ∀ name ∈ names, slash ∉ name ∧ NUL ∉ name

/-- A directory of a snapshot, under a path that ends with a slash. -/
def Snapshot.listed (fs : Snapshot) (requestUri : Bytes)
    (closed : requestUri.getLast? = some slash) (directory : fs.isDirectory requestUri)
    (hnames : ProperNames (fs.directoryEntries requestUri)) : ListedDirectory where
  requestUri := requestUri
  names := fs.directoryEntries requestUri
  leadsTo := fs.fileType
  closed := closed
  directory := by
    rw [fileType_directory, decide_eq_true_eq] at directory
    rwa [fileType_cString]
  distinct := hnames.distinct
  single := fun name hname => (hnames.plain name hname).1

namespace FilesystemFactory

theorem closeDirectory_last (path : Bytes) : (closeDirectory path).getLast? = some slash := by
  rw [closeDirectory]
  split_ifs with hlast
  · rw [List.getLast?_append]
    rfl
  · exact not_not.mp hlast

/-- A listing that is built is one of a directory, under a path that ends with a slash. -/
theorem createHandle_listing (bld : Build) (fs : Snapshot) (virtualPath : Bytes)
    (request : GenericRequest) (requestUri : Bytes)
    (h : createHandle bld fs virtualPath request = .ok (some (.listing requestUri))) :
    requestUri.getLast? = some slash ∧ fs.isDirectory requestUri := by
  have hresource : resource fs (virtualPath ++ request.requestUri) =
      some (.listing requestUri) := by
    rw [createHandle, noexcept_ok, Build.assert_then] at h
    split_ifs at h with hassert hexists
    · exact Except.ok.inj h
    · simp [pure, Except.pure] at h
  set path := virtualPath ++ request.requestUri
  simp only [resource] at hresource
  split_ifs at hresource with hfile hdir hindex
  · simp at hresource
  · simp at hresource
  · obtain rfl : closeDirectory path = requestUri := by simpa using hresource
    refine ⟨closeDirectory_last path, ?_⟩
    cases hloc : fs.resolve path with
    | none => simp [Snapshot.isDirectory, Snapshot.status, hloc] at hdir
    | some loc =>
      have hclosed := resolve_closeDirectory fs path loc hloc hdir
      rw [resolved_directory fs _ loc hclosed, ← resolved_directory fs path loc hloc]
      exact hdir

/-- In a snapshot an entry is what stands in the tree under its name. -/
theorem entry_fileType (fs : Snapshot) (requestUri : Bytes) (entries : List (Bytes × FsNode))
    (hstatus : fs.status requestUri = some (.directory entries))
    (hnames : ProperNames (entries.map Prod.fst)) (name : Bytes) (node : FsNode)
    (hmem : (name, node) ∈ entries) :
    fs.fileType (closeDirectory (cString requestUri) ++ name) = node.fileType := by
  have hname : name ∈ entries.map Prod.fst := List.mem_map_of_mem hmem
  obtain ⟨hslash, hzero⟩ := hnames.plain name hname
  have hcomponents : components name = [name] := by
    rw [components, cString_self name hzero, List.splitOn_eq_singleton hslash]
  obtain ⟨loc, hloc, hnode⟩ := Option.bind_eq_some_iff.mp hstatus
  rw [← fs.resolve_cString] at hloc
  obtain ⟨hwalk, hat⟩ := fs.walk_entry loc entries hnode name node (hnames.down name hname)
    (Assoc.find_of_mem name node entries hnames.distinct hmem)
  rw [Snapshot.fileType, Snapshot.status, resolve_entry fs _ name loc hloc
    (cString_nonzero requestUri), hcomponents, hwalk, Option.bind_some, hat]
  rfl

/-- What a listing writes for a snapshot is what it writes for the directory behind its path, with
the entries of the tree. -/
theorem listing_content (bld : Build) (env : ResourceContext) (virtualPath : Bytes)
    (request : GenericRequest) (requestUri : Bytes) (entries : List (Bytes × FsNode))
    (h : createHandle bld env.fs virtualPath request = .ok (some (.listing requestUri)))
    (hstatus : env.fs.status requestUri = some (.directory entries))
    (hnames : ProperNames (entries.map Prod.fst)) :
    ∃ dir : ListedDirectory, dir.requestUri = requestUri ∧ dir.names = entries.map Prod.fst ∧
      (∀ e ∈ entries, dir.kind e.1 = e.2.fileType) ∧
      FilesystemResource.content env (.listing requestUri) = dir.fetchResourceContent := by
  obtain ⟨hclosed, hdir⟩ := createHandle_listing bld env.fs virtualPath request requestUri h
  have hentries : env.fs.directoryEntries requestUri = entries.map Prod.fst := by
    rw [Snapshot.directoryEntries, hstatus]
  set dir := env.fs.listed requestUri hclosed hdir (hentries ▸ hnames)
  have hleads : dir.status = env.fs.fileType := funext (fileType_cString env.fs)
  refine ⟨dir, rfl, hentries, ?_, ?_⟩
  · intro e he
    rw [ListedDirectory.kind, hleads]
    exact entry_fileType env.fs requestUri entries hstatus hnames e.1 e.2 he
  · show FilesystemResource.listingContent env.fs requestUri = _
    rw [FilesystemResource.listingContent_text, ListedDirectory.fetchResourceContent, hleads,
      funext (fileType_directory env.fs), funext (fileType_regular env.fs)]
    rfl

end FilesystemFactory

end HttpCpp
