import HttpCpp.Filesystem.ResourceFactory
import HttpCpp.Framework.FileStream
import HttpCpp.Protocol.HttpDate
import HttpCpp.Protocol.Response

namespace HttpCpp

/-- What a resource sees while it runs: the snapshot and what the libraries around it say.
`special` is what a node that is neither a directory nor a regular file reads as, none when it
cannot be opened, and when it was last written; `magicFile` is the magic database, none when there
is no handle. -/
structure ResourceContext where
  fs : Snapshot
  special : Bytes → Option Bytes × Int
  localtime : Int → Tm
  magicFile : Option (Bytes → Option Bytes)

namespace ResourceContext

/-- The bytes behind the path of a `std::ifstream`. A directory cannot be read. -/
def fileAt (env : ResourceContext) (path : Bytes) : Option Bytes :=
  match env.fs.status path with
  | some (.regular content _) => some content
  | some .other => (env.special (cString path)).1
  | _ => none

/-- `boost::filesystem::last_write_time` of a path that is no directory. -/
def lastWriteTime (env : ResourceContext) (path : Bytes) : Int :=
  match env.fs.status path with
  | some (.regular _ lastWriteTime) => lastWriteTime
  | _ => (env.special (cString path)).2

/-- `http_constants::http_date` -/
def httpDate (env : ResourceContext) (time : Int) : Bytes := httptime (env.localtime time)

end ResourceContext

/-- The names `boost::filesystem::directory_iterator` goes through. -/
def Snapshot.directoryEntries (fs : Snapshot) (path : Bytes) : List Bytes :=
  match fs.status path with
  | some (.directory entries) => entries.map Prod.fst
  | _ => []

namespace FilesystemResource

/-- `http_filesystem_resource::get_content_type` -/
def getContentType (env : ResourceContext) (requestUri : Bytes) : Bytes :=
  match env.magicFile with
  | none => lit "text/plain"
  | some magicFile => (magicFile (cString requestUri)).getD (lit "text/plain")

/-- `http_filesystem_resource::fetch_resource_header` and the override of
`http_directory_listing`, with the stream as it is left. -/
def fetchResourceHeader (env : ResourceContext) (stream : FileStream) :
    FilesystemResource → HeaderMap × FileStream
  | .file requestUri =>
    let stream := stream.ignoreAll
    let length := stream.gcount
    let stream := stream.clear.seekBeg
    let header := StdMap.empty.assign (lit "Content-Length") (decimalText length)
    let header := header.assign (lit "Content-Type") (getContentType env requestUri)
    let header := header.assign (lit "Last-Modified")
      (env.httpDate (env.lastWriteTime requestUri))
    (header, stream)
  | .listing _ =>
    let header := StdMap.empty.assign (lit "Content-Type") []
    let header := header.assign (lit "Content-Length") []
    let header := header.assign (lit "Last-Modified") []
    (header, stream)

/-- `fetch_resource_content` of a listing: the others, then the directories, then the files. The
path ends with a slash. -/
def listingContent (fs : Snapshot) (requestUri : Bytes) : Bytes :=
  let entries := fs.directoryEntries requestUri
  ((entries.filter fun filename => !fs.isDirectory (requestUri ++ filename) &&
      !fs.isRegularFile (requestUri ++ filename)).flatMap
    fun filename => lit "[?] " ++ (requestUri ++ filename) ++ CRLF) ++
  ((entries.filter fun filename => fs.isDirectory (requestUri ++ filename)).flatMap
    fun filename => lit "[DIR] " ++ filename ++ CRLF) ++
  (entries.filter fun filename => fs.isRegularFile (requestUri ++ filename)).flatMap
    fun filename => lit "[FILE] " ++ filename ++ CRLF

/-- `fetch_resource_content`, as the text that is streamed. -/
def fetchResourceContent (env : ResourceContext) (stream : FileStream) : FilesystemResource → Bytes
  | .file _ => stream.clear.seekBeg.copyAll.1
  | .listing requestUri => listingContent env.fs requestUri

/-- `http_filesystem_resource::execute` on a resource that has just been made. -/
def execute (env : ResourceContext) (r : FilesystemResource) (request : GenericRequest)
    (response : GenericResponse) : GenericResponse :=
  let stream := FileStream.ofFile (env.fileAt r.requestUri)
  let (header, stream) := r.fetchResourceHeader env stream
  let response := { response with header := response.header.insertRange header.entries }
  let response :=
    if request.method = .mGet then
      { response with messageBody := r.fetchResourceContent env stream }
    else response
  { response with statusCode := .httpOk }

/-- The bytes of a file, or the text of a listing. -/
def content (env : ResourceContext) : FilesystemResource → Bytes
  | .file requestUri => (env.fileAt requestUri).getD []
  | .listing requestUri => listingContent env.fs requestUri

def header (env : ResourceContext) (r : FilesystemResource) : HeaderMap :=
  (r.fetchResourceHeader env (.ofFile (env.fileAt r.requestUri))).1

/-- The body does not depend on what fetching the header has done to the stream. -/
theorem fetchResourceContent_eq (env : ResourceContext) (r : FilesystemResource) :
    r.fetchResourceContent env
      (r.fetchResourceHeader env (.ofFile (env.fileAt r.requestUri))).2 = r.content env := by
  cases r with
  | file requestUri =>
    simp only [fetchResourceContent, fetchResourceHeader, FileStream.copyAll_rewound,
      FileStream.rewound_file, FileStream.ignoreAll_file]
    rfl
  | listing requestUri => rfl

theorem execute_eq (env : ResourceContext) (r : FilesystemResource) (request : GenericRequest)
    (garbage : Status) :
    r.execute env request (.fresh garbage) =
      ⟨.httpOk, r.header env, if request.method = .mGet then r.content env else [], true⟩ := by
  simp only [execute, fetchResourceContent_eq env r, GenericResponse.fresh,
    StdMap.insertRange_empty]
  split_ifs <;> rfl

/-- The length that is sent: counted for a file, left empty for a listing. -/
theorem header_contentLength (env : ResourceContext) (r : FilesystemResource) :
    (r.header env).find (lit "Content-Length") = some (match r with
      | .file _ => decimalText (r.content env).length
      | .listing _ => []) := by
  have hlater : lit "Content-Length" ≠ lit "Content-Type" ∧
      lit "Content-Length" ≠ lit "Last-Modified" := by decide
  cases r with
  | file requestUri =>
    simp only [header, fetchResourceHeader, StdMap.find_assign_ne _ _ _ _ hlater.2,
      StdMap.find_assign_ne _ _ _ _ hlater.1, StdMap.find_assign, FileStream.ignoreAll_gcount]
    rfl
  | listing requestUri =>
    simp only [header, fetchResourceHeader, StdMap.find_assign_ne _ _ _ _ hlater.2,
      StdMap.find_assign]

end FilesystemResource

end HttpCpp
