import HttpCpp.Filesystem.Snapshot
import HttpCpp.Protocol.Structure

namespace HttpCpp

/-- The concrete classes behind `http_resource_factory`, with the path each was built for. -/
inductive ResourceFactory where
  | filesystem (virtualPath : Bytes)
  | external (libraryPath : Bytes)
  deriving DecidableEq

/-- `http_resource_factory::create_resource_factory`, up to the loading of the library. -/
def createResourceFactory (fs : Snapshot) (servicePath : Bytes) : Except Fault ResourceFactory :=
  if fs.fileExists servicePath ∧ fs.isDirectory servicePath then .ok (.filesystem servicePath)
  else if fs.fileExists servicePath ∧ fs.isRegularFile servicePath then .ok (.external servicePath)
  else .error (.invalidArgument
    (lit "Invalid path to the service, expecting an existing directory or a dynamic library."))

/-- The resources of the filesystem service: `http_filesystem_resource` and
`http_directory_listing`. -/
inductive FilesystemResource where
  | file (requestUri : Bytes)
  | listing (requestUri : Bytes)
  deriving DecidableEq

def FilesystemResource.requestUri : FilesystemResource → Bytes
  | .file path => path
  | .listing path => path

namespace FilesystemFactory

/-- `if (path.back() != '/') path.append("/")` -/
def closeDirectory (path : Bytes) : Bytes :=
  if path.getLast? ≠ some slash then path ++ lit "/" else path

def indexPath (path : Bytes) : Bytes := closeDirectory path ++ lit "index.html"

/-- What `create_handle` builds for a path that exists. -/
def resource (fs : Snapshot) (path : Bytes) : Option FilesystemResource :=
  if fs.isRegularFile path then some (.file path)
  else if fs.isDirectory path then
    if fs.fileExists (indexPath path) ∧ ¬fs.isDirectory (indexPath path) then
      some (.file (indexPath path))
    else some (.listing (closeDirectory path))
  else none

/-- `http_filesystem_resource_factory::create_handle` -/
def createHandle (bld : Build) (fs : Snapshot) (virtualPath : Bytes) (request : GenericRequest) :
    Except Fault (Option FilesystemResource) :=
  noexcept do
    let path := virtualPath ++ request.requestUri
    bld.assert (path.length > 0)
    return if fs.fileExists path then resource fs path else none

/-- A factory for a directory was built for a path that names something. -/
theorem createResourceFactory_named (fs : Snapshot) (servicePath virtualPath : Bytes)
    (h : createResourceFactory fs servicePath = .ok (.filesystem virtualPath)) :
    cString virtualPath ≠ [] := by
  simp only [createResourceFactory] at h
  split_ifs at h with hdir hfile
  · obtain rfl : servicePath = virtualPath := by simpa using h
    intro hempty
    simp [Snapshot.fileExists, Snapshot.status, Snapshot.resolve, hempty] at hdir
  · simp at h

theorem createHandle_eq (bld : Build) (fs : Snapshot) (virtualPath : Bytes)
    (request : GenericRequest) (h : virtualPath ++ request.requestUri ≠ []) :
    createHandle bld fs virtualPath request =
      .ok (resource fs (virtualPath ++ request.requestUri)) := by
  have hlen := List.length_pos_iff.mpr h
  have hassert : bld.ndebug ∨ decide ((virtualPath ++ request.requestUri).length > 0) :=
    Or.inr (by simpa using hlen)
  have hstatus : ¬fs.fileExists (virtualPath ++ request.requestUri) →
      resource fs (virtualPath ++ request.requestUri) = none := by
    intro hno
    simp only [Snapshot.fileExists, Bool.not_eq_true, Option.isSome_eq_false_iff,
      Option.isNone_iff_eq_none] at hno
    simp [resource, Snapshot.isRegularFile, Snapshot.isDirectory, hno]
  simp only [createHandle, Build.assert_then, hassert, if_true]
  split_ifs with hexists
  · rfl
  · rw [hstatus hexists]; rfl

end FilesystemFactory

end HttpCpp
