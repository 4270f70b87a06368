import AutoImport.PackageLookup

/-!
# The manifests of a session

A session remembers for each directory whether it holds a manifest.  A directory is *present* when
its manifest is known, *absent* when it is known to have none that can be read, and *unknown* when
it has not been looked at; only unknown directories are probed.  Directories are known by their
keys, so a change reported in another case reaches the same entry.
-/

set_option autoImplicit false

namespace AutoImport

/-- What is known about the manifest of a directory. -/
inductive Presence where
  | present
  | absent
  | unknown
  deriving Repr, DecidableEq

/-- The manifests that a session knows. -/
structure ManifestCache where
  /-- Manifests by the key of their file. -/
  manifests : Table String Manifest := {}
  /-- Keys of the directories that are known to have no manifest. -/
  absent : List String := []
  caseSensitive : Bool := true
  deriving Repr, Inhabited

namespace ManifestCache

/-- The key of a path. -/
def key (cache : ManifestCache) (path : String) : String :=
  Path.canonical path "/" cache.caseSensitive

/-- The key of the manifest in a directory. -/
def manifestKey (cache : ManifestCache) (directory : String) : String :=
  cache.key (Path.join directory manifestName)

/-- Number of known manifests. -/
def size (cache : ManifestCache) : Nat :=
  cache.manifests.size

/-- Whether no manifest is known. -/
def isEmpty (cache : ManifestCache) : Bool :=
  cache.manifests.isEmpty

/-- The manifest known under a file name. -/
def get? (cache : ManifestCache) (fileName : String) : Option Manifest :=
  cache.manifests.get? (cache.key fileName)

/-- The known manifest of a directory. -/
def inDirectory? (cache : ManifestCache) (directory : String) : Option Manifest :=
  cache.manifests.get? (cache.manifestKey directory)

/-- What is known about a directory. -/
def presence (cache : ManifestCache) (directory : String) : Presence :=
  if cache.manifests.contains (cache.manifestKey directory) then .present
  else if cache.key directory ∈ cache.absent then .absent
  else .unknown

/-- Records that a directory, given by its key, has no manifest. -/
def markAbsent (cache : ManifestCache) (directoryKey : String) : ManifestCache :=
  { cache with absent := insertNew cache.absent directoryKey }

/-- Reads a manifest anew.  One that cannot be read leaves its directory absent. -/
def refresh (view : FileView) (fileName : String) (cache : ManifestCache) : ManifestCache :=
  let key := cache.key fileName
  let directory := Path.directory key
  match Manifest.read? view fileName with
  | some manifest =>
    { cache with
      manifests := cache.manifests.insert key manifest
      absent := cache.absent.filter (· ≠ directory) }
  | none => ({ cache with manifests := cache.manifests.erase key }).markAbsent directory

/-- Forgets a manifest that was deleted. -/
def delete (fileName : String) (cache : ManifestCache) : ManifestCache :=
  let key := cache.key fileName
  ({ cache with manifests := cache.manifests.erase key }).markAbsent (Path.directory key)

/-- Makes a directory unknown again. -/
def forget (directory : String) (cache : ManifestCache) : ManifestCache :=
  { cache with
    manifests := cache.manifests.erase (cache.manifestKey directory)
    absent := cache.absent.filter (· ≠ cache.key directory) }

/-- Looks at directories one after the other, up to the first that is known. -/
def searchChain (view : FileView) : List String → ManifestCache → Probed ManifestCache
  | [], cache => pure cache
  | directory :: rest, cache =>
    if cache.presence directory ≠ .unknown then pure cache
    else do
      let fileName := Path.join directory manifestName
      if ← view.probe fileName then searchChain view rest (cache.refresh view fileName)
      else searchChain view rest (cache.markAbsent (cache.key directory))

/-- Looks at a directory and the directories above it, up to the first that is known. -/
def search (view : FileView) (directory : String) (cache : ManifestCache) : Probed ManifestCache :=
  searchChain view (Path.ancestors directory) cache

/-- The manifests of directories in order, as far as `rootDirectory`. -/
def visibleAlong (view : FileView) (rootDirectory : Option String) :
    List String → ManifestCache → Probed (List Manifest × ManifestCache)
  | [], cache => pure ([], cache)
  | directory :: rest, cache => do
    let cache ←
      if cache.presence directory = .unknown then cache.search view directory else pure cache
    let here :=
      if cache.presence directory = .present then (cache.inDirectory? directory).toList else []
    if rootDirectory.any fun root => cache.key root = cache.key directory then return (here, cache)
    else do
      let (others, cache) ← visibleAlong view rootDirectory rest cache
      return (here ++ others, cache)

/-- The manifests on the way up from a file, nearest first; `rootDirectory` is the last directory
looked at. -/
def visibleFrom (view : FileView) (fileName : String) (rootDirectory : Option String)
    (cache : ManifestCache) : Probed (List Manifest × ManifestCache) :=
  visibleAlong view rootDirectory (Path.ancestors (Path.directory fileName)) cache

end ManifestCache

end AutoImport
