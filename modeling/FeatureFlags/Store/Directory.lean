import FeatureFlags.Files.Folder
import FeatureFlags.Store.Basic

/-!
# Stores in directories

A file for every key: the segments of the key are the directories on the way and the file's name. A
directory cannot have a file and a directory of one name, and files whose names begin with a point
are left out of every listing, because files that are being written have such names.

* `DirectoryStore.collect` — the files below a directory; directories in which no key can match are
  not entered.
-/

namespace FeatureFlags

/-- A store in a directory of a folder. -/
structure DirectoryStore where
  /-- The path of the directory. -/
  base : List String
  folder : Folder

namespace DirectoryStore

/-- Whether files and directories of a name are left out of listings. -/
def isHidden (name : String) : Bool :=
  Path.startsWith name "."

/-- The key of a file by the key of its directory, which is empty at the top. -/
def childKey (key name : String) : String :=
  if key = "" then name else Path.join [key, name]

/-- Whether keys below a directory may begin with a text. -/
def mayHold (start key : String) : Bool :=
  let below := Path.join [key, ""]
  Path.startsWith below start || Path.startsWith start below

/-- The entries of a directory and of those inside it whose keys begin with a text. -/
def collect (start key : String) : Folder → List Store.Entry
  | .empty => []
  | .leaf name bytes rest =>
    (if !isHidden name && Path.startsWith (childKey key name) start then
      [⟨childKey key name, bytes⟩] else []) ++ collect start key rest
  | .branch name inner rest =>
    (if !isHidden name && mayHold start (childKey key name) then
      collect start (childKey key name) inner else []) ++ collect start key rest

/-- Puts entries into increasing order of their keys. -/
def inOrder (entries : List Store.Entry) : List Store.Entry :=
  entries.mergeSort fun a b => !(b.key < a.key)

/-- The path of the file of a key. -/
def pathOf (s : DirectoryStore) (key : String) : Except Store.Error (List String) :=
  if Store.Key.isValid key then .ok (s.base ++ Path.segments key) else .error (.invalidKey key)

/-- The bytes under a key, if there are any. -/
def get? (s : DirectoryStore) (key : String) : Except Store.Error (Option Bytes) :=
  match s.pathOf key with
  | .error e => .error e
  | .ok path =>
    match s.folder.read path with
    | .ok bytes => .ok (some bytes)
    | .error .notFound => .ok none
    | .error e => .error (.file e)

/-- The entries whose keys begin with a text. -/
def list (s : DirectoryStore) (start : String) : Except Store.Error (List Store.Entry) :=
  match s.folder.walk s.base with
  | .ok (.branch t) => .ok (inOrder (collect start "" t))
  | .ok (.leaf _) => .error (.file .notADirectory)
  -- Nothing has been stored yet.
  | .error .notFound => .ok []
  | .error e => .error (.file e)

/-- Holds bytes under a key from now on. -/
def set (s : DirectoryStore) (key : String) (bytes : Bytes) :
    Except Store.Error Unit × DirectoryStore :=
  match s.pathOf key with
  | .error e => (.error e, s)
  | .ok path =>
    let (outcome, folder) := s.folder.write path bytes
    (outcome.mapError .file, { s with folder := folder })

/-- Forgets what is under a key. The directories on the way stay. -/
def delete (s : DirectoryStore) (key : String) : Except Store.Error Unit × DirectoryStore :=
  match s.pathOf key with
  | .error e => (.error e, s)
  | .ok path =>
    match s.folder.delete path with
    | (.ok (), folder) => (.ok (), { s with folder := folder })
    | (.error .notFound, _) => (.ok (), s)
    | (.error e, _) => (.error (.file e), s)

instance : Store DirectoryStore where
  get? := get?
  list := list
  set := set
  delete := delete

end DirectoryStore

end FeatureFlags
