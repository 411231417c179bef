import FeatureFlags.Bytes
import FeatureFlags.Files.Error
import FeatureFlags.Tree

/-!
# Folders

A directory tree whose files nobody else links to: a tree with bytes at its leaves. An operation
that fails may have made directories before it failed, so every change hands back the folder as it
is afterwards, whatever the outcome.
-/

namespace FeatureFlags

/-- A directory tree with its files. -/
abbrev Folder := Tree Bytes

namespace Folder

/-- What stands at a path. The empty path leads to the folder itself. -/
def walk (t : Folder) : List String → Except FileError (Tree.Item Bytes)
  | [] => .ok (.branch t)
  | name :: path =>
    if FileError.isTooLong name then .error .nameTooLong
    else match t.get? name with
      | none => .error .notFound
      | some (.branch inner) => walk inner path
      | some (.leaf bytes) => if path = [] then .ok (.leaf bytes) else .error .notADirectory

/-- The bytes of the file at a path. -/
def read (t : Folder) (path : List String) : Except FileError Bytes :=
  if path.any FileError.hasNul then .error .nulInName
  else match walk t path with
    | .ok (.leaf bytes) => .ok bytes
    | .ok (.branch _) => .error .isADirectory
    | .error e => .error e

/-- Makes the directories of a path that are missing, one inside the other. -/
def makeFolders (t : Folder) : List String → Except FileError Unit × Folder
  | [] => (.ok (), t)
  | name :: path =>
    if FileError.isTooLong name then (.error .nameTooLong, t)
    else match t.get? name with
      | some (.leaf _) => (.error (if path = [] then .exists_ else .notADirectory), t)
      | _ =>
        let (outcome, inner) := makeFolders (t.child name) path
        (outcome, t.put name (.branch inner))

/-- Puts a file into the directory at a path, in place of the file of the same name. -/
def place (t : Folder) (name : String) (bytes : Bytes) :
    List String → Except FileError Unit × Folder
  | [] =>
    if FileError.hasNul name then (.error .nulInName, t)
    else if FileError.isTooLong name then (.error .nameTooLong, t)
    else match t.get? name with
      | some (.branch _) => (.error .isADirectory, t)
      | _ => (.ok (), t.put name (.leaf bytes))
  | segment :: path =>
    let (outcome, inner) := place (t.child segment) name bytes path
    (outcome, t.put segment (.branch inner))

/-- A way of writing a file. -/
abbrev Writer := Folder → List String → Bytes → Except FileError Unit × Folder

/-- Writes a file as a whole: whoever reads it sees the old bytes or the new ones. Missing
directories are made first, and stay even if the file itself cannot be written. -/
def write (t : Folder) (path : List String) (bytes : Bytes) : Except FileError Unit × Folder :=
  match path.getLast? with
  -- In the place of the folder itself no file can stand.
  | none => (.error .isADirectory, t)
  | some name =>
    let folders := path.dropLast
    if folders.any FileError.hasNul then (.error .nulInName, t)
    else match makeFolders t folders with
      | (.error e, t) => (.error e, t)
      | (.ok (), t) => place t name bytes folders

/-- Takes the file at a path away. -/
def removeFile (t : Folder) : List String → Folder
  | [] => t
  | [name] => t.remove name
  | name :: path =>
    match t.get? name with
    | some (.branch inner) => t.put name (.branch (removeFile inner path))
    | _ => t

/-- Deletes the file at a path. -/
def delete (t : Folder) (path : List String) : Except FileError Unit × Folder :=
  match read t path with
  | .ok _ => (.ok (), removeFile t path)
  | .error e => (.error e, t)

end Folder

end FeatureFlags
