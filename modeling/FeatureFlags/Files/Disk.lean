import FeatureFlags.Bytes
import FeatureFlags.Files.Error
import FeatureFlags.Text.Path
import FeatureFlags.Tree

/-!
# Disks

A directory tree that others use too. A file may have several names, and a name may be a link that
stands for another path, so a path is resolved before anything is done at it. Whoever watches a
directory is told of what happens to the names in it: every operation hands back the disk as it is
afterwards and the changes by which it got there. An operation that fails changes nothing.
-/

namespace FeatureFlags

/-- What a name on a disk stands for, if not for a directory. -/
inductive Disk.Entry where
  /-- A file; names of the same file have the same number. -/
  | file (number : Nat)
  /-- Another path. -/
  | link (target : String)
deriving DecidableEq

/-- A directory tree and its files. -/
structure Disk where
  tree : Tree Disk.Entry
  /-- The bytes of every file, by its number. -/
  contents : List Bytes
deriving DecidableEq

namespace Disk

/-- A name in a directory. -/
structure Place where
  /-- The path of the directory from the root, without links in it. -/
  folder : List String
  name : String
deriving DecidableEq, Repr

namespace Place

/-- The path of a place from the root. -/
def path (p : Place) : List String :=
  p.folder ++ [p.name]

/-- The place that a path from the root ends at; the root itself is at none. -/
def ofPath? (path : List String) : Option Place :=
  path.getLast?.map fun name => ⟨path.dropLast, name⟩

end Place

/-- What whoever watches a directory is told. -/
inductive Change where
  /-- A name is new, or what it stands for has changed. -/
  | touched (place : Place)
  /-- A name is gone. -/
  | removed (place : Place)
  /-- A name has become another one. -/
  | moved (source target : Place)
deriving DecidableEq, Repr

/-- What an operation leads to. -/
abbrev Outcome := Except FileError (Disk × List Change)

/-- The disk with nothing on it. -/
def empty : Disk := ⟨.empty, []⟩

instance : Inhabited Disk := ⟨empty⟩

/-! ## Paths -/

/-- Where a path leads. -/
inductive Spot where
  | folder (path : List String)
  /-- A name that stands for no directory, and what it stands for if it is taken. -/
  | name (place : Place) (entry : Option Entry)
deriving DecidableEq

/-- How many links are followed on the way to one spot. -/
def linkLimit : Nat := 40

/-- Walks down the segments of a path from a directory. A link is followed unless it stands at the
end of the path and `through` is false. -/
def walk (d : Disk) (through : Bool) (links : Nat) (here : List String) :
    List String → Except FileError Spot
  | [] => .ok (.folder here)
  | segment :: rest =>
    if segment = "" ∨ segment = "." then walk d through links here rest
    else if segment = ".." then walk d through links here.dropLast rest
    else if FileError.isTooLong segment then .error .nameTooLong
    else match d.tree.lookup (here ++ [segment]) with
      | none => if rest = [] then .ok (.name ⟨here, segment⟩ none) else .error .notFound
      | some (.branch _) => walk d through links (here ++ [segment]) rest
      | some (.leaf (.file number)) =>
        if rest = [] then .ok (.name ⟨here, segment⟩ (some (.file number)))
        else .error .notADirectory
      | some (.leaf (.link target)) =>
        if rest = [] ∧ !through then .ok (.name ⟨here, segment⟩ (some (.link target)))
        else match links with
          | 0 => .error .linkLoop
          | links + 1 =>
            -- A relative link starts in the directory that it stands in.
            let start := if Path.startsWith target "/" then [] else here
            walk d through links start (Path.segments target ++ rest)
termination_by segments => (links, segments.length)

/-- Where a path from the root leads. -/
def locate (d : Disk) (through : Bool) (path : String) : Except FileError Spot :=
  if path = "" then .error .notFound
  else if FileError.hasNul path then .error .nulInName
  else walk d through linkLimit [] (Path.segments path)

/-- The path of the directory that a spot is. -/
def Spot.folder? : Spot → Except FileError (List String)
  | .folder path => .ok path
  | .name _ none => .error .notFound
  | .name _ (some _) => .error .notADirectory

/-- The directory that a path leads to. -/
def folder (d : Disk) (path : String) : Except FileError (List String) := do
  (← d.locate true path).folder?

/-- The directory in which the last name of a path is looked up. -/
def holder (d : Disk) (path : String) : Except FileError (List String) := do
  (← walk d true linkLimit [] (Path.segments path).dropLast).folder?

/-- The bytes of the file that a path leads to. -/
def read (d : Disk) (path : String) : Except FileError Bytes := do
  match ← d.locate true path with
  | .folder _ => throw .isADirectory
  | .name _ (some (.file number)) => return d.contents[number]?.getD []
  | .name _ _ => throw .notFound

/-! ## Changes -/

/-- The disk with something else at a place. -/
def put (d : Disk) (p : Place) (item : Tree.Item Entry) : Disk :=
  { d with tree := d.tree.modifyAt p.folder (·.put p.name item) }

/-- The disk without anything at a place. -/
def erase (d : Disk) (p : Place) : Disk :=
  { d with tree := d.tree.modifyAt p.folder (·.remove p.name) }

/-- The disk with a new file at a place. -/
def create (d : Disk) (p : Place) (bytes : Bytes) : Disk :=
  { d.put p (.leaf (.file d.contents.length)) with contents := d.contents ++ [bytes] }

/-- The place of a path at which nothing is yet. -/
def vacancy (d : Disk) (path : String) : Except FileError Place := do
  match ← d.locate false path with
  | .name place none => return place
  | _ => throw .exists_

/-- Writes the file that a path leads to, through links. -/
def write (d : Disk) (path : String) (bytes : Bytes) : Outcome := do
  match ← d.locate true path with
  | .folder _ => throw .isADirectory
  | .name place (some (.file number)) =>
    return ({ d with contents := d.contents.set number bytes }, [.touched place])
  | .name place _ => return (d.create place bytes, [.touched place])

/-- Makes a directory. -/
def makeFolder (d : Disk) (path : String) : Outcome := do
  let place ← d.vacancy path
  return (d.put place (.branch .empty), [.touched place])

/-- What making a directory leads to when one that is there already is as good. -/
def orPresent (d : Disk) (path : String) (outcome : Outcome) : Outcome :=
  match outcome with
  | .error e => if (d.folder path).toBool then .ok (d, []) else .error e
  | outcome => outcome

/-- Makes a directory where there is none, and before it those that it lies in. The path is given by
its segments, the last one first. -/
def makeFolders (d : Disk) : List String → Outcome
  | [] => .ok (d, [])
  | segment :: parents =>
    let path := Path.join (segment :: parents).reverse
    match d.makeFolder path with
    | .error .notFound => do
      let (d, before) ← makeFolders d parents
      let (d, changes) ← d.orPresent path (d.makeFolder path)
      return (d, before ++ changes)
    | outcome => d.orPresent path outcome

/-- Puts a new file in the place of what a path names, so that whoever reads it sees the old bytes
or the new ones. Missing directories are made before. -/
def replace (d : Disk) (path : String) (bytes : Bytes) : Outcome := do
  let (d, before) ← d.makeFolders (Path.segments path).dropLast.reverse
  match ← d.locate false path with
  | .folder _ => throw .isADirectory
  | .name place _ => return (d.create place bytes, before ++ [.touched place])

/-- Takes away what a path names. -/
def remove (d : Disk) (path : String) : Outcome := do
  match ← d.locate false path with
  | .folder _ => throw .isADirectory
  | .name _ none => throw .notFound
  | .name place (some _) => return (d.erase place, [.removed place])

/-- Refuses paths with a NUL character in them before anything else is asked about them. -/
def checkNames (paths : List String) : Except FileError Unit :=
  if paths.any FileError.hasNul then .error .nulInName else .ok ()

/-- Gives a file a second name. -/
def addName (d : Disk) (path new : String) : Outcome := do
  checkNames [path, new]
  match ← d.locate false path with
  | .folder _ =>
    let _ ← d.vacancy new
    throw .isADirectory
  | .name _ none => throw .notFound
  | .name _ (some entry) =>
    let place ← d.vacancy new
    return (d.put place (.leaf entry), [.touched place])

/-- Lets a path stand for another one. -/
def addLink (d : Disk) (path target : String) : Outcome := do
  checkNames [path, target]
  let place ← d.vacancy path
  return (d.put place (.leaf (.link target)), [.touched place])

/-- Changes who may use what a path leads to. -/
def protect (d : Disk) (path : String) : Outcome := do
  match ← d.locate true path with
  | .folder path => return (d, ((Place.ofPath? path).map Change.touched).toList)
  | .name _ none => throw .notFound
  | .name place (some _) => return (d, [.touched place])

/-- Moves what is at one place to another. -/
def move (d : Disk) (source target : Place) : Outcome :=
  match d.tree.lookup source.path with
  | some item => .ok ((d.erase source).put target item, [.moved source target])
  | none => .error .notFound

/-- Whether a directory has something in it. -/
def isUsed (d : Disk) (path : List String) : Bool :=
  match d.tree.lookup path with
  | some (.branch inner) => inner.names ≠ []
  | _ => false

/-- Moves the directory at a path to a spot. -/
def renameFolder (d : Disk) (path : List String) (spot : Spot) : Outcome := do
  let source ← ((Place.ofPath? path).map Except.ok).getD (.error .intoItself)
  match spot with
  | .name place entry =>
    if path.isPrefixOf place.folder then throw .intoItself
    else if entry.isSome then throw .notADirectory
    else d.move source place
  | .folder other =>
    if other = path then return (d, [])
    let target ← ((Place.ofPath? other).map Except.ok).getD (.error .notEmpty)
    if path.isPrefixOf other then throw .intoItself
    else if d.isUsed other then throw .notEmpty
    else d.move source target

/-- Gives what a path names another name, in place of what had it. -/
def rename (d : Disk) (path new : String) : Outcome := do
  checkNames [path, new]
  -- Both directories are looked up before either name, so their errors come first.
  let _ ← d.holder path
  let _ ← d.holder new
  match ← d.locate false path with
  | .name _ none => throw .notFound
  | .folder path => d.renameFolder path (← d.locate false new)
  | .name source (some entry) =>
    match ← d.locate false new with
    | .folder other =>
      throw (if other.isPrefixOf source.path then .notEmpty else .isADirectory)
    | .name target other =>
      -- Two names of one file stay as they are.
      let isSame := source = target ∨ (other = some entry ∧ entry matches .file _)
      if isSame then return (d, []) else d.move source target

end Disk

end FeatureFlags
