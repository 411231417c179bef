/-!
# File errors

Why an operation on files failed.
-/

namespace FeatureFlags

/-- Why an operation on files failed. -/
inductive FileError where
  | notFound
  /-- Something of that name is there already. -/
  | exists_
  /-- On the way there is a file where a directory is needed. -/
  | notADirectory
  /-- There is a directory where a file is needed. -/
  | isADirectory
  /-- A name is longer than the file system takes. -/
  | nameTooLong
  /-- A name has a NUL character in it, which no path can have. -/
  | nulInName
  /-- Links lead to one another without end. -/
  | linkLoop
  /-- A directory that should go away has something in it. -/
  | notEmpty
  /-- A directory cannot be moved into itself. -/
  | intoItself
deriving DecidableEq, Repr

namespace FileError

/-- The largest number of bytes in the name of a file. -/
def nameLimit : Nat := 255

/-- Whether a name is too long for a file. -/
def isTooLong (name : String) : Bool :=
  nameLimit < name.utf8ByteSize

/-- Whether a name has a NUL character in it. -/
def hasNul (name : String) : Bool :=
  name.toList.contains '\x00'

end FileError

end FeatureFlags
