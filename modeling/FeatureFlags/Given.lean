/-!
# Given fields

What somebody gave for the fields of a record: by name, where a field may have several names but may
be given only once, or by position, where the fields come in their order and the last ones may be
missing. Members with other names are ignored.

The fields themselves are of any type `δ`, so every notation in which records are written shares
these rules.
-/

namespace FeatureFlags

universe u v

/-- What is given for the fields of a record. -/
inductive Given (δ : Type u) where
  /-- By name: every field has something given for it or not. -/
  | byName (fields : List (Option δ))
  /-- By position: what is given for the first fields. -/
  | byPosition (fields : List δ)

namespace Given

variable {δ : Type u} {α : Type v}

/-- What is given under one of the names of a field; two of them are one too many. -/
def only? (names : List String) (members : List (String × δ)) : Option (Option δ) :=
  match members.filter fun (name, _) => names.contains name with
  | [] => some none
  | [(_, d)] => some (some d)
  | _ => none

/-- What members give for a record whose fields have these names. -/
def ofMembers? (names : List (List String)) (members : List (String × δ)) : Option (Given δ) :=
  (names.mapM fun field => only? field members).map byName

/-- What a list gives for a record of so many fields. -/
def ofItems? (size : Nat) (items : List δ) : Option (Given δ) :=
  if items.length ≤ size then some (.byPosition items) else none

/-- What is given for the `i`-th field. -/
def field? (given : Given δ) (i : Nat) : Option δ :=
  match given with
  | .byName fields => (fields[i]?).join
  | .byPosition items => items[i]?

/-- Reads the `i`-th field, which must be given. -/
def required? (given : Given δ) (i : Nat) (read : δ → Option α) : Option α :=
  (given.field? i).bind read

/-- Reads the `i`-th field if it is given and takes a default otherwise. -/
def optional? (given : Given δ) (i : Nat) (default : α) (read : δ → Option α) : Option α :=
  match given.field? i with
  | some d => read d
  | none => some default

/-- Reads the `i`-th field, which may be missing by name; by position it must be given. -/
def missable? (given : Given δ) (i : Nat) (read : δ → Option (Option α)) : Option (Option α) :=
  match given, given.field? i with
  | _, some d => read d
  | .byName _, none => some none
  | .byPosition _, none => none

end Given

end FeatureFlags
