import FeatureFlags.Client.Basic

/-!
# Families of clients

Several handles may stand for one client: what is installed through one of them is seen through all
of them. Cloning a handle shares its client, and so does asking for no scopes; asking for scopes
makes a new client, which starts with the same map and is on its own from then on.
-/

namespace FeatureFlags

/-- Clients under named handles. -/
structure Family where
  clients : List Client
  /-- Where the client of each handle stands. -/
  handles : SortedMap Nat

namespace Family

/-- The family without clients. -/
def empty : Family := ⟨[], .empty⟩

instance : Inhabited Family := ⟨empty⟩

/-- The client of a handle. -/
def get? (f : Family) (handle : String) : Option Client := do
  f.clients[← f.handles.get? handle]?

/-- Gives a client of its own to a handle. -/
def add (f : Family) (handle : String) (c : Client) : Family :=
  ⟨f.clients ++ [c], f.handles.insert handle f.clients.length⟩

/-- Lets a handle share the client of another one. -/
def share (f : Family) (handle new : String) : Family :=
  match f.handles.get? handle with
  | some i => { f with handles := f.handles.insert new i }
  | none => f

/-- Gives a client for further scopes to a handle. -/
def derive (f : Family) (handle : String) (scopes : List String) (new : String) : Family :=
  if Client.asksForNothing scopes then f.share handle new
  else match f.get? handle with
    | some c => f.add new (c.withScopes scopes)
    | none => f

/-- Replaces the client of a handle. -/
def set (f : Family) (handle : String) (c : Client) : Family :=
  match f.handles.get? handle with
  | some i => { f with clients := f.clients.set i c }
  | none => f

/-- Applies a change to the client of a handle. -/
def modify (f : Family) (handle : String) (change : Client → Client) : Family :=
  match f.get? handle with
  | some c => f.set handle (change c)
  | none => f

end Family

end FeatureFlags
