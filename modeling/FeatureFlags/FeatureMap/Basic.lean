import FeatureFlags.Text.Path
import FeatureFlags.Tree
import FeatureFlags.Value

/-!
# Feature maps

A feature map is a tree of scopes under a root name, with an info block that names its version.
Features without a scope of their own stand in the scope `default`; every other scope overrides it
for those who ask for it. Scopes are addressed by slash-separated paths such as `cc/de`.

Whoever resolves features sees a flat view: the values of the scopes asked for, laid over the
default ones (`FeatureMap.merged`).
-/

namespace FeatureFlags

/-- The scope of features that belong to no other. -/
def defaultScope : String := "default"

/-- The root name of maps that are made in memory. -/
def defaultRoot : String := "dcdr"

/-- A flat view: values by feature name. -/
abbrev Features := SortedMap Value

/-- A scope: its own values and the scopes inside it, by name. -/
abbrev Scope := Tree Value

/-- Which version of the features a map holds, and since when, in seconds since 1970. -/
structure Info where
  version : String
  lastModified : Int64
deriving DecidableEq

namespace Info

/-- The info of nothing. -/
def none : Info := ⟨"", 0⟩

end Info

/-- A versioned tree of features. -/
@[ext]
structure FeatureMap where
  root : String
  info : Option Info
  features : Scope
  sorted : features.Sorted
deriving DecidableEq

namespace FeatureMap

/-- The map that holds nothing but an empty default scope. -/
def empty (root : String) : FeatureMap :=
  ⟨root, .none, .branch defaultScope .empty .empty, by simp [Tree.Sorted, Tree.names, Tree.toList]⟩

instance : Inhabited FeatureMap := ⟨empty defaultRoot⟩

/-- The document served for a flat view: the values stand right under the root. -/
def served (root : String) (info : Option Info) (features : Features) : FeatureMap :=
  ⟨root, info, .ofLeaves features, Tree.sorted_ofLeaves features⟩

/-- The version, empty without an info block. -/
def version (m : FeatureMap) : String :=
  m.info.elim "" Info.version

/-- When the features last changed, if there is an info block. -/
def lastModified (m : FeatureMap) : Option Int64 :=
  m.info.map Info.lastModified

/-- The map with another info block. -/
def setInfo (m : FeatureMap) (info : Info) : FeatureMap :=
  { m with info := some info }

/-- Walks a path down from the root. -/
def lookup (m : FeatureMap) (path : List String) : Option (Tree.Item Value) :=
  m.features.lookup path

/-- The values directly inside the scope at a slash-separated path. A path that leads to no scope
has none. -/
def inScope (m : FeatureMap) (scope : String) : Features :=
  match m.lookup (Path.segments scope) with
  | some (.branch s) => s.leaves
  | _ => .empty

/-- The values of the default scope. -/
def defaults (m : FeatureMap) : Features :=
  m.inScope defaultScope

/-- The scopes in the order in which they are laid over one another: the default scope first, unless
it is asked for, then those asked for from the last to the first. Empty names count for nothing. -/
def layers (scopes : List String) : List String :=
  ((if scopes.contains defaultScope then [] else [defaultScope]) ++ scopes.reverse).filter (· ≠ "")

/-- The flat view for a list of scopes, of which the first has the highest priority. -/
def merged (m : FeatureMap) (scopes : List String) : Features :=
  (layers scopes).foldl (fun view scope => view.extend (m.inScope scope)) .empty

/-- Sets a feature inside a scope. Empty segments of the scope's path count for nothing; scopes on
the way are made where they are missing, also in the place of a value. -/
def insert (m : FeatureMap) (scope name : String) (v : Value) : FeatureMap :=
  { m with
    features := m.features.insertAt (Path.solidSegments scope) name v
    sorted := Tree.sorted_insertAt m.sorted _ name v }

/-- The map with the values that stand right under the root moved into the default scope, where they
win over the ones of the same name. This makes a served document resolvable again. -/
def restored (m : FeatureMap) : FeatureMap :=
  { m with
    features := m.features.branches.put defaultScope
      (.branch ((m.features.child defaultScope).putLeaves m.features.leaves))
    sorted := Tree.sorted_put (Tree.sorted_branches m.sorted) defaultScope
      (Tree.sorted_putLeaves (Tree.sorted_child m.sorted defaultScope) _) }

end FeatureMap

end FeatureFlags
