import FeatureFlags.Client.Basic

/-!
# Editable clients

A client for tests, whose features are set one by one instead of being loaded. Every edit installs
the whole map anew; its maps have no version, so none of them is held back.
-/

namespace FeatureFlags

/-- A client and the map that it is given piece by piece. -/
structure EditableClient where
  map : FeatureMap
  client : Client

namespace EditableClient

/-- The client of the empty map. -/
def new : EditableClient :=
  ⟨.empty defaultRoot, Client.new.install (.empty defaultRoot)⟩

/-- Sets a feature in a scope. -/
def set (e : EditableClient) (scope feature : String) (value : Value) : EditableClient :=
  let map := e.map.insert scope feature value
  ⟨map, e.client.install map⟩

/-- Switches a feature on or off. -/
def switch (e : EditableClient) (feature : String) (enabled : Bool) : EditableClient :=
  e.set defaultScope feature (.bool enabled)

/-- Rolls a feature out to everybody or to nobody. -/
def rollOut (e : EditableClient) (feature : String) (toEverybody : Bool) : EditableClient :=
  e.set defaultScope feature (.number (if toEverybody then 1 else 0))

end EditableClient

end FeatureFlags
