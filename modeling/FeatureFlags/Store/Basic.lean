import FeatureFlags.Files.Error
import FeatureFlags.Store.Key
import FeatureFlags.Text.Quoted

/-!
# Stores

A store holds bytes under keys. What every store can do is a class, so that whatever is built on
stores is built on all of them. A change hands back the store as it is afterwards, also when it
failed.
-/

namespace FeatureFlags

namespace Store

/-- Why a store refused. -/
inductive Error where
  /-- A text is no key. -/
  | invalidKey (key : String)
  /-- The files of the store cannot be used. -/
  | file (e : FileError)
deriving DecidableEq, Repr

/-- The text of an error, where there is more to say than what happened to a file. -/
def Error.message? : Error → Option String
  | invalidKey key => some s!"invalid key: {Text.quote key}"
  | file _ => none

end Store

/-- What every store can do. -/
class Store (σ : Type) where
  /-- The bytes under a key, if there are any. -/
  get? : σ → String → Except Store.Error (Option Bytes)
  /-- The entries whose keys begin with a text, in increasing order of their keys. -/
  list : σ → String → Except Store.Error (List Store.Entry)
  /-- Holds bytes under a key from now on. -/
  set : σ → String → Bytes → Except Store.Error Unit × σ
  /-- Forgets what is under a key; there need not be anything. -/
  delete : σ → String → Except Store.Error Unit × σ

end FeatureFlags
