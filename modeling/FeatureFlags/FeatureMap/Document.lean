import FeatureFlags.Checksum.Sha256
import FeatureFlags.FeatureMap.Basic
import FeatureFlags.Json.Reader
import FeatureFlags.Json.Writer

/-!
# Feature maps as documents

On the wire a feature map is a JSON object with one member: the root name with the info block and
the features.

    { "dcdr": { "info": { "current_version": "abcde", "last_modified": 1757030409 },
                "features": { "default": { "new_ui": true, "rollout": 0.25 },
                              "cc": { "de": { "rollout": 1 } } } } }

Inside the features an object is a scope and everything else a value. The info block may be missing,
and the older names of its fields are understood.

* `Scope.sorted_of_ofDoc?` — what is read is in order, whatever the order of the members.
-/

namespace FeatureFlags

open Json (Doc)

/-! ## Writing -/

/-- The document of a scope, as the members of an object. -/
def Scope.members : Scope → List (Bytes × Doc)
  | .empty => []
  | .leaf name v rest => (Json.rawOf name, v.toDoc) :: Scope.members rest
  | .branch name inner rest =>
    (Json.rawOf name, .object (Scope.members inner)) :: Scope.members rest

namespace Scope

/-- The document of a scope. -/
def toDoc (s : Scope) : Doc :=
  .object (members s)

end Scope

namespace Info

/-- The document of an info block. -/
def toDoc (i : Info) : Doc :=
  .object [(Json.rawOf "current_version", .ofString i.version),
    (Json.rawOf "last_modified", .ofInt i.lastModified.toInt)]

/-- The stored form of an info block. -/
def write (i : Info) : Bytes :=
  i.toDoc.write .compact

end Info

namespace FeatureMap

/-- The document of a map. -/
def toDoc (m : FeatureMap) : Doc :=
  let info := m.info.toList.map fun i => (Json.rawOf "info", i.toDoc)
  let features := (Json.rawOf "features", Scope.toDoc m.features)
  .object [(Json.rawOf m.root, .object (info ++ [features]))]

/-- The published form of a map. -/
def write (m : FeatureMap) : Bytes :=
  m.toDoc.write .indented

/-- A fingerprint of the features: equal trees have equal ones, whatever their info blocks say. -/
def fingerprint (m : FeatureMap) : String :=
  Sha256.hex (Sha256.digest ((Scope.toDoc m.features).write .compact))

end FeatureMap

/-! ## Reading -/

mutual

/-- The member of a scope that a document is: an object is a scope, everything else a value. -/
def Scope.itemOf? (room : Nat) : Doc → Option (Tree.Item Value)
  | .object members =>
    if room = 0 then none
    else (Scope.itemsOf? (room - 1) members).map fun l => .branch (.ofList l)
  | doc => (Value.ofDoc? doc).map .leaf

/-- The members of a scope that the members of an object are. -/
def Scope.itemsOf? (room : Nat) : List (Bytes × Doc) → Option (List (String × Tree.Item Value))
  | [] => some []
  | (raw, doc) :: rest => do
    let name ← Json.text? raw
    let item ← Scope.itemOf? room doc
    return (name, item) :: (← Scope.itemsOf? room rest)

end

/-- The scope that a document is. -/
def Scope.ofDoc? (room : Nat) (doc : Doc) : Option Scope :=
  match Scope.itemOf? room doc with
  | some (.branch s) => some s
  | _ => none

/-- The info block that a document is. Both fields have an older name and may be missing. -/
def Info.ofDoc? (room : Nat) (doc : Doc) : Option Info := do
  let given ← doc.given?
    [["current_version", "current_sha"], ["last_modified", "last_modified_date"]] room
  let version ← given.optional? 0 "" Doc.text?
  let lastModified ← given.optional? 1 0 (Doc.intBetween? Int64.minValue.toInt Int64.maxValue.toInt)
  return ⟨version, .ofInt lastModified⟩

/-- What stands under a root name. -/
structure Root where
  info : Option Info
  features : Scope

/-- What a document puts under a root name. -/
def Root.ofDoc? (room : Nat) (doc : Doc) : Option Root := do
  let given ← doc.given? [["info"], ["features"]] room
  let info ← given.optional? 0 none (Doc.nullable? (Info.ofDoc? (room - 1)))
  let features ← given.optional? 1 .empty (Scope.ofDoc? (room - 1))
  return ⟨info, features⟩

/-! ## Order -/

mutual

theorem Scope.sorted_of_itemOf? (room : Nat) (doc : Doc) {item : Tree.Item Value}
    (h : Scope.itemOf? room doc = some item) : item.Sorted := by
  match doc with
  | .object members =>
    rw [Scope.itemOf?] at h
    split at h
    · simp at h
    · obtain ⟨l, hl, rfl⟩ := Option.map_eq_some_iff.1 h
      exact Tree.sorted_ofList (Scope.sorted_of_itemsOf? (room - 1) members hl)
  | .null | .bool _ | .number _ | .string _ | .array _ =>
    simp only [Scope.itemOf?, Option.map_eq_some_iff] at h
    obtain ⟨v, _, rfl⟩ := h
    trivial

theorem Scope.sorted_of_itemsOf? (room : Nat) (members : List (Bytes × Doc))
    {l : List (String × Tree.Item Value)} (h : Scope.itemsOf? room members = some l) :
    ∀ m ∈ l, m.2.Sorted := by
  match members with
  | [] =>
    cases h
    simp
  | (raw, doc) :: rest =>
    simp only [Scope.itemsOf?, Option.bind_eq_bind, Option.bind_eq_some_iff,
      Option.pure_def, Option.some.injEq] at h
    obtain ⟨name, _, item, hItem, l', hRest, rfl⟩ := h
    intro m hm
    rcases List.mem_cons.1 hm with rfl | hm
    · exact Scope.sorted_of_itemOf? room doc hItem
    · exact Scope.sorted_of_itemsOf? room rest hRest m hm

end

theorem Scope.sorted_of_ofDoc? {room : Nat} {doc : Doc} {s : Scope}
    (h : Scope.ofDoc? room doc = some s) : s.Sorted := by
  rw [Scope.ofDoc?] at h
  split at h
  · next hItem =>
    cases h
    exact Scope.sorted_of_itemOf? room doc hItem
  · simp at h

theorem Root.sorted_of_ofDoc? {room : Nat} {doc : Doc} {r : Root}
    (h : Root.ofDoc? room doc = some r) : r.features.Sorted := by
  simp only [Root.ofDoc?, Option.bind_eq_bind, Option.bind_eq_some_iff, Option.pure_def,
    Option.some.injEq] at h
  obtain ⟨given, _, info, _, features, hFeatures, rfl⟩ := h
  rw [Given.optional?] at hFeatures
  split at hFeatures
  · exact Scope.sorted_of_ofDoc? hFeatures
  · cases hFeatures
    trivial

/-! ## Whole documents -/

/-- Why bytes are no feature map. -/
inductive ParseError where
  /-- They are no document, or not one of this shape. -/
  | malformed
  /-- The outermost object has no root name, or more than one. -/
  | rootCount (found : Nat)
deriving DecidableEq, Repr

namespace ParseError

/-- The text of an error, where there is more to say than that it occurred. -/
def message? : ParseError → Option String
  | malformed => none
  | rootCount found => some s!"expected exactly one root key, found {found}"

end ParseError

/-- What a document puts under its root names, with the proof that it is in order. -/
def Root.sortedOfDoc? (room : Nat) (doc : Doc) : Option { r : Root // r.features.Sorted } :=
  match h : Root.ofDoc? room doc with
  | some r => some ⟨r, Root.sorted_of_ofDoc? h⟩
  | none => none

namespace FeatureMap

/-- The map that bytes are. A wrong number of root names is noticed before anything after the
document is looked at. -/
def parse (bytes : Bytes) : Except ParseError FeatureMap :=
  match Doc.read? bytes with
  | some (.object members, rest) =>
    match Doc.dictionary? (Root.sortedOfDoc? (Json.maxDepth - 1)) members with
    | some roots =>
      match roots.toList with
      -- Members of one name are one root; the last of them counts.
      | [(root, r)] =>
        if Json.isFinished rest then .ok ⟨root, r.val.info, r.val.features, r.property⟩
        else .error .malformed
      | _ => .error (.rootCount roots.size)
    | none => .error .malformed
  | _ => .error .malformed

end FeatureMap

end FeatureFlags
