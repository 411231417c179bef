import FeatureFlags.FeatureMap.Document
import FeatureFlags.Proofs.Record
import FeatureFlags.Proofs.Tree.Members
import FeatureFlags.Proofs.Tree.Shape

/-!
# Feature maps read back

A published map is read back as it was, provided that its numbers come back as they were written and
that it is not higher than documents may be deep.

* `Scope.ofDoc?_toDoc` — a scope comes back.
* `FeatureMap.parse_write` — a map comes back.
-/

namespace FeatureFlags

open Json (Doc)

/-! ## Scopes -/

namespace Scope

theorem membersWellWritten (s : Scope) : Doc.MembersWellWritten (members s) := by
  induction s with
  | empty => trivial
  | leaf name v rest ih => exact ⟨Json.isRaw_rawOf name, v.isWellWritten_toDoc, ih⟩
  | branch name inner rest ihInner ih => exact ⟨Json.isRaw_rawOf name, ihInner, ih⟩

/-- A document that is a value is no scope. -/
theorem itemOf?_toDoc (room : Nat) (v : Value) : itemOf? room v.toDoc = v.reread.map .leaf := by
  cases v with
  | bool b =>
    rw [Value.toDoc, itemOf?]
    · rfl
    · simp
  | number x =>
    show itemOf? room (Doc.ofFloat x) = (Value.ofDoc? (Doc.ofFloat x)).map .leaf
    unfold Doc.ofFloat
    split <;> (rw [itemOf?]; simp)

/-- The members of a scope come back, if documents may be deep enough. -/
theorem itemsOf?_members (room : Nat) {s : Scope} (hSorted : s.Sorted)
    (hKept : s.Forall Value.IsKept)
    (hHeight : s.height ≤ room + 1) : itemsOf? room (members s) = some s.toList := by
  induction s generalizing room with
  | empty => rfl
  | leaf name v rest ih =>
    have hRest := ih room hSorted.2 hKept.2 hHeight
    have hValue : v.reread = some v := hKept.1
    rw [members, itemsOf?, Json.text?_rawOf, itemOf?_toDoc, hValue, hRest]
    rfl
  | branch name inner rest ihInner ih =>
    -- an inner scope is one level further down, and one level of room is used up
    rw [Tree.height] at hHeight
    have hPos := Tree.height_pos inner
    have hRest := ih room hSorted.2.2 hKept.2 (by omega)
    have hInner := ihInner (room - 1) hSorted.2.1 hKept.1 (by omega)
    rw [members, itemsOf?, Json.text?_rawOf, itemOf?, if_neg (by omega), hInner, hRest]
    simp only [Option.map_some, Tree.ofList_toList hSorted.2.1]
    rfl

theorem ofDoc?_toDoc {room : Nat} {s : Scope} (hSorted : s.Sorted) (hKept : s.Forall Value.IsKept)
    (hHeight : s.height ≤ room) : ofDoc? room s.toDoc = some s := by
  have hPos := Tree.height_pos s
  rw [ofDoc?, toDoc, itemOf?, if_neg (by omega),
    itemsOf?_members (room - 1) hSorted hKept (by omega), Option.map_some,
    Tree.ofList_toList hSorted]

end Scope

/-! ## Info blocks -/

namespace Info

theorem isWellWritten_toDoc (i : Info) : i.toDoc.IsWellWritten :=
  ⟨Json.isRaw_rawOf _, Json.isRaw_rawOf _, Json.isRaw_rawOf _, Json.isJson_ofInt _, trivial⟩

theorem ofDoc?_toDoc {room : Nat} (hRoom : 0 < room) (i : Info) : ofDoc? room i.toDoc = some i := by
  have hGiven : Doc.given? [["current_version", "current_sha"],
      ["last_modified", "last_modified_date"]] room i.toDoc =
      some (.byName [some (.ofString i.version), some (.ofInt i.lastModified.toInt)]) :=
    (Json.given?_object _ hRoom [("current_version", .ofString i.version),
      ("last_modified", .ofInt i.lastModified.toInt)]).trans rfl
  have hLow : -2 ^ 63 ≤ i.lastModified.toInt := i.lastModified.le_toInt
  have hHigh : i.lastModified.toInt < 2 ^ 63 := i.lastModified.toInt_lt
  -- a moment is between the limits by its type
  have hInt : Doc.intBetween? Int64.minValue.toInt Int64.maxValue.toInt
      (Doc.ofInt i.lastModified.toInt) = some i.lastModified.toInt := by
    have hMin : Int64.minValue.toInt = -2 ^ 63 := rfl
    have hMax : Int64.maxValue.toInt = 2 ^ 63 - 1 := rfl
    show (Json.int? (.ofInt i.lastModified.toInt)).bind _ = _
    rw [Json.int?_ofInt hLow (by omega), Option.bind_some, hMin, hMax, guard,
      if_pos ⟨hLow, by omega⟩]
    rfl
  unfold ofDoc?
  rw [hGiven]
  show ((Doc.text? (Doc.ofString i.version)).bind fun version =>
    (Doc.intBetween? Int64.minValue.toInt Int64.maxValue.toInt (Doc.ofInt i.lastModified.toInt)).bind
      fun lastModified => some (Info.mk version (Int64.ofInt lastModified))) = some i
  rw [Record.text?_ofString, hInt, Option.bind_some, Option.bind_some, Int64.ofInt_toInt]

/-- An info block is no record, since it has no key. -/
theorem parse?_write_eq_none (i : Info) : Record.parse? i.write = Option.none := by
  have hGiven : ∃ fields, Doc.given? [["feature_type"], ["key"], ["namespace"], ["scope"], ["value"],
      ["comment"], ["updated_by"]] Json.maxDepth i.toDoc = some (.byName fields) ∧
      fields[1]? = some Option.none :=
    ⟨_, (Json.given?_object _ (by decide) [("current_version", .ofString i.version),
      ("last_modified", .ofInt i.lastModified.toInt)]).trans rfl, rfl⟩
  obtain ⟨fields, hFields, hKey⟩ := hGiven
  have hRequired : (Given.byName fields).required? 1 Doc.text? = Option.none := by
    rw [Given.required?, Given.field?, hKey]
    rfl
  unfold Record.parse? write
  rw [Json.ofBytes?_write .compact i.isWellWritten_toDoc, Option.bind_some, Record.ofDoc?, hFields]
  simp only [Option.bind_eq_bind, Option.bind_some, hRequired, Option.bind_none,
    Option.bind_fun_none]

end Info

/-! ## Maps -/

namespace Root

/-- The document that a map's info block and its features are under the map's name. -/
def doc (info : Option Info) (s : Scope) : Doc :=
  .object ((info.toList.map fun i => (Json.rawOf "info", i.toDoc)) ++
    [(Json.rawOf "features", s.toDoc)])

theorem isWellWritten_doc (info : Option Info) (s : Scope) : (doc info s).IsWellWritten := by
  have hScope : Doc.MembersWellWritten [(Json.rawOf "features", s.toDoc)] :=
    ⟨Json.isRaw_rawOf _, Scope.membersWellWritten s, trivial⟩
  show Doc.MembersWellWritten _
  cases info with
  | none => exact hScope
  | some i => exact ⟨Json.isRaw_rawOf _, i.isWellWritten_toDoc, hScope⟩

/-- What is read under a map's name has the info block, and what is read of the features. -/
theorem ofDoc?_doc {room : Nat} (hRoom : 1 < room) (info : Option Info) (s : Scope) :
    ofDoc? room (doc info s) = (Scope.ofDoc? (room - 1) s.toDoc).map (Root.mk info) := by
  have hInfo : ∀ i : Info, Doc.nullable? (Info.ofDoc? (room - 1)) i.toDoc = some (some i) := by
    intro i
    show (Info.ofDoc? (room - 1) i.toDoc).map some = _
    rw [Info.ofDoc?_toDoc (by omega), Option.map_some]
  unfold ofDoc? doc
  cases info with
  | none =>
    have hGiven : Doc.given? [["info"], ["features"]] room
        (.object [(Json.rawOf "features", s.toDoc)]) = some (.byName [none, some s.toDoc]) :=
      (Json.given?_object _ (by omega) [("features", s.toDoc)]).trans rfl
    rw [Option.toList_none, List.map_nil, List.nil_append, hGiven]
    show (Scope.ofDoc? (room - 1) s.toDoc).bind (fun features => some (Root.mk none features)) = _
    exact (Option.map_eq_bind ..).symm
  | some i =>
    have hGiven : Doc.given? [["info"], ["features"]] room
        (.object [(Json.rawOf "info", i.toDoc), (Json.rawOf "features", s.toDoc)]) =
        some (.byName [some i.toDoc, some s.toDoc]) :=
      (Json.given?_object _ (by omega) [("info", i.toDoc), ("features", s.toDoc)]).trans rfl
    rw [Option.toList_some, List.map_cons, List.map_nil, List.cons_append, List.nil_append, hGiven]
    show ((Doc.nullable? (Info.ofDoc? (room - 1)) i.toDoc).bind fun info =>
      (Scope.ofDoc? (room - 1) s.toDoc).bind fun features => some (Root.mk info features)) = _
    rw [hInfo, Option.bind_some]
    exact (Option.map_eq_bind ..).symm

theorem sortedOfDoc?_eq_some_iff {room : Nat} {doc : Doc} {r : { r : Root // r.features.Sorted }} :
    sortedOfDoc? room doc = some r ↔ ofDoc? room doc = some r.val := by
  -- the branch taken is the one in which reading has succeeded
  unfold sortedOfDoc?
  split
  · next r' hr =>
    constructor
    · intro h
      cases h
      exact hr
    · intro h
      exact congrArg some (Subtype.ext (Option.some.inj (hr.symm.trans h)))
  · next hr =>
    rw [hr]
    exact ⟨nofun, nofun⟩

end Root

namespace FeatureMap

/-- How high the features of a map may be so that its document can be read. -/
def heightLimit : Nat := Json.maxDepth - 2

theorem isWellWritten_toDoc (m : FeatureMap) : m.toDoc.IsWellWritten :=
  ⟨Json.isRaw_rawOf m.root, Root.isWellWritten_doc m.info m.features, trivial⟩

/-- What is read of a written map has its name and its info block, and what is read of its
features. -/
theorem parse_write_eq_ok_iff {m m' : FeatureMap} :
    parse m.write = .ok m' ↔
      m'.root = m.root ∧ m'.info = m.info ∧
        Scope.ofDoc? heightLimit m.features.toDoc = some m'.features := by
  have hRoot : Root.ofDoc? (Json.maxDepth - 1) (Root.doc m.info m.features) =
      (Scope.ofDoc? heightLimit m.features.toDoc).map (Root.mk m.info) :=
    Root.ofDoc?_doc (by decide) m.info m.features
  -- the document has one root, whose name is that of the map
  have hDictionary : Doc.dictionary? (Root.sortedOfDoc? (Json.maxDepth - 1))
      [(Json.rawOf m.root, Root.doc m.info m.features)] =
      (Root.sortedOfDoc? (Json.maxDepth - 1) (Root.doc m.info m.features)).map
        fun r => SortedMap.ofList [(m.root, r)] := by
    have hNamed := Json.namedMembers?_rawOf [(m.root, Root.doc m.info m.features)]
    rw [List.map_cons, List.map_nil] at hNamed
    unfold Doc.dictionary?
    rw [hNamed]
    simp only [List.mapM_cons, List.mapM_nil, Option.bind_eq_bind, Option.bind_some,
      Option.pure_def, Option.bind_assoc, Option.map_eq_bind]
    rfl
  have hDoc : m.toDoc = .object [(Json.rawOf m.root, Root.doc m.info m.features)] := rfl
  unfold parse write
  rw [Json.read?_write .indented m.isWellWritten_toDoc, hDoc]
  simp only [hDictionary]
  cases hScope : Scope.ofDoc? heightLimit m.features.toDoc with
  | none =>
    rw [hScope, Option.map_none] at hRoot
    have hNone : Root.sortedOfDoc? (Json.maxDepth - 1) (Root.doc m.info m.features) = none := by
      rw [Option.eq_none_iff_forall_ne_some]
      intro r hr
      rw [Root.sortedOfDoc?_eq_some_iff, hRoot] at hr
      cases hr
    rw [hNone, Option.map_none]
    exact ⟨nofun, fun h => nomatch h.2.2⟩
  | some s =>
    rw [hScope, Option.map_some] at hRoot
    have hSome : Root.sortedOfDoc? (Json.maxDepth - 1) (Root.doc m.info m.features) =
        some ⟨⟨m.info, s⟩, Scope.sorted_of_ofDoc? hScope⟩ :=
      Root.sortedOfDoc?_eq_some_iff.2 hRoot
    rw [hSome, Option.map_some]
    show Except.ok (FeatureMap.mk m.root m.info s _) = Except.ok m' ↔ _
    rw [Except.ok.injEq, Option.some.injEq]
    constructor
    · rintro rfl
      exact ⟨rfl, rfl, rfl⟩
    · obtain ⟨root, info, features, sorted⟩ := m'
      rintro ⟨rfl, rfl, rfl⟩
      rfl

/-- A map is read back as it was written. -/
theorem parse_write (m : FeatureMap) (hKept : m.features.Forall Value.IsKept)
    (hHeight : m.features.height ≤ heightLimit) : parse m.write = .ok m :=
  parse_write_eq_ok_iff.2 ⟨rfl, rfl, Scope.ofDoc?_toDoc m.sorted hKept hHeight⟩

end FeatureMap

end FeatureFlags
