import FeatureFlags.Proofs.Json.Document
import FeatureFlags.Proofs.Json.Magnitude
import FeatureFlags.Record

/-!
# Records read back

A record that is stored is read back field by field. Only a number may come back as another one, or
not at all when it is infinite or no number: `Value.reread` is what comes back of a value.

* `Record.parse?_write` — what comes back of a record.
-/

namespace FeatureFlags

open Json (Doc)

/-! ## Values -/

namespace Value

/-- What comes back of a value that is written and read. -/
def reread (v : Value) : Option Value :=
  ofDoc? v.toDoc

/-- Whether a value comes back as it was written. -/
def IsKept (v : Value) : Prop :=
  v.reread = some v

theorem isKept_bool (b : Bool) : (Value.bool b).IsKept :=
  rfl

theorem isWellWritten_toDoc (v : Value) : v.toDoc.IsWellWritten := by
  cases v with
  | bool b => trivial
  | number x =>
    show (Doc.ofFloat x).IsWellWritten
    unfold Doc.ofFloat
    split
    · next n hn => exact Json.isJson_numeral? hn
    · trivial

/-- A null stands for no value, and whatever else is written for a value can be read. -/
theorem nullable?_toDoc (v : Value) : Doc.nullable? ofDoc? v.toDoc = some v.reread := by
  unfold reread
  cases v with
  | bool b => rfl
  | number x =>
    show Doc.nullable? ofDoc? (Doc.ofFloat x) = some (ofDoc? (Doc.ofFloat x))
    unfold Doc.ofFloat
    split
    · next n hn =>
      -- a double that is written can be read, maybe as another one
      obtain ⟨y, hy⟩ := Option.isSome_iff_exists.1 (Json.float?_isSome hn)
      show ((Json.float? n).map number).map some = some ((Json.float? n).map number)
      rw [hy]
      rfl
    · rfl

end Value

/-! ## Names of members -/

/-- The names of members are the texts that they are written for. -/
theorem Json.namedMembers?_rawOf (members : List (String × Doc)) :
    Doc.namedMembers? (members.map fun m => (Json.rawOf m.1, m.2)) = some members := by
  unfold Doc.namedMembers?
  induction members with
  | nil => rfl
  | cons m members ih =>
    simp only [Option.bind_eq_bind, Option.pure_def] at ih
    simp only [List.map_cons, List.mapM_cons, Json.text?_rawOf, ih, Option.bind_eq_bind,
      Option.bind_some, Option.pure_def]

/-- What is given for the fields of a record by members with the names of texts. -/
theorem Json.given?_object (names : List (List String)) {room : Nat} (hRoom : 0 < room)
    (members : List (String × Doc)) :
    Doc.given? names room (.object (members.map fun m => (Json.rawOf m.1, m.2))) =
      Given.ofMembers? names members := by
  unfold Doc.given?
  simp only [guard, if_pos hRoom, namedMembers?_rawOf, Option.bind_eq_bind, Option.bind_some,
    Option.pure_def]

/-! ## Kinds -/

theorem Kind.isWellWritten_toDoc (k : Kind) : k.toDoc.IsWellWritten :=
  Json.isRaw_rawOf k.name

theorem Kind.ofDoc?_toDoc (room : Nat) (k : Kind) : Kind.ofDoc? room k.toDoc = some k := by
  show (Json.text? (Json.rawOf k.name)).bind ofName? = some k
  rw [Json.text?_rawOf]
  cases k <;> rfl

/-! ## Records -/

namespace Record

theorem isWellWritten_toDoc (r : Record) : r.toDoc.IsWellWritten := by
  have hKind : (r.kind.elim Doc.null Kind.toDoc).IsWellWritten := by
    cases r.kind with
    | none => trivial
    | some k => exact k.isWellWritten_toDoc
  have hValue : (r.value.elim Doc.null Value.toDoc).IsWellWritten := by
    cases r.value with
    | none => trivial
    | some v => exact v.isWellWritten_toDoc
  have hText : ∀ s, (Doc.ofString s).IsWellWritten := Json.isRaw_rawOf
  exact ⟨Json.isRaw_rawOf _, hKind, Json.isRaw_rawOf _, hText _, Json.isRaw_rawOf _, hText _,
    Json.isRaw_rawOf _, hText _, Json.isRaw_rawOf _, hValue, Json.isRaw_rawOf _, hText _,
    Json.isRaw_rawOf _, hText _, trivial⟩

/-- What is given for the fields of a stored record. -/
theorem given?_toDoc {room : Nat} (hRoom : 0 < room) (r : Record) :
    Doc.given? [["feature_type"], ["key"], ["namespace"], ["scope"], ["value"], ["comment"],
      ["updated_by"]] room r.toDoc =
    some (.byName [some (r.kind.elim .null Kind.toDoc), some (.ofString r.key),
      some (.ofString r.ns), some (.ofString r.scope), some (r.value.elim .null Value.toDoc),
      some (.ofString r.comment), some (.ofString r.updatedBy)]) := by
  have hGiven := Json.given?_object [["feature_type"], ["key"], ["namespace"], ["scope"], ["value"],
    ["comment"], ["updated_by"]] hRoom [("feature_type", r.kind.elim .null Kind.toDoc),
    ("key", .ofString r.key), ("namespace", .ofString r.ns), ("scope", .ofString r.scope),
    ("value", r.value.elim .null Value.toDoc), ("comment", .ofString r.comment),
    ("updated_by", .ofString r.updatedBy)]
  exact hGiven.trans rfl

theorem nullable?_kind {room : Nat} (kind : Option Kind) :
    Doc.nullable? (Kind.ofDoc? room) (kind.elim .null Kind.toDoc) = some kind := by
  cases kind with
  | none => rfl
  | some k =>
    show (Kind.ofDoc? room k.toDoc).map some = some (some k)
    rw [Kind.ofDoc?_toDoc]
    rfl

theorem nullable?_value (value : Option Value) :
    Doc.nullable? Value.ofDoc? (value.elim .null Value.toDoc) = some (value.bind Value.reread) := by
  cases value with
  | none => rfl
  | some v => exact v.nullable?_toDoc

theorem text?_ofString (s : String) : Doc.text? (Doc.ofString s) = some s :=
  Json.text?_rawOf s

theorem ofDoc?_toDoc {room : Nat} (hRoom : 0 < room) (r : Record) :
    ofDoc? room r.toDoc = some { r with value := r.value.bind Value.reread } := by
  unfold ofDoc?
  rw [given?_toDoc hRoom]
  simp only [Given.optional?, Given.required?, Given.field?, List.getElem?_cons_zero,
    List.getElem?_cons_succ, Option.join_some, Option.bind_some, Option.bind_eq_bind,
    nullable?_kind, nullable?_value, text?_ofString, Option.pure_def]

/-- What comes back of a record is the record, with what comes back of its value. -/
theorem parse?_write (r : Record) :
    parse? r.write = some { r with value := r.value.bind Value.reread } := by
  unfold parse? write
  rw [Json.ofBytes?_write .compact r.isWellWritten_toDoc, Option.bind_some]
  exact ofDoc?_toDoc (by decide) r

end Record

end FeatureFlags
