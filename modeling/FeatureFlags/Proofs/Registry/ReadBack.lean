import FeatureFlags.Proofs.Json.Finite
import FeatureFlags.Proofs.Registry.Writing

/-!
# Reading what has been written

A record is checked before it is put into a document, and what counts afterwards is what the document
says. An infinite number, or what is no number at all, has the kind of a number and passes every
check, but in a document it is nothing. A record that brings no value and finds none is granted too,
if only there is a record in its place. In both cases what is stored has no value, although the
request was granted. A record with a finite value is read as it was written.

* `get_of_set` — what is read of a record that has just been written.
* `isReadBack_set_iff` — when that is the record itself.
-/

namespace FeatureFlags

variable {g : Record}

/-- A record whose value is kept comes back as it was written. -/
theorem Record.reread_eq_self (h : ∀ v, g.value = some v → v.IsKept) : g.reread = g := by
  obtain ⟨kind, key, ns, scope, value, comment, updatedBy⟩ := g
  cases value with
  | none => rfl
  | some v =>
    have hKept : v.reread = some v := h v rfl
    simp [reread, hKept]

/-- A record without a finite value comes back without a value. -/
theorem Record.reread_of_not_isFinite (h : g.value.any Value.isFinite = false) :
    g.reread = { g with value := none } := by
  obtain ⟨kind, key, ns, scope, value, comment, updatedBy⟩ := g
  cases value with
  | none => rfl
  | some v =>
    have hLost : v.reread = none := by
      rw [← Option.not_isSome_iff_eq_none, Value.isSome_reread_iff]
      exact Bool.eq_false_iff.1 h
    simp [reread, hLost]

namespace Registry

variable {ns : String} {r : Record} {s : MemoryStore}

/-- What has just been written is found under its key, and it is read by its name and scope. -/
theorem get_of_set (h : (Registry.set ns r s).1 = .ok g) :
    (Registry.set ns r s).2.recordAt? g.storeKey = some g.reread ∧
      Registry.get ns g.key g.scope (Registry.set ns r s).2 = .ok g.reread := by
  have hRecord : (Registry.set ns r s).2.recordAt? g.storeKey = some g.reread := by
    rw [set_eq_of_ok h, MemoryStore.recordAt?_put, if_pos rfl]
  refine ⟨hRecord, get_eq_ok_iff.2 (stored?_eq_ok_some_iff.2 ?_)⟩
  -- the record stands in the namespace of the registry
  obtain ⟨-, hNs, -⟩ := samePlace_of_prepare (prepare_of_set h)
  rwa [storeKey_eq_ofFeature, hNs] at hRecord

/-- Whether a store holds a record as it was granted: there is a value under its key, of the kind
that is declared there, and whoever asks for the record is given it unchanged. -/
structure IsReadBack (ns : String) (s : MemoryStore) (g : Record) : Prop where
  stored : ∃ found v, s.recordAt? g.storeKey = some found ∧ found.value = some v ∧
    found.kind = some v.kind
  answered : Registry.get ns g.key g.scope s = .ok g

/-- A granted record whose value is kept can be read back. -/
theorem isReadBack_of_isKept {v : Value} (h : (Registry.set ns r s).1 = .ok g)
    (hValue : g.value = some v) (hKept : v.IsKept) :
    IsReadBack ns (Registry.set ns r s).2 g := by
  obtain ⟨hRecord, hGet⟩ := get_of_set h
  have hSame : g.reread = g := by
    refine Record.reread_eq_self ?_
    intro v' hv'
    obtain rfl := Option.some.inj (hValue.symm.trans hv')
    exact hKept
  rw [hSame] at hRecord hGet
  exact ⟨⟨g, v, hRecord, hValue, kind_of_prepare (prepare_of_set h) hValue⟩, hGet⟩

/-- A request to write that fails leaves the store as it is. After one that is granted, the record
is stored with a value of its kind and is read as it was told just when it has a value that is a
truth value or a finite number, provided that finite numbers survive being written and read. Else it
is stored and read without a value. -/
theorem isReadBack_set_iff (ns : String) (r : Record) (s : MemoryStore) :
    (∀ e, (Registry.set ns r s).1 = .error e → (Registry.set ns r s).2 = s) ∧
    ∀ g, (Registry.set ns r s).1 = .ok g →
      (∀ x, g.value = some (.number x) → x.isFinite = true → (Value.number x).IsKept) →
      (IsReadBack ns (Registry.set ns r s).2 g ↔ g.value.any Value.isFinite = true) ∧
      (g.value.any Value.isFinite = false →
        Registry.get ns g.key g.scope (Registry.set ns r s).2 = .ok { g with value := none }) := by
  refine ⟨fun e h => set_of_error h, ?_⟩
  intro g h hKept
  obtain ⟨hRecord, hGet⟩ := get_of_set h
  refine ⟨⟨?_, ?_⟩, ?_⟩
  · -- what is found with a value has been read, so its value is finite
    intro hRead
    by_contra hNot
    obtain ⟨found, v, hFound, hValue, -⟩ := hRead.stored
    rw [hRecord, Record.reread_of_not_isFinite (by simpa using hNot)] at hFound
    cases hFound
    cases hValue
  · intro hFinite
    obtain ⟨v, hValue, hv⟩ := (Option.any_eq_true _ _).1 hFinite
    refine isReadBack_of_isKept h hValue ?_
    cases v with
    | bool b => exact Value.isKept_bool b
    | number x => exact hKept x hValue hv
  · intro hInfinite
    rw [hGet, Record.reread_of_not_isFinite hInfinite]

/-- A number without bound. -/
def boundless : Value := .number (1 / 0)

/-- A number that is written as it is. -/
def half : Value := .number 0.5

/-- A limit of a value, as it is granted. -/
def limit (v : Value) : Record :=
  ⟨some v.kind, "limit", "dcdr", "default", some v, "", ""⟩

/-- A record with a finite number is read back; one with an infinite number is granted as well and
has no value from then on. -/
theorem isReadBack_set_boundless :
    ((Registry.set "dcdr" (.ofValue "limit" half) MemoryStore.empty).1 = .ok (limit half) ∧
      IsReadBack "dcdr" (Registry.set "dcdr" (.ofValue "limit" half) MemoryStore.empty).2
        (limit half)) ∧
    (Registry.set "dcdr" (.ofValue "limit" boundless) MemoryStore.empty).1 =
        .ok (limit boundless) ∧
      Registry.get "dcdr" "limit" "default"
        (Registry.set "dcdr" (.ofValue "limit" boundless) MemoryStore.empty).2 =
          .ok { limit boundless with value := none } := by
  constructor
  · have hSet : (Registry.set "dcdr" (.ofValue "limit" half) MemoryStore.empty).1 =
        .ok (limit half) := by decide +kernel
    obtain ⟨-, hRead⟩ := isReadBack_set_iff "dcdr" (.ofValue "limit" half) .empty
    obtain ⟨hIff, -⟩ := hRead _ hSet fun x hx _ => by
      cases hx
      show Value.reread half = some half
      decide +kernel
    exact ⟨hSet, hIff.2 (by decide +kernel)⟩
  · have hSet : (Registry.set "dcdr" (.ofValue "limit" boundless) MemoryStore.empty).1 =
        .ok (limit boundless) := by decide +kernel
    obtain ⟨-, hRead⟩ := isReadBack_set_iff "dcdr" (.ofValue "limit" boundless) .empty
    obtain ⟨-, hLost⟩ := hRead _ hSet fun x hx hFinite => by
      cases hx
      exact absurd hFinite (by decide +kernel)
    exact ⟨hSet, hLost (by decide +kernel)⟩

end Registry

end FeatureFlags
