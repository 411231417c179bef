import FeatureFlags.Proofs.Record
import FeatureFlags.Registry

/-!
# The verdict on a request to write

A request to write is laid over the record that is stored in its place: what it leaves empty is taken
from there, and a kind that neither of them declares is taken from the value. Whether it is granted
depends on nothing else than the request and the stored record, and the checks are made in a fixed
order.

* `refusal?` — why a request is refused, in the order of the checks.
* `prepare_of_stored` — what is written, or why nothing is.
* `exists_of_prepare` — where a record that is written comes from.
-/

namespace FeatureFlags.Registry

variable {σ : Type} [Store σ] {s : σ} {ns : String} {r r' old : Record}

/-! ## Places -/

theorem scopeOrDefault_ne (scope : String) : Store.Key.scopeOrDefault scope ≠ "" := by
  unfold Store.Key.scopeOrDefault
  split
  · decide
  · assumption

/-- The key under which a request wants its record. -/
def address (ns : String) (r : Record) : String :=
  Store.Key.ofFeature ns r.scope r.key

theorem scopeOrDefault_scopeOrDefault (scope : String) :
    Store.Key.scopeOrDefault (Store.Key.scopeOrDefault scope) =
      Store.Key.scopeOrDefault scope :=
  if_neg (scopeOrDefault_ne scope)

theorem ofFeature_scopeOrDefault (ns scope name : String) :
    Store.Key.ofFeature ns (Store.Key.scopeOrDefault scope) name =
      Store.Key.ofFeature ns scope name := by
  unfold Store.Key.ofFeature Store.Key.scopePrefix
  rw [scopeOrDefault_scopeOrDefault]

/-- A record stands where its fields say, whether its scope is spelled out or not. -/
theorem storeKey_eq_ofFeature (r : Record) :
    r.storeKey = Store.Key.ofFeature r.ns r.scope r.key :=
  ofFeature_scopeOrDefault r.ns r.scope r.key

theorem storeKey_place (ns : String) (r : Record) : (place ns r).storeKey = address ns r := by
  rw [storeKey_eq_ofFeature]
  exact ofFeature_scopeOrDefault ns r.scope r.key

/-! ## Requests over stored records -/

/-- A request laid over the stored record. Its kind is the one that is declared, by itself or else by
the stored record. -/
def laidOver (ns : String) (r : Record) (old : Option Record) : Record where
  kind := r.kind.or (old.bind Record.kind)
  key := r.key
  ns := ns
  scope := r.scopeName
  value := r.value.or (old.bind Record.value)
  comment := if r.comment = "" then (old.map Record.comment).getD "" else r.comment
  updatedBy := r.updatedBy

/-- A record with the kind that it declares, or else with that of its value. -/
def typed (r : Record) : Record :=
  { r with kind := r.kind.or (r.value.map Value.kind) }

/-- Whether a request declares another kind than the stored record does. -/
def changesKind (r : Record) (old : Option Record) : Bool :=
  r.kind.any fun new => (old.bind Record.kind).any fun kind => new ≠ kind

/-- The kind that a record declares, if its value is not of it. -/
def mismatch? (r : Record) : Option Kind :=
  r.kind.filter fun kind => r.value.any fun v => kind ≠ v.kind

/-- Why a request is refused, if it is. The first check that fails decides. -/
def refusal? (ns : String) (r : Record) (old : Option Record) : Option Error :=
  if r.key = "" then some .emptyKey
  else if '/' ∈ r.key.toList then some (.slashInKey r.key)
  else if changesKind r old then some .kindChange
  else if old = none ∧ r.value = none then some .noValue
  else (mismatch? (laidOver ns r old)).map .kindMismatch

/-- The outcome of preparing a request: the reason why it is refused, or what is written. -/
def verdict (refusal : Option Error) (written : Record) : Except Error Record :=
  match refusal with
  | some e => .error e
  | none => .ok written

theorem withKind_eq (r : Record) :
    withKind r = verdict ((mismatch? r).map .kindMismatch) (typed r) := by
  obtain ⟨kind, key, ns, scope, value, comment, updatedBy⟩ := r
  unfold withKind mismatch? typed
  cases value with
  | none =>
    cases kind with
    | none => rfl
    | some kind => rfl
  | some v =>
    cases kind with
    | none => rfl
    | some kind =>
      by_cases hKind : kind = v.kind
      · simp [hKind, verdict, Option.filter]
      · simp [hKind, verdict, Option.filter]

theorem fill_eq (ns : String) (r old : Record) :
    fill (place ns r) old =
      if changesKind r (some old) then .error .kindChange else .ok (laidOver ns r (some old)) := by
  obtain ⟨kind, key, _, scope, value, comment, updatedBy⟩ := r
  unfold fill changesKind laidOver place
  cases kind with
  | none => rfl
  | some new =>
    cases hOld : old.kind with
    | none => simp [hOld]
    | some kind =>
      by_cases hKind : new = kind
      · simp [hOld, hKind]
      · simp [hOld, hKind]

/-- What a request amounts to, given the stored record. -/
theorem complete_eq (ns : String) (r : Record) (old : Option Record) :
    complete (place ns r) old =
      if changesKind r old then .error .kindChange
      else if old = none ∧ r.value = none then .error .noValue
      else verdict ((mismatch? (laidOver ns r old)).map .kindMismatch)
        (typed (laidOver ns r old)) := by
  cases old with
  | some old =>
    rw [if_neg (c := some old = none ∧ _) (by simp)]
    show (fill (place ns r) old).bind withKind = _
    rw [fill_eq]
    split
    · rfl
    · exact withKind_eq _
  | none =>
    have hSame : changesKind r none = false := by simp [changesKind]
    -- over nothing a request is what it is in its place
    have hPlace : laidOver ns r none = place ns r := by
      simp [laidOver, place]
    rw [hSame, hPlace, ← withKind_eq]
    show (if r.value.isNone then _ else _) = _
    cases hValue : r.value with
    | none => simp
    | some v => simp

/-- What is written for a request, or why nothing is. -/
theorem prepare_of_stored {old : Option Record} (h : stored? s (address ns r) = .ok old) :
    prepare ns r s = verdict (refusal? ns r old) (typed (laidOver ns r old)) := by
  unfold prepare refusal?
  rw [storeKey_place, h]
  by_cases hKey : r.key = ""
  · rw [if_pos hKey, if_pos hKey]
    rfl
  · by_cases hSlash : '/' ∈ r.key.toList
    · rw [if_neg hKey, if_neg hKey, if_pos hSlash, if_pos (by simpa using hSlash)]
      rfl
    · rw [if_neg hKey, if_neg hKey, if_neg hSlash, if_neg (by simpa using hSlash)]
      show complete (place ns r) old = _
      rw [complete_eq]
      split
      · rfl
      · split
        · rfl
        · rfl

theorem storeKey_laidOver (ns : String) (r : Record) (old : Option Record) :
    (typed (laidOver ns r old)).storeKey = address ns r := by
  rw [storeKey_eq_ofFeature]
  exact ofFeature_scopeOrDefault ns r.scope r.key

/-- What is granted has passed every check. -/
theorem of_refusal?_eq_none {old : Option Record} (h : refusal? ns r old = none) :
    r.key ≠ "" ∧ '/' ∉ r.key.toList ∧ changesKind r old = false ∧
      ¬ (old = none ∧ r.value = none) ∧ mismatch? (laidOver ns r old) = none := by
  unfold refusal? at h
  split at h
  · cases h
  · next hKey =>
    split at h
    · cases h
    · next hSlash =>
      split at h
      · cases h
      · next hSame =>
        split at h
        · cases h
        · next hValue =>
          exact ⟨hKey, hSlash, by simpa using hSame, hValue, Option.map_eq_none_iff.1 h⟩

/-- A request that is granted has been laid over what is stored in its place. -/
theorem exists_of_prepare (h : prepare ns r s = .ok r') :
    ∃ old, stored? s (address ns r) = .ok old ∧ refusal? ns r old = none ∧
      r' = typed (laidOver ns r old) := by
  cases hStored : stored? s (address ns r) with
  | error e =>
    -- neither of the checks of the name grants anything
    unfold prepare at h
    rw [storeKey_place, hStored] at h
    split at h
    · cases h
    · split at h
      · cases h
      · cases h
  | ok old =>
    rw [prepare_of_stored hStored] at h
    cases hRefusal : refusal? ns r old with
    | some e =>
      rw [hRefusal] at h
      cases h
    | none =>
      rw [hRefusal] at h
      cases h
      exact ⟨old, rfl, hRefusal, rfl⟩

/-- The value of a record that is written is of the record's kind. -/
theorem kind_of_prepare {v : Value} (h : prepare ns r s = .ok r') (hValue : r'.value = some v) :
    r'.kind = some v.kind := by
  obtain ⟨old, -, hRefusal, rfl⟩ := exists_of_prepare h
  obtain ⟨-, -, -, -, hMatch⟩ := of_refusal?_eq_none hRefusal
  have hOver : (laidOver ns r old).value = some v := hValue
  show (laidOver ns r old).kind.or ((laidOver ns r old).value.map Value.kind) = some v.kind
  unfold mismatch? at hMatch
  rw [hOver] at hMatch ⊢
  cases hKind : (laidOver ns r old).kind with
  | none => rfl
  | some kind =>
    rw [hKind] at hMatch
    have hSame : kind = v.kind := by simpa [Option.filter] using hMatch
    rw [hSame]
    rfl

/-- A request over a stored record that declares a kind has that kind. -/
theorem kind_laidOver {kind : Kind} (hSame : changesKind r (some old) = false) (hKind : old.kind = some kind) :
    (typed (laidOver ns r (some old))).kind = some kind := by
  cases hNew : r.kind with
  | none => simp [typed, laidOver, hNew, hKind]
  | some new =>
    have hEq : new = kind := by simpa [changesKind, hNew, hKind] using hSame
    simp [typed, laidOver, hNew, hEq]

end FeatureFlags.Registry
