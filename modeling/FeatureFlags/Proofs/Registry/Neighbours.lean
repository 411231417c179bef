import FeatureFlags.Proofs.FeatureMap.Document
import FeatureFlags.Proofs.Registry.Changes

/-!
# Registries side by side

The registries of several namespaces can use one store. All that a registry looks up or lists stands
below its namespace, and so does all that it changes: a record is deleted from where it says that it
stands, but no registry ever stores one in another place, and an info block is not taken for a
record. So a registry cannot tell whether it is alone, as long as no key can stand below its own
namespace and below another one as well. It does not matter how the names are spelled or what is
asked for, but which segments they have.

* `Apart.not_isBelow` — no key stands below both of two namespaces that are apart.
* `Call.perform_cases` — what a call changes, and where.
* `Alike.perform` — what a call answers depends on nothing but what is below the namespace.
* `answers_ofNamespace` — among any calls of others, a registry gives the answers that it gives
  alone.
-/

namespace FeatureFlags.Registry

/-! ## Calls -/

/-- What can be asked of a registry. -/
inductive Call where
  | set (r : Record)
  | delete (key scope : String)
  | get (key scope : String)
  | list (start scope : String)
  | info
  | setInfo (block : Info)
  | snapshot

/-- What a registry answers. -/
inductive Answer where
  | record (outcome : Except Error Record)
  | records (outcome : Except Error (List Record))
  | info (outcome : Except Error Info)
  | done (outcome : Except Error Unit)
  | snapshot (outcome : Except Error FeatureMap)
deriving DecidableEq

/-- The answer to a call by the registry of a namespace, and the store afterwards. -/
def Call.perform (ns : String) (s : MemoryStore) : Call → Answer × MemoryStore
  | set r =>
    let (outcome, s) := Registry.set ns r s
    (.record outcome, s)
  | delete key scope =>
    let (outcome, s) := Registry.delete ns key scope s
    (.record outcome, s)
  | get key scope => (.record (Registry.get ns key scope s), s)
  | list start scope => (.records (Registry.list ns start scope s), s)
  | info => (.info (Registry.info ns s), s)
  | setInfo block =>
    let (outcome, s) := Registry.setInfo ns block s
    (.done outcome, s)
  | snapshot => (.snapshot (Registry.snapshot ns s), s)

/-- The answers to calls that are made one after the other, each by the registry of a namespace. -/
def answers (s : MemoryStore) : List (String × Call) → List (String × Answer)
  | [] => []
  | (ns, call) :: calls => (ns, (call.perform ns s).1) :: answers (call.perform ns s).2 calls

/-- What concerns the registry of one namespace. -/
def ofNamespace {α : Type} (ns : String) (l : List (String × α)) : List (String × α) :=
  l.filter fun e => e.1 = ns

theorem ofNamespace_cons_self {α : Type} (ns : String) (a : α) (l : List (String × α)) :
    ofNamespace ns ((ns, a) :: l) = (ns, a) :: ofNamespace ns l :=
  List.filter_cons_of_pos (decide_eq_true rfl)

theorem ofNamespace_cons_of_ne {α : Type} {ns who : String} (h : who ≠ ns) (a : α)
    (l : List (String × α)) : ofNamespace ns ((who, a) :: l) = ofNamespace ns l :=
  List.filter_cons_of_neg (by simpa using h)

/-! ## Below a namespace -/

/-- Whether a key stands below a namespace. -/
def IsBelow (ns key : String) : Prop :=
  ∃ rest, key = ns ++ "/" ++ rest

/-- Whether neither of two namespaces is the other one or stands below it. -/
def Apart (ns ns' : String) : Prop :=
  ¬ Path.segments ns <+: Path.segments ns' ∧ ¬ Path.segments ns' <+: Path.segments ns

instance (ns ns' : String) : Decidable (Apart ns ns') :=
  inferInstanceAs (Decidable (_ ∧ _))

variable {ns ns' key start : String}

/-- No key stands below both of two namespaces that are apart. -/
theorem Apart.not_isBelow (h : Apart ns ns') (hKey : IsBelow ns' key) : ¬ IsBelow ns key := by
  rintro ⟨rest, rfl⟩
  obtain ⟨rest', hRest⟩ := hKey
  have hSegments := congrArg Path.segments hRest
  rw [Path.segments_append, Path.segments_append] at hSegments
  -- of two beginnings of one path the shorter one begins the longer one
  have hFirst : Path.segments ns <+: Path.segments ns ++ Path.segments rest :=
    List.prefix_append _ _
  have hSecond : Path.segments ns' <+: Path.segments ns ++ Path.segments rest := by
    rw [hSegments]
    exact List.prefix_append _ _
  rcases List.prefix_or_prefix_of_prefix hFirst hSecond with hPast | hPast
  · exact h.1 hPast
  · exact h.2 hPast

theorem IsBelow.of_startsWith (h : IsBelow ns start) (hStarts : Path.startsWith key start = true) :
    IsBelow ns key := by
  obtain ⟨rest, rfl⟩ := h
  obtain ⟨more, rfl⟩ := Path.startsWith_iff.1 hStarts
  exact ⟨rest ++ more, by rw [String.append_assoc]⟩

theorem isBelow_ofInfo (ns : String) : IsBelow ns (Store.Key.ofInfo ns) :=
  ⟨"info", Path.join_pair ns "info"⟩

theorem isBelow_featuresPrefix (ns : String) : IsBelow ns (Store.Key.featuresPrefix ns) :=
  ⟨_, Path.join_triple ns Store.Key.featuresSegment ""⟩

/-- The keys of records stand below their namespace, and so does every text that keys are listed
by. -/
theorem isBelow_ofFeature (ns scope name : String) :
    IsBelow ns (Store.Key.ofFeature ns scope name) := by
  rw [Store.Key.ofFeature, Store.Key.scopePrefix, Path.join_pair, Path.join_triple,
    String.append_assoc, String.append_assoc]
  exact ⟨_, rfl⟩

/-! ## What a call changes -/

/-- Whether every record in a store belongs under the key that it is under. -/
def IsFiled (s : MemoryStore) : Prop :=
  ∀ key bytes, s.entries.get? key = some bytes →
    ∀ r, Record.parse? bytes = some r → r.storeKey = key

theorem isFiled_empty : IsFiled .empty := by
  intro key bytes h
  cases h

variable {s t : MemoryStore}

/-- What is found in such a store stands where it says. -/
theorem storeKey_of_get (h : IsFiled s) {ns name scope : String} {r : Record}
    (hGet : Registry.get ns name scope s = .ok r) :
    r.storeKey = Store.Key.ofFeature ns scope name := by
  obtain ⟨bytes, hBytes, hParse⟩ := stored?_eq_some_iff.1 (get_eq_ok_iff.1 hGet)
  exact h _ bytes hBytes r hParse

/-- Records are deleted from where they are asked for. -/
theorem delete_of_isFiled (h : IsFiled s) (ns name scope : String) :
    Registry.delete ns name scope s =
      match Registry.get ns name scope s with
      | .error e => (.error e, s)
      | .ok r => (.ok r, s.delete (Store.Key.ofFeature ns scope name)) := by
  rw [delete_eq]
  cases hGet : Registry.get ns name scope s with
  | error e => rfl
  | ok r =>
    -- the record that is found says that it stands where it was found
    simp only [storeKey_of_get h hGet]

/-- What a call changes: nothing, or one entry below the namespace. If that is a record, then it
belongs there. -/
theorem Call.perform_cases (h : IsFiled s) (ns : String) (call : Call) :
    (call.perform ns s).2 = s ∨
    ∃ key, IsBelow ns key ∧
      ((∃ bytes, (call.perform ns s).2 = (s.put key bytes).notify ∧
        ∀ r, Record.parse? bytes = some r → r.storeKey = key) ∨
      (call.perform ns s).2 = s.delete key) := by
  cases call with
  | set r =>
    rcases set_cases ns r s with hSame | ⟨r', hPlaced, hSet⟩
    · exact .inl hSame
    · refine .inr ⟨r'.storeKey, ?_, .inl ⟨r'.write, congrArg Prod.snd hSet, ?_⟩⟩
      · rw [← hPlaced.ns]
        exact isBelow_ofFeature r'.ns r'.scopeName r'.key
      · -- reading the record back may change its value, but not its place
        intro found hParse
        rw [Record.parse?_write] at hParse
        cases hParse
        rfl
  | delete name scope =>
    have hDelete := delete_of_isFiled h ns name scope
    cases hGet : Registry.get ns name scope s with
    | error e =>
      rw [hGet] at hDelete
      exact .inl (congrArg Prod.snd hDelete)
    | ok r =>
      rw [hGet] at hDelete
      exact .inr ⟨_, isBelow_ofFeature ns scope name, .inr (congrArg Prod.snd hDelete)⟩
  | setInfo info =>
    show (MemoryStore.set s (Store.Key.ofInfo ns) info.write).2 = s ∨ _
    by_cases hValid : Store.Key.isValid (Store.Key.ofInfo ns) = true
    · have hSet : MemoryStore.set s (Store.Key.ofInfo ns) info.write =
          (.ok (), (s.put (Store.Key.ofInfo ns) info.write).notify) := if_pos hValid
      refine .inr ⟨_, isBelow_ofInfo ns, .inl ⟨info.write, congrArg Prod.snd hSet, ?_⟩⟩
      -- what is stored here is never taken for a record
      intro r hParse
      rw [info.parse?_write_eq_none] at hParse
      cases hParse
    · exact .inl (congrArg Prod.snd (if_neg hValid))
  | get name scope => exact .inl rfl
  | list start scope => exact .inl rfl
  | info => exact .inl rfl
  | snapshot => exact .inl rfl

/-- Every call leaves the records where they belong. -/
theorem Call.isFiled_perform (h : IsFiled s) (ns : String) (call : Call) :
    IsFiled (call.perform ns s).2 := by
  rcases call.perform_cases h ns with hSame | ⟨key, -, ⟨bytes, hPut, hEntry⟩ | hDelete⟩
  · rw [hSame]
    exact h
  · rw [hPut]
    exact MemoryStore.forall_put h hEntry
  · rw [hDelete]
    intro other bytes hGet
    rw [MemoryStore.get?_delete] at hGet
    split at hGet
    · cases hGet
    · exact h other bytes hGet

/-- No call changes what is elsewhere. -/
theorem Call.get?_perform (h : IsFiled s) (call : Call) (hKey : ¬ IsBelow ns key) :
    (call.perform ns s).2.entries.get? key = s.entries.get? key := by
  rcases call.perform_cases h ns with hSame | ⟨changed, hBelow, ⟨bytes, hPut, -⟩ | hDelete⟩
  · rw [hSame]
  · rw [hPut, MemoryStore.get?_put, if_neg]
    rintro rfl
    exact hKey hBelow
  · rw [hDelete, MemoryStore.get?_delete, if_neg]
    rintro rfl
    exact hKey hBelow

/-! ## What an answer depends on -/

/-- Whether two stores have the same below a namespace. -/
def Alike (ns : String) (s t : MemoryStore) : Prop :=
  ∀ key, IsBelow ns key → s.entries.get? key = t.entries.get? key

namespace Alike

theorem put (h : Alike ns s t) (key : String) (bytes : Bytes) :
    Alike ns (s.put key bytes).notify (t.put key bytes).notify := by
  intro other hOther
  rw [MemoryStore.get?_put, MemoryStore.get?_put, h other hOther]

theorem drop (h : Alike ns s t) (key : String) : Alike ns (s.delete key) (t.delete key) := by
  intro other hOther
  rw [MemoryStore.get?_delete, MemoryStore.get?_delete, h other hOther]

theorem store_set (h : Alike ns s t) (key : String) (bytes : Bytes) :
    (Store.set s key bytes).1 = (Store.set t key bytes).1 ∧
      Alike ns (Store.set s key bytes).2 (Store.set t key bytes).2 := by
  show (MemoryStore.set s key bytes).1 = (MemoryStore.set t key bytes).1 ∧
    Alike ns (MemoryStore.set s key bytes).2 (MemoryStore.set t key bytes).2
  unfold MemoryStore.set
  by_cases hValid : Store.Key.isValid key = true
  · rw [if_pos hValid, if_pos hValid]
    exact ⟨rfl, h.put key bytes⟩
  · rw [if_neg hValid, if_neg hValid]
    exact ⟨rfl, h⟩

theorem store_get? (h : Alike ns s t) (hKey : IsBelow ns key) :
    Store.get? s key = Store.get? t key :=
  congrArg Except.ok (h key hKey)

theorem store_list (h : Alike ns s t) (hStart : IsBelow ns start) :
    Store.list s start = Store.list t start :=
  congrArg Except.ok (MemoryStore.range_congr fun key hKey => h key (hStart.of_startsWith hKey))

theorem stored? (h : Alike ns s t) (hKey : IsBelow ns key) :
    Registry.stored? s key = Registry.stored? t key := by
  rw [Registry.stored?, Registry.stored?, h.store_get? hKey]

theorem get (h : Alike ns s t) (name scope : String) :
    Registry.get ns name scope s = Registry.get ns name scope t := by
  rw [Registry.get, Registry.get, h.stored? (isBelow_ofFeature ns scope name)]

theorem list (h : Alike ns s t) (start scope : String) :
    Registry.list ns start scope s = Registry.list ns start scope t := by
  have hStart : IsBelow ns (Path.join [Store.Key.scopePrefix ns scope, start]) :=
    isBelow_ofFeature ns scope start
  rw [Registry.list, Registry.list, h.store_list hStart]

theorem info (h : Alike ns s t) : Registry.info ns s = Registry.info ns t := by
  rw [Registry.info, Registry.info, h.store_get? (isBelow_ofInfo ns)]

theorem snapshot (h : Alike ns s t) : Registry.snapshot ns s = Registry.snapshot ns t := by
  rw [Registry.snapshot, Registry.snapshot, h.store_list (isBelow_featuresPrefix ns)]

theorem prepare (h : Alike ns s t) (r : Record) :
    Registry.prepare ns r s = Registry.prepare ns r t := by
  have hKey : IsBelow ns (place ns r).storeKey := isBelow_ofFeature ns _ _
  rw [Registry.prepare, Registry.prepare, h.stored? hKey]

theorem set (h : Alike ns s t) (r : Record) :
    (Registry.set ns r s).1 = (Registry.set ns r t).1 ∧
      Alike ns (Registry.set ns r s).2 (Registry.set ns r t).2 := by
  rw [Registry.set, Registry.set, h.prepare r]
  cases Registry.prepare ns r t with
  | error e => exact ⟨rfl, h⟩
  | ok r' =>
    obtain ⟨hOutcome, hAlike⟩ := h.store_set r'.storeKey r'.write
    rcases hs : Store.set s r'.storeKey r'.write with ⟨outcome, s'⟩
    rcases ht : Store.set t r'.storeKey r'.write with ⟨outcome', t'⟩
    rw [hs, ht] at hOutcome hAlike
    -- a key is refused by both stores or by neither
    obtain rfl : outcome = outcome' := hOutcome
    dsimp only
    rw [hs, ht]
    cases outcome with
    | ok u =>
      exact ⟨rfl, hAlike⟩
    | error e => exact ⟨rfl, hAlike⟩

theorem delete (h : Alike ns s t) (hs : IsFiled s) (ht : IsFiled t) (name scope : String) :
    (Registry.delete ns name scope s).1 = (Registry.delete ns name scope t).1 ∧
      Alike ns (Registry.delete ns name scope s).2 (Registry.delete ns name scope t).2 := by
  rw [delete_of_isFiled hs, delete_of_isFiled ht, h.get name scope]
  cases Registry.get ns name scope t with
  | error e => exact ⟨rfl, h⟩
  | ok r => exact ⟨rfl, h.drop _⟩

theorem setInfo (h : Alike ns s t) (info : Info) :
    (Registry.setInfo ns info s).1 = (Registry.setInfo ns info t).1 ∧
      Alike ns (Registry.setInfo ns info s).2 (Registry.setInfo ns info t).2 := by
  obtain ⟨hOutcome, hAlike⟩ := h.store_set (Store.Key.ofInfo ns) info.write
  exact ⟨congrArg (Except.mapError Error.store) hOutcome, hAlike⟩

/-- What a call answers depends on nothing but what is below the namespace, and so does what is
there afterwards. -/
theorem perform (h : Alike ns s t) (hs : IsFiled s) (ht : IsFiled t) (call : Call) :
    (call.perform ns s).1 = (call.perform ns t).1 ∧
      Alike ns (call.perform ns s).2 (call.perform ns t).2 := by
  cases call with
  | set r =>
    obtain ⟨hOutcome, hAlike⟩ := h.set r
    exact ⟨congrArg Answer.record hOutcome, hAlike⟩
  | delete name scope =>
    obtain ⟨hOutcome, hAlike⟩ := h.delete hs ht name scope
    exact ⟨congrArg Answer.record hOutcome, hAlike⟩
  | get name scope => exact ⟨congrArg Answer.record (h.get name scope), h⟩
  | list start scope => exact ⟨congrArg Answer.records (h.list start scope), h⟩
  | info => exact ⟨congrArg Answer.info h.info, h⟩
  | setInfo info =>
    obtain ⟨hOutcome, hAlike⟩ := h.setInfo info
    exact ⟨congrArg Answer.done hOutcome, hAlike⟩
  | snapshot => exact ⟨congrArg Answer.snapshot h.snapshot, h⟩

/-- Among calls of others whose namespaces are apart, a registry answers as it does without them. -/
theorem answers (h : Alike ns s t) (hs : IsFiled s) (ht : IsFiled t)
    {calls : List (String × Call)} (hApart : ∀ e ∈ calls, e.1 ≠ ns → Apart ns e.1) :
    ofNamespace ns (Registry.answers s calls) = Registry.answers t (ofNamespace ns calls) := by
  -- by induction on the calls: the own ones are made on both sides, the others on one
  induction calls generalizing s t with
  | nil => rfl
  | cons head calls ih =>
    obtain ⟨who, call⟩ := head
    have hLater : ∀ e ∈ calls, e.1 ≠ ns → Apart ns e.1 := fun e he =>
      hApart e (List.mem_cons_of_mem _ he)
    have hs' := call.isFiled_perform hs who
    by_cases hWho : who = ns
    · subst hWho
      obtain ⟨hAnswer, hAlike⟩ := h.perform hs ht call
      have hRest := ih hAlike hs' (call.isFiled_perform ht who) hLater
      rw [ofNamespace_cons_self, Registry.answers, Registry.answers, ofNamespace_cons_self, hAnswer,
        hRest]
    · -- what somebody else changes is not below the namespace
      have hAlike : Alike ns (call.perform who s).2 t := by
        intro key hKey
        have hNot : ¬ IsBelow who key := fun hBelow =>
          (hApart _ List.mem_cons_self hWho).not_isBelow hBelow hKey
        rw [call.get?_perform hs hNot, h key hKey]
      rw [ofNamespace_cons_of_ne hWho, Registry.answers, ofNamespace_cons_of_ne hWho,
        ih hAlike hs' ht hLater]

end Alike

/-- Registries of several namespaces use one store, which is empty at first, and are called in any
order. Then a registry whose namespace is apart from those of the others gives exactly the answers
that it gives when nobody else is there. -/
theorem answers_ofNamespace {ns : String} {calls : List (String × Call)}
    (hApart : ∀ e ∈ calls, e.1 ≠ ns → Apart ns e.1) :
    ofNamespace ns (answers .empty calls) = answers .empty (ofNamespace ns calls) :=
  have hAlike : Alike ns .empty .empty := fun _ _ => rfl
  hAlike.answers isFiled_empty isFiled_empty hApart

/-- Calls by two registries, one of which has a name that the other one begins with. Both write a
feature of one name, and one of them deletes it. -/
def neighbours : List (String × Call) :=
  [("a", .set (.ofValue "x" (.bool true))), ("a-b", .set (.ofValue "x" (.bool false))),
    ("a-b", .setInfo ⟨"v1", 1757030409⟩), ("a-b", .delete "x" ""), ("a", .get "x" ""),
    ("a", .list "" ""), ("a-b", .get "x" ""), ("a", .info)]

theorem answers_ofNamespace_neighbours :
    (∀ e ∈ neighbours, e.1 ≠ "a" → Apart "a" e.1) ∧
    ofNamespace "a" (answers .empty neighbours) =
      let x : Record := ⟨some .boolean, "x", "a", "default", some (.bool true), "", ""⟩
      [("a", .record (.ok x)), ("a", .record (.ok x)), ("a", .records (.ok [x])),
        ("a", .info (.ok Info.none))] := by
  have hApart : ∀ e ∈ neighbours, e.1 ≠ "a" → Apart "a" e.1 := by decide
  refine ⟨hApart, ?_⟩
  rw [answers_ofNamespace hApart]
  decide +kernel

end FeatureFlags.Registry
