import FeatureFlags.Client.Counting
import FeatureFlags.Proofs.Client.Basic

/-!
# What is counted

A client that counts answers as the client in it does at the moment of the question, whatever was
asked before and whatever is installed in between. Each check is counted once, under a key that
tells the feature and the outcome: all keys of a client begin alike, and behind its last point a key
has the word for the outcome, so that points in the name of a feature do no harm.

* `Question`, `Event` — what can be asked of a client, and what can happen to it.
* `checks` — the checks among the questions with their outcomes, told by a client that does not
  count.
* `key_injective` — no two checks share a key unless feature and outcome are the same.
* `counted_run` — the answers and the counts after everything that can happen.
-/

namespace FeatureFlags

/-! ## Questions -/

/-- What can be asked of a client. -/
inductive Question where
  | isAvailable (feature : String)
  | isAvailableFor (feature : String) (id : UInt64)
  | scale (feature : String) (low high : Float)
  | has (feature : String)
  | features
  | scopes

/-- What a client answers. -/
inductive Answer where
  | yesNo (b : Bool)
  | number (x : Float)
  | features (features : Features)
  | scopes (scopes : List String)

/-- What can happen to a client: it is asked something, or somebody installs a map or bytes. -/
inductive Event where
  | ask (question : Question)
  | install (m : FeatureMap)
  | update (bytes : Bytes)

namespace Client

/-- The answer to a question. -/
def answer (c : Client) : Question → Answer
  | .isAvailable feature => .yesNo (c.isAvailable feature)
  | .isAvailableFor feature id => .yesNo (c.isAvailableFor feature id)
  | .scale feature low high => .number (c.scale feature low high)
  | .has feature => .yesNo (c.has feature)
  | .features => .features c.features
  | .scopes => .scopes c.scopes

/-- The feature that a question checks and the outcome, if it checks one. -/
def check? (c : Client) : Question → Option (String × Bool)
  | .isAvailable feature => some (feature, c.isAvailable feature)
  | .isAvailableFor feature id => some (feature, c.isAvailableFor feature id)
  | .scale .. | .has _ | .features | .scopes => none

/-- The client after something has happened. Questions leave it as it is. -/
def after (c : Client) : Event → Client
  | .ask _ => c
  | .install m => c.install m
  | .update bytes => (c.update bytes).2

/-- All answers, each that of the client at the moment of the question. -/
def answers (c : Client) : List Event → List Answer
  | [] => []
  | .ask question :: events => c.answer question :: c.answers events
  | event :: events => (c.after event).answers events

/-- All checks, each with the outcome at its moment. -/
def checks (c : Client) : List Event → List (String × Bool)
  | [] => []
  | .ask question :: events => (c.check? question).toList ++ c.checks events
  | event :: events => (c.after event).checks events

theorem scopes_after (c : Client) (event : Event) : (c.after event).scopes = c.scopes := by
  cases event with
  | ask question => rfl
  | install m => exact scopes_install c m
  | update bytes =>
    show (c.update bytes).2.scopes = c.scopes
    unfold update
    split
    · exact scopes_install c _
    · rfl

end Client

namespace CountingClient

variable {c : CountingClient}

/-- The answer to a question, and the client with what it counted. -/
def ask (c : CountingClient) : Question → Answer × CountingClient
  | .isAvailable feature => (.yesNo (c.isAvailable feature).1, (c.isAvailable feature).2)
  | .isAvailableFor feature id =>
    (.yesNo (c.isAvailableFor feature id).1, (c.isAvailableFor feature id).2)
  | .scale feature low high => (.number (c.scale feature low high), c)
  | .has feature => (.yesNo (c.has feature), c)
  | .features => (.features c.features, c)
  | .scopes => (.scopes c.scopes, c)

/-- The client after something has happened. What is installed is installed in the client that
counts nothing. -/
def after (c : CountingClient) : Event → CountingClient
  | .ask question => (c.ask question).2
  | .install m => { c with client := c.client.install m }
  | .update bytes => { c with client := (c.client.update bytes).2 }

/-- The client after one thing after the other has happened. -/
def run (c : CountingClient) (events : List Event) : CountingClient :=
  events.foldl after c

/-- All answers of the client that counts. -/
def answers (c : CountingClient) : List Event → List Answer
  | [] => []
  | .ask question :: events => (c.ask question).1 :: (c.ask question).2.answers events
  | event :: events => (c.after event).answers events

/-! ## Keys -/

/-- What all keys of a client begin with. -/
def keyStart (c : CountingClient) : String :=
  c.ns ++ "." ++ scopesPart c.client.scopes ++ "."

theorem key_eq (c : CountingClient) (feature : String) (enabled : Bool) :
    c.key feature enabled = c.keyStart ++ (feature ++ ("." ++ outcomeWord enabled)) := by
  rw [key, keyStart, String.intercalate_cons_cons, String.intercalate_cons_cons,
    String.intercalate_cons_cons, String.intercalate_singleton]
  simp only [String.append_assoc]

/-- Behind a point the words for the two outcomes do not end alike. -/
theorem append_outcomeWord_inj {feature feature' : String} {enabled enabled' : Bool}
    (h : feature ++ ("." ++ outcomeWord enabled) = feature' ++ ("." ++ outcomeWord enabled')) :
    feature = feature' ∧ enabled = enabled' := by
  -- read backwards, the words differ before one of them ends
  have hReversed := congrArg (fun s => s.toList.reverse) h
  cases enabled
  · cases enabled'
    · exact ⟨(String.append_left_inj _).1 h, rfl⟩
    · simp [outcomeWord] at hReversed
  · cases enabled'
    · simp [outcomeWord] at hReversed
    · exact ⟨(String.append_left_inj _).1 h, rfl⟩

/-- Different features or outcomes have different keys, whatever points are in the names. -/
theorem key_injective (c : CountingClient) :
    Function.Injective fun check : String × Bool => c.key check.1 check.2 := by
  rintro ⟨feature, enabled⟩ ⟨feature', enabled'⟩ hKey
  simp only [key_eq, String.append_right_inj] at hKey
  obtain ⟨rfl, rfl⟩ := append_outcomeWord_inj hKey
  rfl

/-! ## One event -/

/-- Counting changes nothing about the answer. -/
theorem answer_ask (c : CountingClient) (question : Question) :
    (c.ask question).1 = c.client.answer question := by
  cases question <;> rfl

theorem client_after (c : CountingClient) (event : Event) :
    (c.after event).client = c.client.after event := by
  cases event with
  | ask question => cases question <;> rfl
  | install m => rfl
  | update bytes => rfl

theorem ns_after (c : CountingClient) (event : Event) : (c.after event).ns = c.ns := by
  cases event with
  | ask question => cases question <;> rfl
  | install m => rfl
  | update bytes => rfl

/-- Installing a map does not change the keys, for the scopes stay. -/
theorem key_after (c : CountingClient) (event : Event) : (c.after event).key = c.key := by
  funext feature enabled
  rw [key, key, ns_after, client_after, Client.scopes_after]

/-- What a check is counted as. -/
theorem get?_count (c : CountingClient) (feature : String) (enabled : Bool) (key : String) :
    (c.count feature enabled).counts.get? key =
      if key = c.key feature enabled then some ((c.counts.get? key).getD 0 + 1)
      else c.counts.get? key := by
  rw [count, SortedMap.get?_insert]
  split
  · next hKey => rw [hKey]
  · rfl

/-- A question counts as what it checks, and nothing else does. -/
theorem counts_after_ask (c : CountingClient) (question : Question) :
    (c.after (.ask question)).counts =
      (c.client.check? question).elim c.counts fun check => (c.count check.1 check.2).counts := by
  cases question <;> rfl

/-! ## Runs -/

theorem client_run (c : CountingClient) (events : List Event) :
    (c.run events).client = events.foldl Client.after c.client := by
  induction events generalizing c with
  | nil => rfl
  | cons event events ih => rw [run, List.foldl_cons, ← run, ih, client_after, List.foldl_cons]

theorem key_run (c : CountingClient) (events : List Event) : (c.run events).key = c.key := by
  induction events generalizing c with
  | nil => rfl
  | cons event events ih => rw [run, List.foldl_cons, ← run, ih, key_after]

/-- The answers are those of a client that does not count. -/
theorem answers_eq (c : CountingClient) (events : List Event) :
    c.answers events = c.client.answers events := by
  induction events generalizing c with
  | nil => rfl
  | cons event events ih =>
    have hRest := ih (c.after event)
    rw [client_after] at hRest
    cases event with
    | ask question =>
      rw [answers, Client.answers, answer_ask]
      exact congrArg _ hRest
    | install m => exact hRest
    | update bytes => exact hRest

/-- What is counted under a key once more checks have been counted there. -/
def added (counted : Option Nat) (more : Nat) : Option Nat :=
  if more = 0 then counted else some (counted.getD 0 + more)

theorem added_succ (counted : Option Nat) (more : Nat) :
    added (some (counted.getD 0 + 1)) more = added counted (more + 1) := by
  unfold added
  rw [if_neg (Nat.succ_ne_zero more)]
  split
  · next hZero => rw [hZero]
  · rw [Option.getD_some, Nat.add_assoc, Nat.add_comm 1]

theorem isSome_added_none {more : Nat} : (added none more).isSome = true ↔ 0 < more := by
  unfold added
  split
  · next hZero => simp [hZero]
  · next hMore => simp [Nat.pos_of_ne_zero hMore]

theorem getD_added_none (more : Nat) : (added none more).getD 0 = more := by
  unfold added
  split
  · next hZero => exact hZero.symm
  · exact Nat.zero_add more

/-- Under a key so many more are counted as there are checks with that key. -/
theorem get?_counts_run (c : CountingClient) (events : List Event) (key : String) :
    (c.run events).counts.get? key = added (c.counts.get? key)
      ((c.client.checks events).countP fun check => c.key check.1 check.2 = key) := by
  -- from the front: what the first event counts is there before the rest is counted
  induction events generalizing c with
  | nil => rfl
  | cons event events ih =>
    have hRest := ih (c.after event)
    rw [key_after, client_after] at hRest
    rw [run, List.foldl_cons, ← run, hRest]
    cases event with
    | install m => rfl
    | update bytes => rfl
    | ask question =>
      rw [counts_after_ask, Client.checks]
      cases hCheck : c.client.check? question with
      | none => rfl
      | some check =>
        rw [Option.elim_some, Option.toList_some, List.singleton_append, List.countP_cons,
          get?_count]
        by_cases hKey : key = c.key check.1 check.2
        · rw [if_pos hKey, if_pos (decide_eq_true hKey.symm), added_succ]
          rfl
        · rw [if_neg hKey, if_neg (by simpa using Ne.symm hKey), Nat.add_zero]
          rfl

/-- The checks with the key of one check are those of the same feature with the same outcome. -/
theorem countP_key (c : CountingClient) (checks : List (String × Bool)) (check : String × Bool) :
    (checks.countP fun other => c.key other.1 other.2 = c.key check.1 check.2) =
      checks.count check := by
  rw [List.count]
  congr 1
  funext other
  rw [Bool.eq_iff_iff, decide_eq_true_iff, beq_iff_eq]
  exact c.key_injective.eq_iff

/-- Whatever is asked and installed, a client that counts from the beginning gives the answers that
the client in it gives at the moment of each question, and that client goes on as if nobody counted.
The key of a feature and an outcome counts the checks of that feature with that outcome; no key is
there without such a check, and the keys stay the same and are all different. -/
theorem counted_run (start : Client) (ns : String) (events : List Event) :
    (ofClient start ns).answers events = start.answers events ∧
    ((ofClient start ns).run events).client = events.foldl Client.after start ∧
    (∀ feature enabled,
      (((ofClient start ns).run events).counts.get?
        ((ofClient start ns).key feature enabled)).getD 0 =
          (start.checks events).count (feature, enabled)) ∧
    (∀ key, ((ofClient start ns).run events).counts.contains key = true ↔
      ∃ check ∈ start.checks events, (ofClient start ns).key check.1 check.2 = key) ∧
    ((ofClient start ns).run events).key = (ofClient start ns).key ∧
    Function.Injective fun check : String × Bool => (ofClient start ns).key check.1 check.2 := by
  have hCounts : ∀ key, ((ofClient start ns).run events).counts.get? key = added none
      ((start.checks events).countP fun check =>
        (ofClient start ns).key check.1 check.2 = key) :=
    get?_counts_run (ofClient start ns) events
  refine ⟨answers_eq _ events, client_run _ events, ?_, ?_, key_run _ events, key_injective _⟩
  · intro feature enabled
    rw [hCounts, getD_added_none]
    exact countP_key _ _ (feature, enabled)
  · intro key
    rw [SortedMap.contains, hCounts, isSome_added_none, List.countP_pos_iff]
    simp only [decide_eq_true_iff]

/-- Points in the names do not make two keys one. -/
example :
    let c := (ofClient .new "dcdr").run
      [.ask (.isAvailable "a"), .ask (.isAvailable "a.disabled"), .ask (.has "a")]
    c.counts.toList = [("dcdr.default.a.disabled", 1), ("dcdr.default.a.disabled.disabled", 1)] := by
  decide +kernel

end CountingClient

end FeatureFlags
