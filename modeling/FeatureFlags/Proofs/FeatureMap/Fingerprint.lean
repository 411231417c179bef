import FeatureFlags.Proofs.Checksum.Sha256
import FeatureFlags.Proofs.Decimal.Distinct
import FeatureFlags.Proofs.FeatureMap.Document

/-!
# What a fingerprint tells

The fingerprint of a map is the digest of the compact document of its features. Different features
have different documents, however they are nested and named, as long as each number is finite: the
other doubles are all written as nothing. So, where the digest does not confuse the two documents,
the fingerprint changes if and only if a feature does.

* `Scope.encoding_inj` — documents are equal only if the features are.
* `FeatureMap.fingerprint_eq_iff` — fingerprints are equal only if the features are.
-/

namespace FeatureFlags

open Json (Doc)

namespace Value

/-- Whether a value can be written: it is a truth value or a finite number. -/
def IsFinite : Value → Prop
  | .bool _ => True
  | .number x => x.isFinite = true

theorem toDoc_bool_ne (b : Bool) {x : Float} : (Value.bool b).toDoc ≠ (Value.number x).toDoc := by
  show Doc.bool b ≠ Doc.ofFloat x
  unfold Doc.ofFloat
  split <;> exact nofun

theorem toDoc_number {x : Float} (h : x.isFinite = true) :
    ∃ n, Json.numberLayout.numeral? x = some n ∧ (Value.number x).toDoc = .number n := by
  obtain ⟨n, hn⟩ := Option.isSome_iff_exists.1 (Decimal.Layout.isSome_numeral? Json.numberLayout h)
  refine ⟨n, hn, ?_⟩
  show Doc.ofFloat x = _
  rw [Doc.ofFloat, hn]

theorem toDoc_inj {v v' : Value} (h : v.IsFinite) (h' : v'.IsFinite) :
    v.toDoc = v'.toDoc ↔ v = v' := by
  constructor
  · intro hDoc
    cases v with
    | bool b =>
      cases v' with
      | bool b' => rw [Doc.bool.inj hDoc]
      | number x' => exact absurd hDoc (toDoc_bool_ne b)
    | number x =>
      cases v' with
      | bool b' => exact absurd hDoc.symm (toDoc_bool_ne b')
      | number x' =>
        obtain ⟨n, hn, hx⟩ := toDoc_number h
        obtain ⟨n', hn', hx'⟩ := toDoc_number h'
        -- the numeral is the same, and it tells the double
        obtain rfl : n = n' := Doc.number.inj (hx.symm.trans (hDoc.trans hx'))
        rw [Decimal.Layout.eq_of_numeral? hn hn']
  · rintro rfl
    rfl

/-- No value is written as a scope. -/
theorem toDoc_ne_object (v : Value) (members : List (Bytes × Doc)) :
    v.toDoc ≠ .object members := by
  cases v with
  | bool b => exact nofun
  | number x =>
    show Doc.ofFloat x ≠ _
    unfold Doc.ofFloat
    split <;> exact nofun

end Value

namespace Scope

/-- The bytes that the fingerprint of a map is the digest of. -/
def encoding (s : Scope) : Bytes :=
  s.toDoc.write .compact

/-- Whether the digest keeps the encodings of two scopes apart, if they are different. -/
def AreToldApart (s t : Scope) : Prop :=
  Sha256.digest s.encoding = Sha256.digest t.encoding → s.encoding = t.encoding

theorem encoding_eq_iff_members {s t : Scope} : s.encoding = t.encoding ↔ members s = members t := by
  have hs : s.toDoc.IsWellWritten := membersWellWritten s
  have ht : t.toDoc.IsWellWritten := membersWellWritten t
  unfold encoding
  rw [Json.write_inj .compact hs ht, toDoc, toDoc, Doc.object.injEq]

/-- The document tells the scope: the names, and what stands under each of them. -/
theorem members_inj {s t : Scope} (hs : s.Forall Value.IsFinite) (ht : t.Forall Value.IsFinite) :
    members s = members t ↔ s = t := by
  refine ⟨?_, fun h => congrArg members h⟩
  intro h
  -- the members are compared one by one, those of an inner scope before what stands behind it
  induction s generalizing t with
  | empty =>
    cases t with
    | empty => rfl
    | leaf name' v' rest' => cases h
    | branch name' inner' rest' => cases h
  | leaf name v rest ih =>
    cases t with
    | empty => cases h
    | leaf name' v' rest' =>
      obtain ⟨hHead, hRest⟩ := List.cons.inj h
      obtain ⟨hName, hDoc⟩ := Prod.mk.inj hHead
      rw [Json.rawOf_inj.1 hName, (Value.toDoc_inj hs.1 ht.1).1 hDoc, ih hs.2 ht.2 hRest]
    | branch name' inner' rest' =>
      obtain ⟨hHead, -⟩ := List.cons.inj h
      exact absurd (Prod.mk.inj hHead).2 (v.toDoc_ne_object _)
  | branch name inner rest ihInner ih =>
    cases t with
    | empty => cases h
    | leaf name' v' rest' =>
      obtain ⟨hHead, -⟩ := List.cons.inj h
      exact absurd (Prod.mk.inj hHead).2.symm (v'.toDoc_ne_object _)
    | branch name' inner' rest' =>
      obtain ⟨hHead, hRest⟩ := List.cons.inj h
      obtain ⟨hName, hDoc⟩ := Prod.mk.inj hHead
      rw [Json.rawOf_inj.1 hName, ihInner hs.1 ht.1 (Doc.object.inj hDoc), ih hs.2 ht.2 hRest]

theorem encoding_inj {s t : Scope} (hs : s.Forall Value.IsFinite) (ht : t.Forall Value.IsFinite) :
    s.encoding = t.encoding ↔ s = t :=
  encoding_eq_iff_members.trans (members_inj hs ht)

end Scope

namespace FeatureMap

theorem fingerprint_eq_iff_encoding {m m' : FeatureMap}
    (h : Scope.AreToldApart m.features m'.features) :
    m.fingerprint = m'.fingerprint ↔ m.features.encoding = m'.features.encoding :=
  Sha256.hex_inj.trans ⟨h, fun hEq => congrArg Sha256.digest hEq⟩

/-- The fingerprint changes if and only if a feature does. The encodings do so in any case, and it
is taken from these. -/
theorem fingerprint_eq_iff {m m' : FeatureMap} (h : m.features.Forall Value.IsFinite)
    (h' : m'.features.Forall Value.IsFinite) (hSha : Scope.AreToldApart m.features m'.features) :
    (m.features.encoding = m'.features.encoding ↔ m.features = m'.features) ∧
      (m.fingerprint = m'.fingerprint ↔ m.features = m'.features) := by
  have hEncoding := Scope.encoding_inj h h'
  exact ⟨hEncoding, (fingerprint_eq_iff_encoding hSha).trans hEncoding⟩

/-- A map with one feature under a name with quotes. -/
def withRollout (x : Float) : FeatureMap :=
  (empty defaultRoot).insert "cc/de" "the \"new\" rollout" (.number x)

/-- Zeros of different signs are different features. -/
theorem fingerprint_withRollout_ne :
    (withRollout 0).features.Forall Value.IsFinite ∧
      (withRollout (-0)).features.Forall Value.IsFinite ∧
      Scope.AreToldApart (withRollout 0).features (withRollout (-0)).features ∧
      (withRollout 0).fingerprint ≠ (withRollout (-0)).fingerprint := by
  have hFinite : (withRollout 0).features.Forall Value.IsFinite :=
    ⟨⟨⟨show Float.isFinite 0 = true by decide +kernel, trivial⟩, trivial⟩, trivial, trivial⟩
  have hFinite' : (withRollout (-0)).features.Forall Value.IsFinite :=
    ⟨⟨⟨show Float.isFinite (-0) = true by decide +kernel, trivial⟩, trivial⟩, trivial, trivial⟩
  have hSha : Scope.AreToldApart (withRollout 0).features (withRollout (-0)).features := by
    have hNe : Sha256.digest (withRollout 0).features.encoding ≠
        Sha256.digest (withRollout (-0)).features.encoding := by decide +kernel
    exact fun h => absurd h hNe
  refine ⟨hFinite, hFinite', hSha, ?_⟩
  intro hEq
  have hSame := (fingerprint_eq_iff hFinite hFinite' hSha).2.1 hEq
  exact absurd hSame (by decide +kernel)

end FeatureMap

end FeatureFlags
