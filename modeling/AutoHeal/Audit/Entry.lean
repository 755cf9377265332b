import AutoHeal.Json.Dumps

/-!
# Audit entries

`_canonical` and `_hash_entry` of the audit log. Under `Sha256Injective`, entries of
JSON values with one hash are equal (`jsonHash_inj`).
-/

namespace AutoHeal

variable {F : Type}

namespace Audit

/-! ## Hashes -/

/-- `GENESIS_HASH`. -/
def genesisHash : Str := List.replicate 64 48

variable [PyRuntime F]

/-- `_canonical`: sorted keys, no spaces, `default=str`. -/
def canonical (entry : Dict F) : Py Str :=
  if keysAllowed (.dict entry) && keysSortable (.dict entry) then
    .ok (print .compact (sortKeys (.dict entry)))
  else .error .typeError

/-- `_hash_entry`. -/
def hashEntry (entry : Dict F) : Py Str := (canonical entry).map (PyRuntime.sha256 F)

variable (F) in
/-- SHA-256 is injective on the texts `_canonical` gives. -/
def Sha256Injective : Prop :=
  ∀ (d e : Dict F) (s t : Str), canonical d = .ok s → canonical e = .ok t →
    PyRuntime.sha256 F s = PyRuntime.sha256 F t → s = t

theorem canonical_of_jsonValue {d : Dict F} (h : JsonValue (.dict d)) :
    canonical d = .ok (print .compact (sortKeys (.dict d))) := by
  rw [canonical, keysAllowed_of_jsonValue h, keysSortable_of_jsonValue h]
  rfl

/-- The hash of an entry whose values are JSON values. -/
def jsonHash (d : Dict F) : Str := PyRuntime.sha256 F (print .compact (sortKeys (.dict d)))

/-- An entry whose keys can be written and sorted has a hash. -/
theorem hashEntry_of_keys {d : Dict F} (hallowed : keysAllowed (.dict d) = true)
    (hsort : keysSortable (.dict d) = true) : hashEntry d = .ok (jsonHash d) := by
  rw [hashEntry, canonical, hallowed, hsort]
  rfl

/-- What was hashed could be. -/
theorem of_hashEntry_ok {d : Dict F} {h : Str} (hhash : hashEntry d = .ok h) :
    keysAllowed (.dict d) = true ∧ keysSortable (.dict d) = true ∧ h = jsonHash d := by
  unfold hashEntry canonical at hhash
  split_ifs at hhash with hkeys
  · rw [Bool.and_eq_true] at hkeys
    cases hhash
    exact ⟨hkeys.1, hkeys.2, rfl⟩
  · cases hhash

theorem hashEntry_of_jsonValue {d : Dict F} (h : JsonValue (.dict d)) :
    hashEntry d = .ok (jsonHash d) :=
  hashEntry_of_keys (keysAllowed_of_jsonValue h) (keysSortable_of_jsonValue h)

/-- Entries with one hash are equal. -/
theorem jsonHash_inj (hinj : Sha256Injective F) {d e : Dict F} (hd : JsonValue (.dict d))
    (he : JsonValue (.dict e)) : jsonHash d = jsonHash e ↔ SameValue (.dict d) (.dict e) := by
  constructor
  · intro h
    have htext := hinj d e _ _ (canonical_of_jsonValue hd) (canonical_of_jsonValue he) h
    exact (print_sortKeys_inj hd he .compact).mp htext
  · intro h
    rw [jsonHash, jsonHash, show sortKeys (.dict d) = sortKeys (.dict e) from h]

/-- The hash the examples use is injective. -/
theorem sha256Injective_nanFloat : Sha256Injective NanFloat := by
  have hprint : ∀ (d : Dict NanFloat) (s : Str), canonical d = .ok s → Printable s := by
    intro d s h
    unfold canonical at h
    split_ifs at h
    cases h
    exact printable_print _ _
  intro d e s t hs ht h
  rwa [sha256_nanFloat (hprint d s hs), sha256_nanFloat (hprint e t ht)] at h

end Audit

end AutoHeal
