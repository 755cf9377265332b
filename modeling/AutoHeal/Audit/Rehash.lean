import AutoHeal.Audit.Recover

/-!
# The hash of a line that was read back

`_write_locked` hashes the entry in memory, `verify_chain` the dict it reads back
from the line. The keys of nested dicts need not be strings in memory and are strings
when read back, and a caller's own `entry_hash` is in the text that is hashed but not
in what the checker hashes. `written_intact_iff` says when the two hashes agree.
-/

namespace AutoHeal.Audit

open Segments

variable {F : Type} [PyRuntime F]

/-! ## The keys of a written entry -/

omit [PyRuntime F] in
/-- Keys that can be sorted together with two string keys are strings. -/
theorem strKeys_chained {entry : Dict F} {s : Int × Str}
    (h : keysSortable (.dict (chained entry s)) = true) : StrKeys (chained entry s) := by
  have hseq : Dict.get? (py "sequence") (chained entry s) = some (.int (s.1 + 1)) := by
    unfold chained
    rw [Dict.get?_set, if_neg (by decide), Dict.get?_set, if_pos rfl]
  have hprev : Dict.get? (py "prev_hash") (chained entry s) = some (.str s.2) := by
    unfold chained
    rw [Dict.get?_set, if_pos rfl]
  have hmem := Dict.mem_of_get? hseq
  have hmem' := Dict.mem_of_get? hprev
  unfold keysSortable at h
  rw [everyPart, Bool.and_eq_true] at h
  have hkeys := h.1
  simp only [comparableKeys, Bool.or_eq_true, decide_eq_true_eq, List.all_eq_true] at hkeys
  rcases hkeys with (hlen | htext) | hnumber
  · -- there are two keys
    rcases hd : chained entry s with _ | ⟨a, _ | ⟨b, rest⟩⟩
    · rw [hd] at hmem
      cases hmem
    · rw [hd, List.mem_singleton] at hmem hmem'
      have hkey := congrArg Prod.fst (hmem.trans hmem'.symm)
      exact absurd (Key.str.inj hkey) (by decide)
    · rw [hd, List.length_cons, List.length_cons] at hlen
      omega
  · intro kv hkv
    have hkey := htext kv hkv
    cases hk : kv.1 <;> rw [hk] at hkey <;> first | exact ⟨_, rfl⟩ | cases hkey
  · have hkey := hnumber _ hmem
    cases hkey

omit [PyRuntime F] in
theorem keys_chained_nodup {entry : Dict F} (h : entry.keys.Nodup) (s : Int × Str) :
    (chained entry s).keys.Nodup :=
  Dict.keys_set_nodup (Dict.keys_set_nodup h _ _) _ _

/-! ## What is read back -/

/-- The dict that is read back from the text of a dict. -/
def readDict (d : Dict F) : Dict F := dictOfPairs (stringItems readBack d)

theorem jsonValue_readDict (d : Dict F) : JsonValue (.dict (readDict d)) := by
  have hjson := jsonValue_readBack (.dict d)
  rwa [readBack_dict] at hjson

theorem readDict_of_jsonValue {d : Dict F} (h : JsonValue (.dict d)) : readDict d = d := by
  have hread : readBack (.dict d) = .dict d := by
    rw [readBack, stringify_of_jsonValue h, resolve_of_jsonValue h]
  rw [readBack_dict] at hread
  exact PyVal.dict.inj hread

theorem get?_stringItems {d : Dict F} (hd : StrKeys d) (f : PyVal F → PyVal F) {t : Str}
    (ht : ∀ c ∈ t, c.val < 0x10000) (hjoin : joinSurrogates t = t) :
    Dict.get? t (stringItems f d) = (Dict.get? t d).map f := by
  induction d with
  | nil => rfl
  | cons kv d ih =>
    rcases hd kv (by simp) with ⟨s, hs⟩
    have hrest := ih fun kw hkw => hd kw (by simp [hkw])
    unfold stringItems at hrest ⊢
    rw [List.map_cons, Dict.get?, hrest]
    rcases kv with ⟨k, v⟩
    cases hs
    have hkey : (Key.str (keyString (.str s : Key F)) : Key F).isStr t =
        (Key.str s : Key F).isStr t := by
      rw [Bool.eq_iff_iff, Key.isStr_iff, Key.isStr_iff, Key.str.injEq, Key.str.injEq]
      constructor
      · intro h
        exact eq_of_joinSurrogates h ht
      · rintro rfl
        exact hjoin
    rw [hkey, Dict.get?]
    split <;> rfl

/-- The fields the checker looks at are read back as they were. -/
theorem get?_readDict {d : Dict F} (hd : StrKeys d) (hn : d.keys.Nodup) {t : Str}
    (ht : Printable t) : Dict.get? t (readDict d) = (Dict.get? t d).map readBack := by
  have hlow : ∀ c ∈ t, c.val < 0x10000 := fun c hc => by
    have := (ht c hc).2
    omega
  have hreverse : (stringItems readBack d).reverse = stringItems readBack d.reverse := by
    unfold stringItems
    rw [List.map_reverse]
  unfold readDict
  rw [Dict.get?_dictOfPairs (strKeys_stringItems readBack d), hreverse,
    get?_stringItems (fun kv hkv => hd kv (List.mem_reverse.mp hkv)) readBack hlow ht.noHigh.join,
    ← Dict.get?_perm hn d.reverse_perm.symm]

theorem joined_entry_hash : joinSurrogates (py "entry_hash") = py "entry_hash" := by decide

/-! ## The two hashes -/

section Written

variable {entry : Dict F} {s : Int × Str}

theorem get?_readDict_finalized (hn : entry.keys.Nodup)
    (hsort : keysSortable (.dict (chained entry s)) = true) {t : Str} (ht : Printable t) :
    Dict.get? t (readDict (finalized entry s)) = (Dict.get? t (finalized entry s)).map readBack :=
  get?_readDict ((strKeys_chained hsort).set _ _)
    (Dict.keys_set_nodup (keys_chained_nodup hn s) _ _) ht

/-- A written entry is read back with its three chain fields. -/
theorem kind_finalized_line (hn : entry.keys.Nodup)
    (hsort : keysSortable (.dict (chained entry s)) = true) :
    kind F (lineText (finalized entry s)) = .chained (readDict (finalized entry s)) := by
  have hload : loads (lineText (finalized entry s)) =
      some (PyVal.dict (readDict (finalized entry s))) := by
    rw [lineText, loads_print_eq, readBack_dict]
    rfl
  have hfields : hasChainFields (readDict (finalized entry s)) = true := by
    unfold hasChainFields
    have hget := fun t => @get?_readDict_finalized F _ entry s hn hsort t
    rw [hget (py "sequence") (by decide), hget (py "prev_hash") (by decide),
      hget (py "entry_hash") (by decide), get?_finalized_sequence, get?_finalized_prev_hash,
      get?_finalized_entry_hash]
    rfl
  unfold kind
  rw [strip_lineText, if_neg (lineText_ne_nil _), hload]
  simp only [hfields, if_true]

/-- The hash in a written line is the hash of the dict that is read back without it. -/
theorem intact_readDict_iff (hn : entry.keys.Nodup)
    (hsort : keysSortable (.dict (chained entry s)) = true) :
    Intact (readDict (finalized entry s)) ↔
      jsonHash (Dict.erase (py "entry_hash") (readDict (finalized entry s))) =
        jsonHash (chained entry s) := by
  have hfield : field (py "entry_hash") (readDict (finalized entry s)) =
      .str (jsonHash (chained entry s)) := by
    have hjoin : joinSurrogates (jsonHash (chained entry s)) = jsonHash (chained entry s) :=
      (PyRuntime.sha256_printable _).noHigh.join
    unfold field
    rw [get?_readDict_finalized hn hsort (by decide), get?_finalized_entry_hash, Option.map_some,
      Option.getD_some, readBack, stringify, hjoin, resolve]
    all_goals simp
  unfold Intact
  rw [hashEntry_of_jsonValue ((jsonValue_readDict _).erase _), hfield]
  constructor
  · rintro ⟨h, hh, hfield⟩
    rw [← Except.ok.inj hh] at hfield
    exact (PyVal.str.inj hfield).symm
  · intro h
    exact ⟨_, rfl, congrArg PyVal.str h.symm⟩

/-- Without its hash the dict that is read back is what the hashed entry is read back
as. -/
theorem erase_readDict (hn : entry.keys.Nodup)
    (hsort : keysSortable (.dict (chained entry s)) = true)
    (hnone : Dict.get? (py "entry_hash") (chained entry s) = none) :
    Dict.erase (py "entry_hash") (readDict (finalized entry s)) = readDict (chained entry s) := by
  have hread : Dict.get? (py "entry_hash") (readDict (chained entry s)) = none := by
    rw [get?_readDict (strKeys_chained hsort) (keys_chained_nodup hn s) (by decide), hnone]
    rfl
  have hset : readDict (finalized entry s) = Dict.set (py "entry_hash")
      (readBack (.str (jsonHash (chained entry s)))) (readDict (chained entry s)) := by
    have hkey : keyString (.str (py "entry_hash") : Key F) = py "entry_hash" := joined_entry_hash
    unfold readDict finalized
    rw [Dict.set_of_notMem (Dict.get?_eq_none_iff.mp hnone), stringItems, List.map_append,
      List.map_singleton, hkey, dictOfPairs, List.foldl_append]
    rfl
  rw [hset, Dict.erase_set, Dict.erase_of_notMem (Dict.get?_eq_none_iff.mp hread)]

/-- An entry that has the hash of a dict without `entry_hash` has none itself, and its
keys keep their order. -/
theorem stable_of_jsonHash (hinj : Sha256Injective F)
    (hallowed : keysAllowed (.dict (chained entry s)) = true)
    (hsort : keysSortable (.dict (chained entry s)) = true) {q : Dict F}
    (hq : JsonValue (.dict q)) (hnone : Dict.get? (py "entry_hash") q = none)
    (h : jsonHash q = jsonHash (chained entry s)) :
    Dict.get? (py "entry_hash") entry = none ∧ keysStable (.dict (chained entry s)) = true := by
  have hcanonical : canonical (chained entry s) =
      .ok (print .compact (sortKeys (.dict (chained entry s)))) := by
    rw [canonical, hallowed, hsort]
    rfl
  -- equal hashes are equal texts
  have htext := hinj _ _ _ _ (canonical_of_jsonValue hq) hcanonical h
  rw [print_eq_iff, stringify_of_jsonValue hq.sortKeys] at htext
  refine ⟨?_, keysStable_of_sorted hq htext.symm⟩
  by_contra hown
  have hown' : Dict.get? (py "entry_hash") (chained entry s) ≠ none := by
    unfold chained
    rwa [Dict.get?_set, if_neg (by decide), Dict.get?_set, if_neg (by decide)]
  rcases Option.ne_none_iff_exists'.mp hown' with ⟨v, hv⟩
  rw [stringify_sortKeys_dict, sortKeys, sortKeysDict_eq, PyVal.dict.injEq] at htext
  have hmem : ((.str (py "entry_hash"), stringify (sortKeys v)) : Key F × PyVal F) ∈
      stringItems (fun v => stringify (sortKeys v)) (sortItems (chained entry s)) := by
    have hkey : keyString (.str (py "entry_hash") : Key F) = py "entry_hash" := joined_entry_hash
    refine List.mem_map.mpr ⟨_, (sortItems_perm _).mem_iff.mpr (Dict.mem_of_get? hv), ?_⟩
    rw [hkey]
  rw [← htext, (sortItems_perm _).mem_iff] at hmem
  rcases Dict.mem_mapValues.mp hmem with ⟨kv, hkv, hkw⟩
  rw [Dict.get?_eq_none_iff] at hnone
  exact hnone (List.mem_map.mpr ⟨kv, hkv, congrArg Prod.fst hkw⟩)

/-- The checker finds the hash of a written entry right exactly when the entry had no
`entry_hash` of its own and all its keys keep their order. -/
theorem written_intact_iff (hinj : Sha256Injective F) (hn : entry.keys.Nodup)
    (hallowed : keysAllowed (.dict (chained entry s)) = true)
    (hsort : keysSortable (.dict (chained entry s)) = true) :
    Intact (readDict (finalized entry s)) ↔
      Dict.get? (py "entry_hash") entry = none ∧ keysStable (.dict (chained entry s)) = true := by
  rw [intact_readDict_iff hn hsort]
  constructor
  · intro h
    refine stable_of_jsonHash hinj hallowed hsort ((jsonValue_readDict _).erase _) ?_ h
    rw [Dict.get?_erase, if_pos rfl]
  · rintro ⟨hnone, hstable⟩
    have hown : Dict.get? (py "entry_hash") (chained entry s) = none := by
      unfold chained
      rwa [Dict.get?_set, if_neg (by decide), Dict.get?_set, if_neg (by decide)]
    have hread := (keysStable_iff _).mp hstable
    rw [readBack_dict] at hread
    rw [erase_readDict hn hsort hown, jsonHash, jsonHash]
    unfold readDict
    rw [← hread, print_stringify]

end Written

/-! ## What an append writes -/

omit [PyRuntime F] in
theorem forall₂_set {R : Key F × PyVal F → Key F × PyVal F → Prop} {d e : Dict F} {t : Str}
    {v w : PyVal F} (h : List.Forall₂ R d e) (hkey : ∀ a b, R a b → a.1 = b.1)
    (hset : ∀ k, R (k, v) (k, w)) : List.Forall₂ R (Dict.set t v d) (Dict.set t w e) := by
  induction h with
  | nil => exact .cons (hset _) .nil
  | @cons a b d e hab hrest ih =>
    rcases a with ⟨k, x⟩
    rcases b with ⟨l, y⟩
    obtain rfl : k = l := hkey _ _ hab
    unfold Dict.set
    split
    · exact .cons (hset _) hrest
    · exact .cons hab ih

/-- A log of one line whose hash is wrong is not accepted. -/
theorem not_verified_line {d p : Dict F} (hk : kind F (lineText d) = .chained p)
    (hp : ¬ Intact p) : ¬ Verified F (some ([] ++ lineBytes d)) := by
  rw [verified_iff]
  rintro ⟨text, htext, hacc⟩
  rcases textLines_append_line (Or.inl rfl) rfl d with ⟨text', htext', hlines⟩
  rw [htext] at htext'
  cases htext'
  exact hp (hacc.intact (by rw [hlines]; simp) hk)

/-- What the chain fields are set to does not matter for the order of keys. -/
theorem keysStable_chained (entry : Dict F) (s s' : Int × Str) :
    keysStable (.dict (chained entry s)) = keysStable (.dict (chained entry s')) := by
  apply keysStable_congr
  unfold chained
  apply forall₂_set
  · apply forall₂_set
    · exact List.forall₂_same.mpr fun _ _ => ⟨rfl, rfl⟩
    · intro a b hab
      exact hab.1
    · intro k
      exact ⟨rfl, rfl⟩
  · intro a b hab
    exact hab.1
  · intro k
    exact ⟨rfl, rfl⟩

/-- The entry has no `entry_hash` of its own; its keys, with those of the chain fields,
and the keys of every dict inside it keep their order when they are read back. -/
def Rehashable (entry : Dict F) : Prop :=
  Dict.get? (py "entry_hash") entry = none ∧
    keysStable (.dict (chained entry (0, genesisHash))) = true

variable [PyDates F] {c : AuditChain F} {dir dir' : Dir} {entry e : Dict F}

/-- An append that returned has written its entry last. -/
theorem writeLocked_of_append {env : Env} {rotation : Option (Rotation F)}
    (h : append c env dir entry = (dir', .ok (e, rotation))) :
    ∃ dir₁, writeLocked c dir₁ entry = (dir', .ok e) := by
  unfold append at h
  split at h
  · cases h
  · next dir₁ r hrotate =>
    refine ⟨dir₁, ?_⟩
    split at h
    · cases h
    · next hwrite =>
      cases h
      exact hwrite

/-- When an append has returned, the line it wrote is read back as a chained entry with
the hash that `verify_chain` computes exactly when the entry is rehashable. -/
theorem append_rehash_iff (hinj : Sha256Injective F) (hn : entry.keys.Nodup) {env : Env}
    {rotation : Option (Rotation F)}
    (h : append c env dir entry = (dir', .ok (e, rotation))) :
    (∃ old, dir'.lookup c.base = some (old ++ lineBytes e)) ∧
      ((∃ p, kind F (lineText e) = .chained p ∧ Intact p) ↔ Rehashable entry) := by
  rcases writeLocked_of_append h with ⟨dir₁, hwrite⟩
  rcases exists_of_writeLocked hwrite with ⟨s, -, hallowed, hsort, -, rfl, rfl⟩
  constructor
  · exact ⟨_, lookup_insert_base c dir₁ _⟩
  · rw [kind_finalized_line hn hsort]
    unfold Rehashable
    rw [keysStable_chained entry _ s, ← written_intact_iff hinj hn hallowed hsort]
    constructor
    · rintro ⟨p, hp, hintact⟩
      cases hp
      exact hintact
    · intro hintact
      exact ⟨_, rfl, hintact⟩

/-- An entry whose `parameters` have the keys 1 and 2, one of them for a dict. -/
def orderedEntry : Dict NanFloat :=
  [(.str (py "action"), .str (py "cleanup_disk")),
    (.str (py "parameters"), .dict [(.int 1, .none),
      (.int 2, .dict [(.str (py "days"), .int 7), (.str (py "path"), .str (py "/tmp"))])])]

/-- Its keys are strings when it is read back, and its hash is right all the same. -/
theorem append_rehash_example : ∃ dir' e, append (exampleChain []) exampleEnv ∅ orderedEntry =
      (dir', .ok (e, none)) ∧
    (∃ old, dir'.lookup (exampleChain []).base = some (old ++ lineBytes e)) ∧
    ∃ p, kind NanFloat (lineText e) = .chained p ∧ Intact p := by
  have hn : orderedEntry.keys.Nodup := by
    have hne : py "action" ≠ py "parameters" := by decide
    simpa [orderedEntry, Dict.keys] using hne
  have hallowed : keysAllowed (.dict (chained orderedEntry (0, genesisHash))) = true := rfl
  have hsort : keysSortable (.dict (chained orderedEntry (0, genesisHash))) = true := by decide
  have hrehashable : Rehashable orderedEntry := by
    constructor
    · rfl
    · decide
  have hwrite := @writeLocked_of NanFloat _ (exampleChain []) ∅ orderedEntry (0, genesisHash) rfl
    (hashEntry_of_keys hallowed hsort) rfl
  have happend : append (exampleChain []) exampleEnv ∅ orderedEntry = _ :=
    append_disabled rfl exampleEnv ∅ orderedEntry
  rw [hwrite] at happend
  rcases append_rehash_iff sha256Injective_nanFloat hn happend with ⟨hfile, hiff⟩
  exact ⟨_, _, happend, hfile, hiff.mpr hrehashable⟩

/-- An entry whose `parameters` have the keys 2 and 10: as integers in this order, as
strings in the other. -/
def numberedEntry : Dict NanFloat :=
  [(.str (py "parameters"), .dict [(.int 2, .none), (.int 10, .none)])]

/-- Such an entry can be appended, and the log is not accepted afterwards. -/
theorem append_rehash_fails : ∃ dir' e, append (exampleChain []) exampleEnv ∅ numberedEntry =
      (dir', .ok (e, none)) ∧ (¬ ∃ p, kind NanFloat (lineText e) = .chained p ∧ Intact p) ∧
    ¬ Verified NanFloat (dir'.lookup (exampleChain []).base) := by
  have hn : numberedEntry.keys.Nodup := List.nodup_singleton _
  have hallowed : keysAllowed (.dict (chained numberedEntry (0, genesisHash))) = true := rfl
  have hsort : keysSortable (.dict (chained numberedEntry (0, genesisHash))) = true := rfl
  have hwrite := @writeLocked_of NanFloat _ (exampleChain []) ∅ numberedEntry (0, genesisHash) rfl
    (hashEntry_of_keys hallowed hsort) rfl
  have happend : append (exampleChain []) exampleEnv ∅ numberedEntry = _ :=
    append_disabled rfl exampleEnv ∅ numberedEntry
  rw [hwrite] at happend
  have hkind := @kind_finalized_line NanFloat _ numberedEntry (0, genesisHash) hn hsort
  have hnot : ¬ Intact (readDict (finalized numberedEntry (0, genesisHash))) := by
    rw [written_intact_iff sha256Injective_nanFloat hn hallowed hsort]
    rintro ⟨-, hstable⟩
    exact absurd hstable (by decide)
  refine ⟨_, _, happend, ?_, ?_⟩
  · rintro ⟨p, hp, hintact⟩
    rw [hkind] at hp
    cases hp
    exact hnot hintact
  · rw [lookup_insert_base]
    exact not_verified_line hkind hnot

end AutoHeal.Audit
