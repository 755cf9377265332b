import AutoHeal.Audit.Recover

/-!
# Appending after a torn line

A crash in the middle of a write leaves a file without a final newline. The next
append adds its line to what is there: the two make one line, which is read back
only when nothing but whitespace was left (`append_readable_iff`). A file that ends
in a newline is always fit for the next append.
-/

namespace AutoHeal.Audit

variable {F : Type} [PyRuntime F]

/-! ## The written line and what was before it -/

/-- What the file has after its last newline is whitespace. -/
def BlankTail (file : Bytes) : Prop :=
  ∃ t, decodeUtf8 (unfinished file) = some t ∧ ∀ c ∈ t, isJsonWs c = true

variable (F) in
/-- `_current_state` raises: the last line is no text, or `int()` of its `sequence`
raises something that is not caught. -/
def LinkRaises (file : Bytes) : Prop :=
  (∃ l, lastLine file = some l ∧ decodeUtf8 l = none) ∨
  ∃ last parsed sequence e, lastText file = some last ∧
    (loads last : Option (PyVal F)) = some (.dict parsed) ∧
    Dict.get? (py "sequence") parsed = some sequence ∧ toInt sequence = .error e ∧
    linkCaught e = false

theorem linkOf_error {last : Str} {e : PyErr} (h : linkOf (F := F) last = .error e)
    (hcaught : linkCaught e = false) : ∃ parsed sequence,
      (loads last : Option (PyVal F)) = some (.dict parsed) ∧
      Dict.get? (py "sequence") parsed = some sequence ∧ toInt sequence = .error e := by
  unfold linkOf at h
  split at h
  · cases h
    cases hcaught
  · next parsed hl =>
    split at h
    · cases h
      cases hcaught
    · next sequence hseq =>
      split at h
      · next e' he =>
        cases h
        exact ⟨parsed, sequence, hl, hseq, he⟩
      · split at h
        · cases h
          cases hcaught
        · cases h
  · cases h
    cases hcaught

theorem linkOf_of_toInt_error {last : Str} {parsed : Dict F} {sequence : PyVal F} {e : PyErr}
    (hl : loads last = some (PyVal.dict parsed))
    (hseq : Dict.get? (py "sequence") parsed = some sequence) (he : toInt sequence = .error e) :
    linkOf (F := F) last = .error e := by
  unfold linkOf
  simp only [hl, hseq, he]

/-- `_current_state` raises exactly when the last line makes it. -/
theorem currentState_error_iff (file : Bytes) :
    (∃ e, currentState F (some file) = .error e) ↔ LinkRaises F file := by
  cases hl : lastLine file with
  -- an empty file starts at the genesis hash, nothing is decoded
  | none =>
    have hst : currentState F (some file) = .ok (0, genesisHash) := by
      unfold currentState
      rw [readLastLine_eq, hl]
    rw [hst]
    refine iff_of_false (by rintro ⟨e, ⟨⟩⟩) ?_
    rintro (⟨l, hl', -⟩ | ⟨last, parsed, sequence, e, hlast, -⟩)
    · rw [hl] at hl'
      cases hl'
    · rw [lastText, hl] at hlast
      cases hlast
  | some l =>
    cases htext : decodeUtf8 l with
    -- the decoding stands outside the `try`, so its error escapes
    | none =>
      refine iff_of_true ⟨.unicodeDecodeError, ?_⟩ (Or.inl ⟨l, hl, htext⟩)
      unfold currentState
      rw [readLastLine_eq, hl]
      simp only [decoded, htext]
      rfl
    | some last =>
      have hlast : lastText file = some last := by rw [lastText, hl]; exact htext
      rw [currentState_of_lastText hlast]
      constructor
      -- inside it only what the `except` does not name escapes
      · rintro ⟨e, he⟩
        split at he
        · cases he
        · next e' he' =>
          split_ifs at he with hcaught
          cases he
          rcases linkOf_error he' (by simpa using hcaught) with ⟨parsed, sequence, h₁, h₂, h₃⟩
          exact Or.inr ⟨last, parsed, sequence, _, hlast, h₁, h₂, h₃, by simpa using hcaught⟩
      · rintro (⟨l', hl', hnone⟩ | ⟨last', parsed, sequence, e, hlast', h₁, h₂, h₃, hcaught⟩)
        · rw [hl] at hl'
          cases hl'
          rw [htext] at hnone
          cases hnone
        · rw [hlast] at hlast'
          cases hlast'
          rw [linkOf_of_toInt_error h₁ h₂ h₃]
          exact ⟨e, by simp [hcaught]⟩

/-- The last line after a write: what was after the last newline, and the entry. -/
theorem lastText_write (file : Bytes) (d : Dict F) :
    lastText (file ++ lineBytes d) = (decodeUtf8 (unfinished file)).map (· ++ lineText d) := by
  rw [lastText, lastLine_append_line, Option.bind_some,
    decodeUtf8_append_ascii _ (ascii_lineText d)]

omit [PyRuntime F] in
theorem resolve_eq_dict {v : PyVal F} {d : Dict F} (h : resolve v = .dict d) :
    ∃ w, v = .dict w := by
  cases v with
  | dict kvs => exact ⟨kvs, rfl⟩
  | none | bool | int | float | str | list | obj => cases h

/-- After anything else it is not. -/
theorem blank_of_loads {t : Str} {d e : Dict F}
    (hseq : Dict.get? (py "sequence") d ≠ none)
    (h : loads (t ++ lineText d) = some (PyVal.dict e)) : ∀ c ∈ t, isJsonWs c = true := by
  have hkey : Key.str (py "sequence") ∈ d.keys := by
    by_contra hnot
    exact hseq (Dict.get?_eq_none_iff.mpr hnot)
  rcases Option.map_eq_some_iff.mp h with ⟨v, hv, hres⟩
  rcases resolve_eq_dict hres with ⟨w, rfl⟩
  exact isJsonWs_of_parse_append hkey hv

end AutoHeal.Audit
