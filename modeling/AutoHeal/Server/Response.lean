import AutoHeal.Json.Limits

/-!
# What a response is made of

What a handler returns is written as JSON, without `NaN` and the infinities, and encoded. For
some values this raises, and the request is answered as any other that has raised.
-/

namespace AutoHeal.Server

variable {F : Type}

/-- `s.encode("utf-8")` returns. -/
def encodes (s : Str) : Bool := s.all fun c => !isHighSurrogate c && !isLowSurrogate c

theorem encodes_of_printable {s : Str} (h : Printable s) : encodes s = true := by
  refine List.all_eq_true.mpr fun c hc => ?_
  have hprintable := h c hc
  unfold isHighSurrogate isLowSurrogate
  have hhigh : ¬ 0xD800 ≤ c.val := by omega
  have hlow : ¬ 0xDC00 ≤ c.val := by omega
  simp [hhigh, hlow]

section Rendered

variable [JsonFloat F]

/-- What `json` writes for the float is a number. -/
def isFinite (x : F) : Bool :=
  [py "NaN", py "Infinity", py "-Infinity"].all fun name => decide (JsonFloat.text x ≠ name)

/-- A `JSONResponse` can be made of the value: its floats are finite and its texts can be encoded. -/
def rendered : PyVal F → Bool :=
  everyPart fun
    | .float x => isFinite x
    | .str s => encodes s
    | .dict d => d.all fun kv => encodes (keyText kv.1)
    | _ => true

theorem rendered_str (s : Str) : rendered (.str s : PyVal F) = encodes s := rfl

theorem rendered_list {xs : List (PyVal F)} :
    rendered (.list xs) = true ↔ ∀ x ∈ xs, rendered x = true := by
  unfold rendered
  rw [everyPart, everyPartList_eq, Bool.and_eq_true, List.all_eq_true]
  exact and_iff_right rfl

theorem rendered_dict {d : Dict F} : rendered (.dict d) = true ↔
    ∀ kv ∈ d, encodes (keyText kv.1) = true ∧ rendered kv.2 = true := by
  unfold rendered
  rw [everyPart, everyPartItems_eq, Bool.and_eq_true, List.all_eq_true, List.all_eq_true]
  constructor
  · intro h kv hkv
    exact ⟨h.1 kv hkv, h.2 kv hkv⟩
  · intro h
    exact ⟨fun kv hkv => (h kv hkv).1, fun kv hkv => (h kv hkv).2⟩

theorem rendered_set {d : Dict F} (hd : rendered (.dict d) = true) {s : Str} (hs : encodes s = true)
    {v : PyVal F} (hv : rendered v = true) : rendered (.dict (Dict.set s v d)) = true := by
  refine rendered_dict.mpr fun kv hkv => ?_
  rcases Dict.mem_set hkv with hkv | rfl
  · exact rendered_dict.mp hd kv hkv
  · exact ⟨hs, hv⟩

end Rendered

section Answerable

variable [PyRuntime F]

/-- A response can be made of the value. -/
def answerable (v : PyVal F) : Bool :=
  rendered v && decide (Fits (PyRuntime.responseLevels F) v)

theorem answerable_iff {v : PyVal F} : answerable v = true ↔
    rendered v = true ∧ Fits (PyRuntime.responseLevels F) v := by
  unfold answerable
  rw [Bool.and_eq_true, decide_eq_true_iff]

/-- A list is answered when each of its values is by itself. -/
theorem answerable_list {vs : List (PyVal F)} :
    answerable (.list vs) = true ↔ ∀ v ∈ vs, answerable (.list [v]) = true := by
  have hlevels : PyRuntime.responseLevels F ≠ 0 := by
    have htwo := PyRuntime.two_le_responseLevels (F := F)
    omega
  simp only [answerable_iff, rendered_list, fits_list, List.mem_singleton, forall_eq]
  constructor
  · rintro ⟨hrendered, -, hfits⟩ v hv
    exact ⟨hrendered v hv, hlevels, hfits v hv⟩
  · intro h
    exact ⟨fun v hv => (h v hv).1, hlevels, fun v hv => (h v hv).2.2⟩

/-- A field that is a short number or a plain text does not matter. -/
theorem answerable_set {d : Dict F} (hd : answerable (.list [.dict d]) = true) {s : Str}
    (hs : encodes s = true) {v : PyVal F} (hv : rendered v = true) (hfits : ∀ levels, Fits levels v) :
    answerable (.list [.dict (Dict.set s v d)]) = true := by
  simp only [answerable_iff, rendered_list, fits_list, List.mem_singleton, forall_eq] at hd ⊢
  exact ⟨rendered_set hd.1 hs hv, hd.2.1, fits_set hd.2.2 (hfits _) s⟩

end Answerable

end AutoHeal.Server
