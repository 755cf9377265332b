import AutoHeal.Outside.Calls

/-!
# Vault references

`resolve_vault_ref` of `src/vault.py`: a `vault:<path>#<field>` reference becomes the field of
a secret, and what is no reference stays as it is.
-/

namespace AutoHeal

variable {F : Type}

/-! ## Strings and containers -/

/-- `s.startswith(start)`, `none`, or what follows. -/
def dropStart (start s : Str) : Option Str :=
  if start.isPrefixOf s then some (s.drop start.length) else none

/-- `s.partition(c)`, without the separator. -/
def partitionAt (c : CodePoint) (s : Str) : Str × Str :=
  (s.takeWhile (· ≠ c), (s.dropWhile (· ≠ c)).tail)

/-- `t in s` for strings. -/
def isInfix (t s : Str) : Bool := s.tails.any fun tail => t.isPrefixOf tail

variable [PyRuntime F]

/-- `name in container`. -/
def contains (name : Str) : PyVal F → Py Bool
  | .str s => .ok (isInfix name s)
  | .list xs => .ok (xs.any fun x => scalarEq x (.str name))
  | .dict items => .ok (Dict.get? name items).isSome
  | _ => .error .typeError

/-- The name of the type of a value. What YAML has beyond JSON are dates. -/
def typeName : PyVal F → Str
  | .none => py "NoneType"
  | .bool _ => py "bool"
  | .int _ => py "int"
  | .float _ => py "float"
  | .str _ => py "str"
  | .list _ => py "list"
  | .dict _ => py "dict"
  | .obj _ => py "datetime.date"

/-! ## References -/

/-- A `vault:` reference: its path and its field. -/
def vaultReference (s : Str) (defaultField : Option Str) : Option (Str × Str) :=
  (dropStart (py "vault:") s).map fun reference =>
    let (path, field) := partitionAt 35 reference
    (path, if field = [] then defaultField.getD [] else field)

/-- The field of a secret. -/
def secretField (path field : Str) (secret : PyVal F) : Except SecretError (PyVal F) :=
  match contains field secret with
  | .error e => .error (.raised ⟨e, py "argument of type '" ++ typeName secret ++
      py "' is not iterable"⟩)
  | .ok false => .error (.unavailable (py "Vault secret at '" ++ path ++ py "' has no field '" ++
      field ++ py "'"))
  | .ok true =>
    match secret with
    | .dict items => .ok ((Dict.get? field items).getD .none)
    | .str _ => .error (.raised ⟨.typeError, py "string indices must be integers, not 'str'"⟩)
    | _ => .error (.raised ⟨.typeError, py "list indices must be integers or slices, not str"⟩)

/-- `resolve_vault_ref`. -/
def resolveVaultRef (value : PyVal F) (defaultField : Option Str) :
    Effect F (Except SecretError (PyVal F)) :=
  if truthy value then
    match value with
    | .str s =>
      match vaultReference s defaultField with
      | none => pure (.ok value)
      | some (path, field) =>
        if field = [] then
          pure (.error (.unavailable (py "vault: reference '" ++ s ++
            py "' has no field and no default field applies")))
        else do
          match ← Prog.call (Call.getSecret path : Call F) with
          | Except.error e => return .error e
          | Except.ok secret => return secretField path field secret
    | _ => pure (.error (.raised ⟨.attributeError, py "'" ++ typeName value ++
        py "' object has no attribute 'startswith'"⟩))
  else pure (.ok value)

/-- What `resolve_vault_ref` can do with a reference. -/
theorem runs_resolveVaultRef {s path field : Str} {defaultField : Option Str} {asked : List (Made F)}
    {r : Except SecretError (PyVal F)} (ht : truthy (.str s : PyVal F) = true)
    (href : vaultReference s defaultField = some (path, field))
    (h : Prog.Runs (resolveVaultRef (.str s) defaultField) asked r) :
    (field = [] ∧ asked = [] ∧ ∃ text, r = .error (.unavailable text)) ∨
    (∃ e, asked = [⟨.getSecret path, Except.error e⟩] ∧ r = .error e) ∨
    ∃ secret, asked = [⟨.getSecret path, Except.ok secret⟩] ∧ r = secretField path field secret := by
  unfold resolveVaultRef at h
  simp only [ht, if_true, href] at h
  by_cases hfield : field = []
  · simp only [hfield, if_true, Prog.runs_pure_iff] at h
    exact Or.inl ⟨hfield, h.1, _, h.2⟩
  · simp only [hfield, if_false, Prog.runs_bind_iff] at h
    rcases h with ⟨answer, before, after, rfl, hcall, hnext⟩
    rw [Prog.runs_call_iff] at hcall
    subst hcall
    rcases answer with e | secret
    · rcases Prog.runs_pure_iff.mp hnext with ⟨rfl, rfl⟩
      exact Or.inr (Or.inl ⟨e, rfl, rfl⟩)
    · rcases Prog.runs_pure_iff.mp hnext with ⟨rfl, rfl⟩
      exact Or.inr (Or.inr ⟨secret, rfl, rfl⟩)

end AutoHeal
