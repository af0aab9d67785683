import Mathlib.Data.Finset.SDiff
import Mathlib.Data.Finset.Lattice.Basic

/-! # Modifying entries

What a directory server makes of a modify request. An entry has a set of values for every
attribute type, and an attribute without values is absent. The modifications of a request
are applied one after the other; if one of them fails, the entry stays as it was.
-/
namespace Libdomain.Ldap

/-- The values of each attribute. -/
abbrev Entry (τ ν : Type) := τ → Finset ν

inductive Operation
  | add
  | delete
  | replace
  deriving DecidableEq, Repr

structure Modification (τ ν : Type) where
  operation : Operation
  type : τ
  values : List ν

variable {τ ν : Type} [DecidableEq τ] [DecidableEq ν]

/-- The new values of the attribute that is modified. Added values must be new, and deleted
ones must be there; without values a deletion removes the attribute. -/
def Modification.result (m : Modification τ ν) (values : Finset ν) : Option (Finset ν) :=
  match m.operation with
  | .add => if m.values = [] ∨ ∃ v ∈ m.values, v ∈ values then none else some (values ∪ m.values.toFinset)
  | .delete =>
    if m.values = [] then if values = ∅ then none else some ∅
    else if ∀ v ∈ m.values, v ∈ values then some (values \ m.values.toFinset) else none
  | .replace => some m.values.toFinset

def Modification.apply (m : Modification τ ν) (e : Entry τ ν) : Option (Entry τ ν) :=
  (m.result (e m.type)).map (Function.update e m.type)

/-- The entry after a request, unless the request fails. -/
def modify (ms : List (Modification τ ν)) (e : Entry τ ν) : Option (Entry τ ν) :=
  ms.foldlM (fun e m => m.apply e) e

variable {type : τ} {v : ν}

theorem modify_singleton (m : Modification τ ν) (e : Entry τ ν) : modify [m] e = m.apply e := by
  rw [modify, List.foldlM_cons]
  cases m.apply e <;> rfl

theorem modify_replace (type : τ) (values : List ν) (e : Entry τ ν) :
    modify [⟨.replace, type, values⟩] e = some (Function.update e type values.toFinset) := modify_singleton _ e

theorem modify_delete {e : Entry τ ν} (h : e type ≠ ∅) :
    modify [⟨.delete, type, []⟩] e = some (Function.update e type ∅) := by
  have hresult : (⟨.delete, type, []⟩ : Modification τ ν).result (e type) = some ∅ := by
    simp [Modification.result, h]
  rw [modify_singleton, Modification.apply, hresult, Option.map_some]

/-- An attribute that has been replaced and then deleted is absent. -/
theorem modify_replace_delete (type : τ) (v : ν) (e : Entry τ ν) :
    (modify [⟨.replace, type, [v]⟩] e).bind (modify [⟨.delete, type, []⟩]) = some (Function.update e type ∅) := by
  have hvalues : Function.update e type [v].toFinset type ≠ ∅ := by simp
  rw [modify_replace, Option.bind_some, modify_delete hvalues, Function.update_idem]

theorem modify_replace_replace (type : τ) (values values' : List ν) (e : Entry τ ν) :
    (modify [⟨.replace, type, values⟩] e).bind (modify [⟨.replace, type, values'⟩]) =
      some (Function.update e type values'.toFinset) := by
  rw [modify_replace, Option.bind_some, modify_replace, Function.update_idem]

omit [DecidableEq ν] in
theorem some_update_eq_some {e : Entry τ ν} {values : Finset ν} :
    some (Function.update e type values) = some e ↔ e type = values := by
  rw [Option.some_inj, Function.update_eq_self_iff, eq_comm]

end Libdomain.Ldap
