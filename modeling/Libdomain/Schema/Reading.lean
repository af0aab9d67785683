import Libdomain.Entry.Arrays

/-! # The loops of `ldap_schema_read_entry`

The function goes through the attributes of an entry and calls a callback on their values.
It passes over an attribute without values by a `continue` that does not advance to the next
one. A run takes fuel for each iteration of the outer loop; without enough of it there is
no outcome.
-/
namespace Libdomain.Schema
open Libdomain.Program Libdomain.Connection Libdomain.Memory Libdomain.Entry

/-- What a run leaves: its result, the values it called the callback on, and their effect. -/
structure Outcome (σ : Type) where
  code : OperationReturnCode
  called : List Bytes
  state : σ

def Outcome.after {σ : Type} (called : List Bytes) (o : Outcome σ) : Outcome σ :=
  { o with called := called ++ o.called }

section Reading
variable {σ : Type} (callback : Bytes → σ → OperationReturnCode × σ)

/-- The loop over the values of an attribute. -/
def readValues : Cells Bytes → σ → Except Memory.Fault (Outcome σ)
  | [], _ => .error .outOfBounds
  | .unset :: _, _ => .error .uninitialised
  | .null :: _, s => .ok ⟨.success, [], s⟩
  | .set value :: rest, s =>
    if (callback value s).1 = .failure then .ok ⟨.failure, [value], (callback value s).2⟩
    else (readValues rest (callback value s).2).map (Outcome.after [value])

/-- The loop over the attributes. -/
def readAttributes : ℕ → Cells LdapAttributeT → σ → Option (Except Memory.Fault (Outcome σ))
  | 0, _, _ => none
  | _ + 1, [], _ => some (.error .outOfBounds)
  | _ + 1, .unset :: _, _ => some (.error .uninitialised)
  | _ + 1, .null :: _, s => some (.ok ⟨.success, [], s⟩)
  | fuel + 1, .set attr :: rest, s =>
    match attr.values with
    -- The current attribute stays what it is.
    | none => readAttributes fuel (.set attr :: rest) s
    | some values =>
      match readValues callback values s with
      | .error fault => some (.error fault)
      | .ok o =>
        if o.code = .failure then some (.ok o)
        else (readAttributes fuel rest o.state).map (Except.map (Outcome.after o.called))

/-- Both files have this function. The entry may be null, and so may its array. -/
def readEntry (fuel : ℕ) (entry : Option (Attributes LdapAttributeT)) (visited : List (Bytes × LdapAttributeT))
    (s : σ) : Option (Except Memory.Fault (Outcome σ)) :=
  match entry with
  | none => some (.ok ⟨.success, [], s⟩)
  | some entry =>
    match ldEntryGetAttributes entry visited with
    | .ok attributes => readAttributes callback fuel attributes s
    | .error .allocation => some (.ok ⟨.success, [], s⟩)
    | .error fault => some (.error fault)

def Ad.ldapSchemaReadEntry (fuel : ℕ) (entry : Option (Attributes LdapAttributeT))
    (visited : List (Bytes × LdapAttributeT)) (s : σ) : Option (Except Memory.Fault (Outcome σ)) :=
  readEntry callback fuel entry visited s

def Openldap.ldapSchemaReadEntry (fuel : ℕ) (entry : Option (Attributes LdapAttributeT))
    (visited : List (Bytes × LdapAttributeT)) (s : σ) : Option (Except Memory.Fault (Outcome σ)) :=
  readEntry callback fuel entry visited s

/-- What the callback returns when it is called on the values in turn. -/
def results : List Bytes → σ → List OperationReturnCode
  | [], _ => []
  | value :: values, s => (callback value s).1 :: results values (callback value s).2

/-- The state after calls on the values in turn. -/
def stateAfter (values : List Bytes) (s : σ) : σ := values.foldl (fun s value => (callback value s).2) s

/-- The run that calls the callback on the values up to its first failure. -/
def visit : List Bytes → σ → Outcome σ
  | [], s => ⟨.success, [], s⟩
  | value :: values, s =>
    if (callback value s).1 = .failure then ⟨.failure, [value], (callback value s).2⟩
    else (visit values (callback value s).2).after [value]

/-- An outcome of calls on every value in its turn, up to and including the first on which
the callback fails. -/
structure Complete (values : List Bytes) (s : σ) (o : Outcome σ) : Prop where
  inTurn : o.called <+: values
  first : .failure ∉ results callback o.called.dropLast s
  whole : .failure ∉ results callback o.called s → o.called = values
  failed : o.code = .failure ↔ .failure ∈ results callback o.called s
  succeeded : o.code ≠ .failure → o.code = .success
  effect : o.state = stateAfter callback o.called s

variable {callback} {s : σ}

theorem results_append (xs ys : List Bytes) (s : σ) :
    results callback (xs ++ ys) s = results callback xs s ++ results callback ys (stateAfter callback xs s) := by
  induction xs generalizing s with
  | nil => rfl
  | cons x xs ih =>
    rw [List.cons_append, results, results, ih, List.cons_append]
    rfl

theorem visit_code (values : List Bytes) (s : σ) :
    (visit callback values s).code = .failure ↔ .failure ∈ results callback values s := by
  induction values generalizing s with
  | nil => simp [visit, results]
  | cons value values ih =>
    rw [visit, results, List.mem_cons]
    split_ifs with hfail
    · simp [hfail]
    · rw [Outcome.after, ih]
      simp [Ne.symm hfail]

theorem visit_of_not_mem {values : List Bytes} (h : .failure ∉ results callback values s) :
    visit callback values s = ⟨.success, values, stateAfter callback values s⟩ := by
  induction values generalizing s with
  | nil => rfl
  | cons value values ih =>
    rw [results, List.mem_cons, not_or] at h
    rw [visit, if_neg (Ne.symm h.1), ih h.2]
    rfl

/-- Calls on a list go on behind a beginning of it on which the callback does not fail. -/
theorem visit_append (xs ys : List Bytes) (s : σ) :
    visit callback (xs ++ ys) s =
      if (visit callback xs s).code = .failure then visit callback xs s
      else (visit callback ys (visit callback xs s).state).after (visit callback xs s).called := by
  induction xs generalizing s with
  | nil => simp [visit, Outcome.after]
  | cons x xs ih =>
    rw [List.cons_append, visit, visit]
    by_cases hfail : (callback x s).1 = .failure
    · rw [if_pos hfail, if_pos hfail, if_pos rfl]
    · rw [if_neg hfail, if_neg hfail, ih]
      change _ = if (visit callback xs (callback x s).2).code = .failure then _ else _
      split_ifs with hlater
      · rfl
      · simp [Outcome.after]

theorem visit_complete (values : List Bytes) (s : σ) : Complete callback values s (visit callback values s) := by
  induction values generalizing s with
  | nil => exact ⟨List.prefix_rfl, by simp [visit, results], fun _ => rfl, by simp [visit, results], fun _ => rfl, rfl⟩
  | cons value values ih =>
    rw [visit]
    split_ifs with hfail
    · exact ⟨by simp, by simp [results], fun h => absurd (by simp [results, hfail]) h, by simp [results, hfail],
        fun h => absurd rfl h, rfl⟩
    · obtain ⟨inTurn, first, whole, failed, succeeded, effect⟩ := ih (callback value s).2
      have hresults : ∀ called, .failure ∈ results callback (value :: called) s ↔
          .failure ∈ results callback called (callback value s).2 := by
        intro called
        rw [results, List.mem_cons, or_iff_right (Ne.symm hfail)]
      refine ⟨(List.prefix_cons_inj value).mpr inTurn, fun hmem => ?_, fun h => ?_, ?_, succeeded, effect⟩
      · cases hcalled : (visit callback values (callback value s).2).called with
        | nil => simp [Outcome.after, hcalled, results] at hmem
        | cons c called =>
          rw [Outcome.after, hcalled] at hmem
          change .failure ∈ results callback (value :: (c :: called).dropLast) s at hmem
          rw [hresults, ← hcalled] at hmem
          exact first hmem
      · exact congrArg (value :: ·) (whole fun hmem => h ((hresults _).mpr hmem))
      · exact failed.trans (hresults _).symm

theorem readValues_terminated {cells : Cells Bytes} {values : List Bytes} (h : Terminated cells values) (s : σ) :
    readValues callback cells s = .ok (visit callback values s) := by
  obtain ⟨rest, rfl⟩ := h
  induction values generalizing s with
  | nil => rfl
  | cons value values ih =>
    rw [List.map_cons, List.cons_append, readValues, visit, ih]
    split_ifs <;> rfl

/-- The values of the attributes, attribute by attribute. -/
def valuesOf (visited : List (Bytes × LdapAttributeT)) : List Bytes :=
  visited.flatMap fun e => (e.2.values.map elements).getD []

/-- The element that the array of an entry has for an attribute. -/
def copyOf (e : Bytes × LdapAttributeT) : LdapAttributeT :=
  ⟨some e.1, e.2.values.map fun cells => terminate (elements cells)⟩

theorem copyOf_record (name : Bytes) (a : GivenAttribute) : copyOf (name, a.record) = copied name a := by
  obtain ⟨n, values⟩ := a
  cases values with
  | none => rfl
  | some values =>
    have helements : elements values.cells = values.values := values.terminated.elements_eq
    simp [copyOf, copied, GivenAttribute.record, helements]

theorem ldEntryGetAttributes_copies (calls : List (Option GivenAttribute))
    {visited : List (Bytes × LdapAttributeT)} (h : (builtEntry calls).Visits visited) :
    ldEntryGetAttributes (builtEntry calls) visited = .ok (terminate (visited.map copyOf)) := by
  obtain ⟨given, rfl, -⟩ := visited_records calls h
  rw [ldEntryGetAttributes_records h, List.map_map]
  have hcopies : given.map (fun e => copied e.1 e.2) = given.map (copyOf ∘ fun e => (e.1, e.2.record)) :=
    List.map_congr_left fun e _ => (copyOf_record e.1 e.2).symm
  rw [hcopies]

theorem readAttributes_values (fuel : ℕ) {e : Bytes × LdapAttributeT} {cells : Cells Bytes} (rest : List LdapAttributeT)
    (h : e.2.values = some cells) (s : σ) :
    readAttributes callback (fuel + 1) (terminate (copyOf e :: rest)) s =
      if (visit callback (elements cells) s).code = .failure then some (.ok (visit callback (elements cells) s))
      else (readAttributes callback fuel (terminate rest) (visit callback (elements cells) s).state).map
        (Except.map (Outcome.after (visit callback (elements cells) s).called)) := by
  have hcopy : copyOf e = ⟨some e.1, some (terminate (elements cells))⟩ := by rw [copyOf, h, Option.map_some]
  have hvalues : readValues callback (terminate (elements cells)) s = .ok (visit callback (elements cells) s) :=
    readValues_terminated (terminated_terminate (elements cells)) s
  rw [hcopy, terminate, List.map_cons, List.cons_append, readAttributes]
  simp only [hvalues]
  rfl

theorem readAttributes_null (fuel : ℕ) {e : Bytes × LdapAttributeT} (rest : List LdapAttributeT)
    (h : e.2.values = none) (s : σ) : readAttributes callback fuel (terminate (copyOf e :: rest)) s = none := by
  have hcopy : copyOf e = ⟨some e.1, none⟩ := by rw [copyOf, h, Option.map_none]
  rw [hcopy]
  induction fuel with
  | zero => rfl
  | succ fuel ih => exact ih

/-- Before each attribute without values the callback fails. -/
def FailsBeforeNull (callback : Bytes → σ → OperationReturnCode × σ) (visited : List (Bytes × LdapAttributeT))
    (s : σ) : Prop :=
  ∀ before e after, visited = before ++ e :: after → e.2.values = none →
    .failure ∈ results callback (valuesOf before) s

theorem FailsBeforeNull.head {e : Bytes × LdapAttributeT} {visited : List (Bytes × LdapAttributeT)}
    (h : FailsBeforeNull callback (e :: visited) s) : e.2.values ≠ none := fun hnull => by
  have hfailure := h [] e visited rfl hnull
  simp [valuesOf, results] at hfailure

theorem FailsBeforeNull.tail {e : Bytes × LdapAttributeT} {visited : List (Bytes × LdapAttributeT)}
    {cells : Cells Bytes} (h : FailsBeforeNull callback (e :: visited) s) (hcells : e.2.values = some cells)
    (hnot : .failure ∉ results callback (elements cells) s) :
    FailsBeforeNull callback visited (stateAfter callback (elements cells) s) := by
  rintro before d after rfl hnull
  have hfailure := h (e :: before) d after rfl hnull
  rw [valuesOf, List.flatMap_cons, hcells, Option.map_some, Option.getD_some, results_append, List.mem_append] at hfailure
  exact hfailure.resolve_left hnot

/-- The loop calls the callback on the values of the attributes, and ends. -/
theorem readAttributes_visit {visited : List (Bytes × LdapAttributeT)} (h : FailsBeforeNull callback visited s) :
    readAttributes callback (visited.length + 1) (terminate (visited.map copyOf)) s =
      some (.ok (visit callback (valuesOf visited) s)) := by
  induction visited generalizing s with
  | nil => rfl
  | cons e visited ih =>
    obtain ⟨cells, hcells⟩ := Option.ne_none_iff_exists'.mp h.head
    have hvalues : valuesOf (e :: visited) = elements cells ++ valuesOf visited := by
      rw [valuesOf, List.flatMap_cons, hcells, Option.map_some, Option.getD_some, valuesOf]
    rw [List.map_cons, List.length_cons, readAttributes_values _ _ hcells, hvalues, visit_append]
    split_ifs with hcode
    · rfl
    · have hnot := mt (visit_code _ s).mpr hcode
      rw [visit_of_not_mem hnot, ih (h.tail hcells hnot)]
      rfl

/-- The loop does not get beyond an attribute without values. -/
theorem readAttributes_stuck {before : List (Bytes × LdapAttributeT)} {e : Bytes × LdapAttributeT}
    (after : List (Bytes × LdapAttributeT)) (hnull : e.2.values = none)
    (h : .failure ∉ results callback (valuesOf before) s) (fuel : ℕ) :
    readAttributes callback fuel (terminate ((before ++ e :: after).map copyOf)) s = none := by
  induction before generalizing s fuel with
  | nil => exact readAttributes_null fuel _ hnull s
  | cons d before ih =>
    rw [List.cons_append, List.map_cons]
    cases hd : d.2.values with
    | none => exact readAttributes_null fuel _ hd s
    | some cells =>
      rw [valuesOf, List.flatMap_cons, hd, Option.map_some, Option.getD_some, results_append, List.mem_append,
        not_or] at h
      cases fuel with
      | zero => rfl
      | succ fuel =>
        rw [readAttributes_values _ _ hd, visit_of_not_mem h.1, if_neg nofun, ih h.2]
        rfl

/-- A run ends, and what it leaves is complete. -/
def ReadsOnce (callback : Bytes → σ → OperationReturnCode × σ)
    (run : ℕ → Option (Except Memory.Fault (Outcome σ))) (values : List Bytes) (s : σ) : Prop :=
  ∃ fuel o, run fuel = some (.ok o) ∧ Complete callback values s o

theorem readEntry_built (callback : Bytes → σ → OperationReturnCode × σ) (calls : List (Option GivenAttribute))
    {visited : List (Bytes × LdapAttributeT)} (h : (builtEntry calls).Visits visited) (fuel : ℕ) (s : σ) :
    readEntry callback fuel (some (builtEntry calls)) visited s =
      readAttributes callback fuel (terminate (visited.map copyOf)) s := by
  simp only [readEntry, ldEntryGetAttributes_copies calls h]

/-- With an attribute without values that is reached, no run ends. -/
theorem readEntry_stuck (calls : List (Option GivenAttribute)) {visited : List (Bytes × LdapAttributeT)}
    (h : (builtEntry calls).Visits visited) (hnot : ¬FailsBeforeNull callback visited s) (fuel : ℕ) :
    readEntry callback fuel (some (builtEntry calls)) visited s = none := by
  rw [FailsBeforeNull] at hnot
  push Not at hnot
  obtain ⟨before, e, after, rfl, hnull, hresults⟩ := hnot
  rw [readEntry_built callback calls h, readAttributes_stuck after hnull hresults]

theorem readEntry_once_iff (callback : Bytes → σ → OperationReturnCode × σ)
    (calls : Option (List (Option GivenAttribute))) {visited : List (Bytes × LdapAttributeT)} (s : σ)
    (h : (calls.elim ∅ builtEntry).Visits visited) :
    ReadsOnce callback (fun fuel => readEntry callback fuel (calls.map builtEntry) visited s) (valuesOf visited) s ↔
      FailsBeforeNull callback visited s := by
  cases calls with
  | none =>
    have hempty : visited = [] := List.eq_nil_of_length_eq_zero h.length_eq
    rw [hempty]
    exact ⟨fun _ before e after hsplit => by simp at hsplit, fun _ => ⟨0, _, rfl, visit_complete [] s⟩⟩
  | some calls =>
    constructor
    · rintro ⟨fuel, o, hread, -⟩
      by_contra hnot
      have hnone := (readEntry_stuck calls h hnot fuel).symm.trans hread
      cases hnone
    · intro hfails
      exact ⟨_, _, (readEntry_built callback calls h _ s).trans (readAttributes_visit hfails), visit_complete _ s⟩

/-- Reading ends, with every value visited once, exactly if the callback fails before each
attribute without values. -/
theorem reading_once_iff (callback : Bytes → σ → OperationReturnCode × σ)
    (calls : Option (List (Option GivenAttribute))) {visited : List (Bytes × LdapAttributeT)} (s : σ)
    (h : (calls.elim ∅ builtEntry).Visits visited) :
    (ReadsOnce callback (fun fuel => Ad.ldapSchemaReadEntry callback fuel (calls.map builtEntry) visited s)
      (valuesOf visited) s ↔ FailsBeforeNull callback visited s) ∧
    (ReadsOnce callback (fun fuel => Openldap.ldapSchemaReadEntry callback fuel (calls.map builtEntry) visited s)
      (valuesOf visited) s ↔ FailsBeforeNull callback visited s) :=
  ⟨readEntry_once_iff callback calls s h, readEntry_once_iff callback calls s h⟩

end Reading

theorem reading_once_iff_replaced :
    let values : ValueArray := ⟨[.set (ascii "a"), .set (ascii "b"), .null], [ascii "a", ascii "b"], ⟨[], rfl⟩⟩
    let calls : List (Option GivenAttribute) :=
      [none, some ⟨some (ascii "cn"), none⟩, some ⟨some (ascii "cn"), some values⟩]
    let callback : Bytes → ℕ → OperationReturnCode × ℕ := fun _ n => (.success, n + 1)
    ReadsOnce callback (fun fuel => Ad.ldapSchemaReadEntry callback fuel (some (builtEntry calls))
      ((builtEntry calls).entries.map fun e => (e.1, e.2)) 0) [ascii "a", ascii "b"] 0 := by
  intro values calls callback
  refine (reading_once_iff callback (some calls) 0 (HashTable.Visits.self _)).1.mpr fun before e after hsplit hnull => ?_
  have hentries : (builtEntry calls).entries.map (fun e => (e.1, e.2)) =
      [(ascii "cn", ⟨some (ascii "cn"), some values.cells⟩)] := rfl
  change (builtEntry calls).entries.map (fun e => (e.1, e.2)) = _ at hsplit
  rw [hentries, List.singleton_eq_append_iff] at hsplit
  obtain ⟨-, he⟩ | ⟨-, he⟩ := hsplit
  · cases he
    cases hnull
  · cases he

/-- An entry whose attribute has no values is never read to its end. -/
theorem values_null_not_read :
    let calls : List (Option GivenAttribute) := [some ⟨some (ascii "cn"), none⟩]
    let visited := (builtEntry calls).entries.map fun e => (e.1, e.2)
    let callback : Bytes → Unit → OperationReturnCode × Unit := fun _ _ => (.success, ())
    ¬ReadsOnce callback (fun fuel => Ad.ldapSchemaReadEntry callback fuel (some (builtEntry calls)) visited ())
      (valuesOf visited) () ∧
    ¬ReadsOnce callback (fun fuel => Openldap.ldapSchemaReadEntry callback fuel (some (builtEntry calls)) visited ())
      (valuesOf visited) () := by
  intro calls visited callback
  have hreached : ¬FailsBeforeNull callback visited () := fun h => List.not_mem_nil (h [] _ [] rfl rfl)
  have hstuck := fun fuel => readEntry_stuck calls (HashTable.Visits.self _) hreached fuel
  constructor
  all_goals
    rintro ⟨fuel, o, hread, -⟩
    cases (hstuck fuel).symm.trans hread

/-- An attribute of such an entry, with its values in an array. -/
def recordOf (e : Bytes × LdapAttribute) : Bytes × LdapAttributeT := (e.1, ⟨some e.1, e.2.values.map terminate⟩)

section Searches
variable {callback : Bytes → Action OperationReturnCode} {effect : Bytes → World → OperationReturnCode × World}
  {w : World}

theorem exec_untilFailure (h : ∀ value w, exec (callback value) w = (.ok (effect value w).1, (effect value w).2))
    (values : List Bytes) (w : World) :
    exec (untilFailure callback values) w = (.ok (visit effect values w).code, (visit effect values w).state) := by
  induction values generalizing w with
  | nil => rfl
  | cons value values ih =>
    rw [untilFailure, exec_bind_ok (h value w), visit]
    split_ifs with hfail
    · rfl
    · rw [ih]
      rfl

/-- The lists of values that a connection reads stand for the arrays: the run is that of the
loops, and it diverges where they do not end. -/
theorem exec_ldapSchemaReadEntry
    (h : ∀ value w, exec (callback value) w = (.ok (effect value w).1, (effect value w).2)) (entry : LdEntry)
    (w : World) :
    (∃ fuel o, readAttributes effect fuel (terminate (entry.attributes.entries.map fun e =>
        copyOf (recordOf (e.1, e.2)))) w = some (.ok o) ∧
      exec (Connection.ldapSchemaReadEntry callback entry) w = (.ok o.code, o.state)) ∨
    (∀ fuel, readAttributes effect fuel (terminate (entry.attributes.entries.map fun e =>
        copyOf (recordOf (e.1, e.2)))) w = none) ∧
      (exec (Connection.ldapSchemaReadEntry callback entry) w).1 = .error .divergence := by
  rw [Connection.ldapSchemaReadEntry, Connection.ldEntryGetAttributes]
  induction entry.attributes.entries generalizing w with
  | nil => exact .inl ⟨1, _, rfl, rfl⟩
  | cons e entries ih =>
    rw [List.map_cons, List.map_cons, untilFailure]
    cases hvalues : e.2.values with
    | none =>
      have hnull : (recordOf (e.1, e.2)).2.values = none := by rw [recordOf, hvalues, Option.map_none]
      exact .inr ⟨fun fuel => readAttributes_null fuel _ hnull w, rfl⟩
    | some values =>
      have hcells : (recordOf (e.1, e.2)).2.values = some (terminate values) := by
        rw [recordOf, hvalues, Option.map_some]
      rw [exec_bind_ok (exec_untilFailure h values w)]
      have hstep := fun fuel => @readAttributes_values _ effect fuel _ _
        (entries.map fun e => copyOf (recordOf (e.1, e.2))) hcells w
      simp only [(terminated_terminate values).elements_eq] at hstep
      by_cases hcode : (visit effect values w).code = .failure
      · refine .inl ⟨1, _, (hstep 0).trans (if_pos hcode), ?_⟩
        rw [if_pos hcode, hcode]
        rfl
      · simp only [if_neg hcode] at hstep ⊢
        obtain ⟨fuel, o, hrun, hexec⟩ | ⟨hrun, hexec⟩ := ih (visit effect values w).state
        · exact .inl ⟨fuel + 1, o.after (visit effect values w).called, by rw [hstep, hrun]; rfl, hexec⟩
        · refine .inr ⟨fun fuel => ?_, hexec⟩
          cases fuel with
          | zero => rfl
          | succ fuel => rw [hstep, hrun, Option.map_none]

end Searches
end Libdomain.Schema
