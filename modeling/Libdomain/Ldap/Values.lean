import Libdomain.Ldap.Directory
import Mathlib.Data.Finset.Lattice.Lemmas

/-! # Adding and deleting values

Requests that add values, or delete them, attribute by attribute. An attribute may come more
than once in a request. A request is carried out if no value is given twice and all of them
are new, or all are there, and then each of the two requests undoes the other one. A request
that replaces the values of attributes puts back what they were when they were read.
-/
namespace Libdomain.Ldap

variable {τ ν : Type} [DecidableEq τ] [DecidableEq ν]

def adds (vs : List (τ × List ν)) : List (Modification τ ν) := vs.map fun a => ⟨.add, a.1, a.2⟩

def deletes (vs : List (τ × List ν)) : List (Modification τ ν) := vs.map fun a => ⟨.delete, a.1, a.2⟩

def given (vs : List (τ × List ν)) (type : τ) : Finset ν :=
  ((vs.filter fun a => a.1 = type).flatMap Prod.snd).toFinset

/-- No value is given twice to one attribute. -/
def Apart (a b : τ × List ν) : Prop := a.1 = b.1 → ∀ x ∈ a.2, x ∉ b.2

variable {vs : List (τ × List ν)} {e e' : Entry τ ν}

theorem mem_given {type : τ} {x : ν} : x ∈ given vs type ↔ ∃ a ∈ vs, a.1 = type ∧ x ∈ a.2 := by
  simp [given, and_assoc]

theorem given_cons (a : τ × List ν) (vs : List (τ × List ν)) (type : τ) :
    given (a :: vs) type = (if a.1 = type then a.2.toFinset else ∅) ∪ given vs type := by
  ext x
  by_cases h : a.1 = type <;> simp [mem_given, h]

theorem modify_cons (m : Modification τ ν) (ms : List (Modification τ ν)) (e : Entry τ ν) :
    modify (m :: ms) e = (m.apply e).bind (modify ms) := by
  rw [modify, List.foldlM_cons]
  rfl

theorem apply_add_iff {type : τ} {values : List ν} :
    (⟨.add, type, values⟩ : Modification τ ν).apply e = some e' ↔
      values ≠ [] ∧ (∀ x ∈ values, x ∉ e type) ∧ Function.update e type (e type ∪ values.toFinset) = e' := by
  simp only [Modification.apply, Modification.result]
  split_ifs with h
  · simp only [Option.map_none, reduceCtorEq, false_iff]
    rintro ⟨hne, hnew, -⟩
    rcases h with hempty | ⟨x, hx, hmem⟩
    · exact hne hempty
    · exact hnew x hx hmem
  · push Not at h
    simp only [Option.map_some, Option.some_inj]
    exact ⟨fun heq => ⟨h.1, h.2, heq⟩, fun hall => hall.2.2⟩

theorem apply_delete_iff {type : τ} {values : List ν} (hne : values ≠ []) :
    (⟨.delete, type, values⟩ : Modification τ ν).apply e = some e' ↔
      (∀ x ∈ values, x ∈ e type) ∧ Function.update e type (e type \ values.toFinset) = e' := by
  simp only [Modification.apply, Modification.result, if_neg hne]
  split_ifs with h
  · simp only [Option.map_some, Option.some_inj]
    exact (and_iff_right h).symm
  · simp [h]

theorem modify_adds_iff : modify (adds vs) e = some e' ↔
    (∀ a ∈ vs, a.2 ≠ []) ∧ vs.Pairwise Apart ∧ (∀ a ∈ vs, ∀ x ∈ a.2, x ∉ e a.1) ∧
      (fun type => e type ∪ given vs type) = e' := by
  induction vs generalizing e with
  | nil =>
    have hnone : (fun type => e type ∪ given ([] : List (τ × List ν)) type) = e := by
      funext type
      simp [given]
    simp [adds, modify, hnone]
  | cons a vs ih =>
    have hgiven : (fun type => Function.update e a.1 (e a.1 ∪ a.2.toFinset) type ∪ given vs type) =
        fun type => e type ∪ given (a :: vs) type := by
      funext type
      rw [given_cons]
      by_cases h : a.1 = type
      · subst h
        simp
      · simp only [Function.update_of_ne (Ne.symm h), if_neg h, Finset.empty_union]
    have hnew : (∀ b ∈ vs, ∀ x ∈ b.2, x ∉ Function.update e a.1 (e a.1 ∪ a.2.toFinset) b.1) ↔
        (∀ b ∈ vs, Apart a b) ∧ ∀ b ∈ vs, ∀ x ∈ b.2, x ∉ e b.1 := by
      rw [← forall₂_and]
      refine forall₂_congr fun b _ => ?_
      by_cases h : b.1 = a.1
      · simp only [h, Function.update_self, Finset.mem_union, List.mem_toFinset, not_or, Apart, forall_const]
        constructor
        · exact fun hb => ⟨fun x hxa hxb => (hb x hxb).2 hxa, fun x hx => (hb x hx).1⟩
        · exact fun hb x hx => ⟨hb.2 x hx, fun hxa => hb.1 x hxa hx⟩
      · simp [Function.update_of_ne h, Apart, Ne.symm h]
    rw [adds, List.map_cons, modify_cons, Option.bind_eq_some_iff]
    constructor
    · rintro ⟨e₁, hfirst, hrest⟩
      obtain ⟨hne, hfresh, rfl⟩ := apply_add_iff.mp hfirst
      obtain ⟨hnes, hpairwise, hfreshes, rfl⟩ := ih.mp hrest
      obtain ⟨hapart, hfreshes⟩ := hnew.mp hfreshes
      exact ⟨List.forall_mem_cons.mpr ⟨hne, hnes⟩, List.pairwise_cons.mpr ⟨hapart, hpairwise⟩,
        List.forall_mem_cons.mpr ⟨hfresh, hfreshes⟩, hgiven.symm⟩
    · rintro ⟨hnes, hpairwise, hfreshes, rfl⟩
      obtain ⟨hne, hnes⟩ := List.forall_mem_cons.mp hnes
      obtain ⟨hapart, hpairwise⟩ := List.pairwise_cons.mp hpairwise
      obtain ⟨hfresh, hfreshes⟩ := List.forall_mem_cons.mp hfreshes
      exact ⟨_, apply_add_iff.mpr ⟨hne, hfresh, rfl⟩, ih.mpr ⟨hnes, hpairwise, hnew.mpr ⟨hapart, hfreshes⟩, hgiven⟩⟩

theorem modify_deletes_iff (hvalues : ∀ a ∈ vs, a.2 ≠ []) : modify (deletes vs) e = some e' ↔
    vs.Pairwise Apart ∧ (∀ a ∈ vs, ∀ x ∈ a.2, x ∈ e a.1) ∧ (fun type => e type \ given vs type) = e' := by
  induction vs generalizing e with
  | nil =>
    have hnone : (fun type => e type \ given ([] : List (τ × List ν)) type) = e := by
      funext type
      simp [given]
    simp [deletes, modify, hnone]
  | cons a vs ih =>
    obtain ⟨hne, hnes⟩ := List.forall_mem_cons.mp hvalues
    have hgiven : (fun type => Function.update e a.1 (e a.1 \ a.2.toFinset) type \ given vs type) =
        fun type => e type \ given (a :: vs) type := by
      funext type
      rw [given_cons]
      by_cases h : a.1 = type
      · subst h
        simp [sdiff_sdiff_left]
      · simp only [Function.update_of_ne (Ne.symm h), if_neg h, Finset.empty_union]
    have hthere : (∀ b ∈ vs, ∀ x ∈ b.2, x ∈ Function.update e a.1 (e a.1 \ a.2.toFinset) b.1) ↔
        (∀ b ∈ vs, Apart a b) ∧ ∀ b ∈ vs, ∀ x ∈ b.2, x ∈ e b.1 := by
      rw [← forall₂_and]
      refine forall₂_congr fun b _ => ?_
      by_cases h : b.1 = a.1
      · simp only [h, Function.update_self, Finset.mem_sdiff, List.mem_toFinset, Apart, forall_const]
        constructor
        · exact fun hb => ⟨fun x hxa hxb => (hb x hxb).2 hxa, fun x hx => (hb x hx).1⟩
        · exact fun hb x hx => ⟨hb.2 x hx, fun hxa => hb.1 x hxa hx⟩
      · simp [Function.update_of_ne h, Apart, Ne.symm h]
    rw [deletes, List.map_cons, modify_cons, Option.bind_eq_some_iff]
    constructor
    · rintro ⟨e₁, hfirst, hrest⟩
      obtain ⟨hall, rfl⟩ := (apply_delete_iff hne).mp hfirst
      obtain ⟨hpairwise, halls, rfl⟩ := (ih hnes).mp hrest
      obtain ⟨hapart, halls⟩ := hthere.mp halls
      exact ⟨List.pairwise_cons.mpr ⟨hapart, hpairwise⟩, List.forall_mem_cons.mpr ⟨hall, halls⟩, hgiven.symm⟩
    · rintro ⟨hpairwise, halls, rfl⟩
      obtain ⟨hapart, hpairwise⟩ := List.pairwise_cons.mp hpairwise
      obtain ⟨hall, halls⟩ := List.forall_mem_cons.mp halls
      exact ⟨_, (apply_delete_iff hne).mpr ⟨hall, rfl⟩, (ih hnes).mpr ⟨hpairwise, hthere.mpr ⟨hapart, halls⟩, hgiven⟩⟩

/-- Values that have been added can be deleted again. -/
theorem modify_deletes_of_adds (h : modify (adds vs) e = some e') : modify (deletes vs) e' = some e := by
  obtain ⟨hne, hpairwise, hnew, rfl⟩ := modify_adds_iff.mp h
  refine (modify_deletes_iff hne).mpr ⟨hpairwise, fun a ha x hx => ?_, ?_⟩
  · exact Finset.mem_union_right _ (mem_given.mpr ⟨a, ha, rfl, hx⟩)
  · funext type
    have hfresh : ∀ x ∈ given vs type, x ∉ e type := by
      intro x hx
      obtain ⟨a, ha, rfl, hmem⟩ := mem_given.mp hx
      exact hnew a ha x hmem
    ext x
    simp only [Finset.mem_sdiff, Finset.mem_union]
    have := hfresh x
    tauto

/-- Values that have been deleted can be added again. -/
theorem modify_adds_of_deletes (hvalues : ∀ a ∈ vs, a.2 ≠ []) (h : modify (deletes vs) e = some e') :
    modify (adds vs) e' = some e := by
  obtain ⟨hpairwise, hall, rfl⟩ := (modify_deletes_iff hvalues).mp h
  refine modify_adds_iff.mpr ⟨hvalues, hpairwise, fun a ha x hx => ?_, ?_⟩
  · simp only [Finset.mem_sdiff, not_and, not_not]
    exact fun _ => mem_given.mpr ⟨a, ha, rfl, hx⟩
  · funext type
    refine Finset.sdiff_union_of_subset fun x hx => ?_
    obtain ⟨a, ha, rfl, hmem⟩ := mem_given.mp hx
    exact hall a ha x hmem

def replaces (vs : List (τ × List ν)) : List (Modification τ ν) := vs.map fun a => ⟨.replace, a.1, a.2⟩

/-- The entry with the given values in the attributes that are given. -/
def Entry.over (e : Entry τ ν) (vs : List (τ × List ν)) : Entry τ ν := fun type =>
  if type ∈ vs.map Prod.fst then given vs type else e type

theorem given_eq_empty {type : τ} (h : type ∉ vs.map Prod.fst) : given vs type = ∅ := by
  refine Finset.eq_empty_of_forall_notMem fun x hx => ?_
  obtain ⟨a, ha, rfl, -⟩ := mem_given.mp hx
  exact h (List.mem_map_of_mem ha)

/-- An attribute that comes once has the values it comes with. -/
theorem given_of_mem (h : (vs.map Prod.fst).Nodup) {a : τ × List ν} (ha : a ∈ vs) : given vs a.1 = a.2.toFinset := by
  ext x
  rw [mem_given, List.mem_toFinset]
  refine ⟨fun ⟨b, hb, htype, hx⟩ => ?_, fun hx => ⟨a, ha, rfl, hx⟩⟩
  rwa [← List.inj_on_of_nodup_map h hb ha htype]

theorem Entry.over_perm {ws : List (τ × List ν)} (h : vs.Perm ws) (e : Entry τ ν) : e.over vs = e.over ws := by
  funext type
  have hgiven : given vs type = given ws type := by
    ext x
    simp only [mem_given, h.mem_iff]
  simp only [Entry.over, (h.map Prod.fst).mem_iff, hgiven]

theorem Entry.over_cons {a : τ × List ν} (h : a.1 ∉ vs.map Prod.fst) (e : Entry τ ν) :
    Entry.over (Function.update e a.1 a.2.toFinset) vs = e.over (a :: vs) := by
  funext type
  by_cases htype : a.1 = type
  · subst htype
    simp [Entry.over, given_cons, h, given_eq_empty h]
  · simp only [Entry.over, given_cons, Function.update_of_ne (Ne.symm htype), if_neg htype, Finset.empty_union,
      List.map_cons, List.mem_cons, Ne.symm htype, false_or]

/-- A request that replaces the values of some attributes is always carried out. -/
theorem modify_replaces (h : (vs.map Prod.fst).Nodup) (e : Entry τ ν) : modify (replaces vs) e = some (e.over vs) := by
  induction vs generalizing e with
  | nil => rfl
  | cons a vs ih =>
    rw [List.map_cons, List.nodup_cons] at h
    rw [replaces, List.map_cons, modify_cons]
    exact (ih h.2 _).trans (congrArg some (Entry.over_cons h.1 e))

/-- A new entry has the attributes it is created with, each of which must have values, and
the values of its name. -/
theorem create_eq_some_iff (h : (vs.map Prod.fst).Nodup) {r : Relative τ ν} :
    create r vs = some e' ↔ (∀ a ∈ vs, a.2 ≠ []) ∧ (Entry.over (fun _ => ∅) vs).named r = e' := by
  have happart : vs.Pairwise Apart := (List.pairwise_map.mp h).imp fun hne heq => absurd heq hne
  have hover : Entry.over (fun _ => ∅) vs = fun type => ∅ ∪ given vs type := by
    funext type
    rw [Entry.over, Finset.empty_union]
    split_ifs with htype
    · rfl
    · exact (given_eq_empty htype).symm
  have hadded : ∀ e, modify (adds vs) (fun _ => ∅) = some e ↔
      (∀ a ∈ vs, a.2 ≠ []) ∧ Entry.over (fun _ => ∅) vs = e := by
    intro e
    rw [modify_adds_iff, hover]
    refine and_congr_right fun _ => ⟨fun hall => hall.2.2, fun heq => ⟨happart, fun a _ x _ => ?_, heq⟩⟩
    exact Finset.notMem_empty x
  have hcreate : create r vs = (modify (adds vs) fun _ => ∅).map fun e => e.named r := rfl
  rw [hcreate, Option.map_eq_some_iff]
  simp only [hadded]
  constructor
  · rintro ⟨e, ⟨hvalues, rfl⟩, hnamed⟩
    exact ⟨hvalues, hnamed⟩
  · rintro ⟨hvalues, hnamed⟩
    exact ⟨_, ⟨hvalues, rfl⟩, hnamed⟩

/-- What has been read of an entry brings it back exactly if the rest of it has not changed. -/
theorem Entry.over_eq_iff (h : (vs.map Prod.fst).Nodup) (hread : ∀ a ∈ vs, e a.1 = a.2.toFinset) :
    e'.over vs = e ↔ ∀ type, type ∉ vs.map Prod.fst → e' type = e type := by
  constructor
  · rintro rfl type htype
    exact (if_neg htype).symm
  · intro hrest
    funext type
    rw [Entry.over]
    split_ifs with htype
    · obtain ⟨a, ha, rfl⟩ := List.mem_map.mp htype
      rw [given_of_mem h ha, hread a ha]
    · exact hrest type htype

end Libdomain.Ldap
