import Libdomain.Ldap.Modify
import Mathlib.Data.List.Basic

/-! # Directories

The entries of a directory server form a tree. Each has the list of relative names that
lead from it to the root. `Serves` says what a server may make of a request: it may refuse
any of them, and what it carries out is what LDAP says about the request. Names and values
are the same if they are equal. The children of one entry, each with all that is below it,
are a store of their own.
-/
namespace Libdomain.Ldap

/-- The attributes and values that tell an entry from its siblings. -/
abbrev Relative (τ ν : Type) := List (τ × ν)

/-- From the entry to the root. -/
abbrev Name (τ ν : Type) := List (Relative τ ν)

abbrev Directory (τ ν : Type) := Name τ ν → Option (Entry τ ν)

inductive Request (τ ν : Type)
  | add (name : Name τ ν) (attributes : List (τ × List ν))
  | delete (name : Name τ ν)
  | modify (name : Name τ ν) (ms : List (Modification τ ν))
  | rename (name : Name τ ν) (relative : Relative τ ν) (superior : Name τ ν)

variable {τ ν : Type} [DecidableEq τ] [DecidableEq ν]

def Relative.values (r : Relative τ ν) (type : τ) : Finset ν :=
  ((r.filter fun p => p.1 = type).map Prod.snd).toFinset

def Entry.named (e : Entry τ ν) (r : Relative τ ν) : Entry τ ν := fun type => e type ∪ r.values type

/-- An entry under another relative name: it loses the values of the old one. -/
def Entry.renamed (e : Entry τ ν) (old new : Relative τ ν) : Entry τ ν :=
  Entry.named (fun type => e type \ old.values type) new

/-- A new entry has the given attributes and the values of its name. Every list of values
stands for a set that is not empty, and two lists for one attribute have no value in common. -/
def create (r : Relative τ ν) (attributes : List (τ × List ν)) : Option (Entry τ ν) :=
  (modify (attributes.map fun a => ⟨.add, a.1, a.2⟩) fun _ => ∅).map fun e => e.named r

/-- What is above an entry is there. -/
def Directory.Rooted (d : Directory τ ν) : Prop := ∀ r name, (d (r :: name)).isSome → (d name).isSome

def Directory.write (d : Directory τ ν) (name : Name τ ν) (e : Option (Entry τ ν)) : Directory τ ν :=
  Function.update d name e

/-- The entry at `target`, with all that was below `name` below it. -/
def Directory.move (d : Directory τ ν) (name target : Name τ ν) (e : Entry τ ν) : Directory τ ν := fun k =>
  if k = target then some e
  else if target <:+ k then d (k.take (k.length - target.length) ++ name)
  else if name <:+ k then none
  else d k

/-- The directory before and after a request, and whether the request has been carried out. -/
inductive Serves (d : Directory τ ν) : Request τ ν → Bool → Directory τ ν → Prop
  | refuse (r : Request τ ν) : Serves d r false d
  | add {r : Relative τ ν} {parent : Name τ ν} {attributes : List (τ × List ν)} {e : Entry τ ν}
      (absent : d (r :: parent) = none) (superior : (d parent).isSome) (created : create r attributes = some e) :
      Serves d (.add (r :: parent) attributes) true (d.write (r :: parent) (some e))
  | delete {name : Name τ ν} {e : Entry τ ν} (present : d name = some e)
      (leaf : ∀ below, below ≠ [] → d (below ++ name) = none) :
      Serves d (.delete name) true (d.write name none)
  | modify {name : Name τ ν} {ms : List (Modification τ ν)} {e e' : Entry τ ν} (present : d name = some e)
      (modified : modify ms e = some e') : Serves d (.modify name ms) true (d.write name (some e'))
  | rename {old new : Relative τ ν} {parent superior : Name τ ν} {e : Entry τ ν}
      (present : d (old :: parent) = some e) (absent : ∀ below, d (below ++ new :: superior) = none)
      (above : (d superior).isSome) (outside : ¬(old :: parent) <:+ superior) :
      Serves d (.rename (old :: parent) new superior) true
        (d.move (old :: parent) (new :: superior) (e.renamed old new))

/-- Every child with what is below it. -/
abbrev Children (τ ν : Type) := Relative τ ν → Directory τ ν

def Directory.children (d : Directory τ ν) (parent : Name τ ν) : Children τ ν := fun r below => d (below ++ r :: parent)

inductive Change (τ ν : Type)
  | create (r : Relative τ ν) (attributes : List (τ × List ν))
  | remove (r : Relative τ ν)
  | modify (r : Relative τ ν) (ms : List (Modification τ ν))
  | rename (r r' : Relative τ ν)

def Change.request (parent : Name τ ν) : Change τ ν → Request τ ν
  | create r attributes => .add (r :: parent) attributes
  | remove r => .delete (r :: parent)
  | modify r ms => .modify (r :: parent) ms
  | rename r r' => .rename (r :: parent) r' parent

def Change.touches : Change τ ν → List (Relative τ ν)
  | create r _ => [r]
  | remove r => [r]
  | modify r _ => [r]
  | rename r r' => [r, r']

/-- What a change makes of the children, and whether it has been carried out. -/
inductive Children.Step (c : Children τ ν) : Change τ ν → Bool → Children τ ν → Prop
  | refuse (change : Change τ ν) : Step c change false c
  | create {r : Relative τ ν} {attributes : List (τ × List ν)} {e : Entry τ ν} (absent : c r [] = none)
      (created : Ldap.create r attributes = some e) :
      Step c (.create r attributes) true (Function.update c r ((c r).write [] (some e)))
  | remove {r : Relative τ ν} {e : Entry τ ν} (present : c r [] = some e)
      (leaf : ∀ below, below ≠ [] → c r below = none) :
      Step c (.remove r) true (Function.update c r fun _ => none)
  | modify {r : Relative τ ν} {ms : List (Modification τ ν)} {e e' : Entry τ ν} (present : c r [] = some e)
      (modified : Ldap.modify ms e = some e') :
      Step c (.modify r ms) true (Function.update c r ((c r).write [] (some e')))
  | rename {r r' : Relative τ ν} {e : Entry τ ν} (present : c r [] = some e) (absent : c r' = fun _ => none) :
      Step c (.rename r r') true
        (Function.update (Function.update c r fun _ => none) r' ((c r).write [] (some (e.renamed r r'))))

def Children.Makes (c : Children τ ν) (label : Change τ ν × Bool) (c' : Children τ ν) : Prop :=
  c.Step label.1 label.2 c'

variable {d d' : Directory τ ν} {parent : Name τ ν} {c c' : Children τ ν} {change : Change τ ν} {accepted : Bool}

theorem Entry.renamed_named (e : Entry τ ν) (old new : Relative τ ν) :
    (e.named old).renamed old new = e.renamed old new := by
  simp [renamed, named, Finset.union_sdiff_right]

omit [DecidableEq τ] [DecidableEq ν] in
theorem suffix_sibling {r r' : Relative τ ν} {k : Name τ ν} (h : (r :: parent) <:+ k) (h' : (r' :: parent) <:+ k) :
    r = r' := by
  obtain ⟨u, rfl⟩ := h
  obtain ⟨v, hv⟩ := h'
  have heq := List.append_inj_right' hv rfl
  exact (List.cons.inj heq).1.symm

omit [DecidableEq τ] [DecidableEq ν] in
theorem append_sibling {r r' : Relative τ ν} {k l : Name τ ν} (h : k ++ r :: parent = l ++ r' :: parent) :
    k = l ∧ r = r' := by
  have hright := List.append_inj_right' h rfl
  have hleft := List.append_inj_left' h rfl
  exact ⟨hleft, (List.cons.inj hright).1⟩

omit [DecidableEq τ] [DecidableEq ν] in
theorem not_below_itself (r : Relative τ ν) (k : Name τ ν) : ¬(r :: k) <:+ k := by
  intro h
  have hlength := h.length_le
  rw [List.length_cons] at hlength
  omega

/-- Nothing is left when an entry goes that had nothing below it. -/
theorem Directory.write_leaf (leaf : ∀ below, below ≠ [] → d below = none) : d.write [] none = fun _ => none := by
  funext below
  by_cases hbelow : below = []
  · rw [hbelow, write, Function.update_self]
  · rw [write, Function.update_of_ne hbelow]
    exact leaf below hbelow

theorem Directory.children_write (d : Directory τ ν) (parent : Name τ ν) (r : Relative τ ν)
    (e : Option (Entry τ ν)) :
    (d.write (r :: parent) e).children parent =
      Function.update (d.children parent) r ((d.children parent r).write [] e) := by
  funext r' below
  have hkey : below ++ r' :: parent = r :: parent ↔ below = [] ∧ r' = r :=
    ⟨fun h => append_sibling (l := []) h, by rintro ⟨rfl, rfl⟩; rfl⟩
  by_cases hr : r' = r
  · subst hr
    by_cases hbelow : below = []
    · subst hbelow
      simp [children, write]
    · simp [children, write, hbelow]
  · simp [children, write, hkey, hr]

theorem Directory.children_move (d : Directory τ ν) (parent : Name τ ν) (r r' : Relative τ ν) (e : Entry τ ν) :
    (d.move (r :: parent) (r' :: parent) e).children parent =
      Function.update (Function.update (d.children parent) r fun _ => none) r'
        ((d.children parent r).write [] (some e)) := by
  funext s below
  have htarget : below ++ s :: parent = r' :: parent ↔ below = [] ∧ s = r' :=
    ⟨fun h => append_sibling (l := []) h, by rintro ⟨rfl, rfl⟩; rfl⟩
  have hsuffix : ∀ t, (t :: parent) <:+ below ++ s :: parent ↔ t = s := by
    intro t
    constructor
    · exact fun h => suffix_sibling h (List.suffix_append below (s :: parent))
    · rintro rfl
      exact List.suffix_append below (t :: parent)
  simp only [children, move, htarget, hsuffix]
  by_cases hr' : s = r'
  · subst hr'
    by_cases hbelow : below = []
    · subst hbelow
      simp [write]
    · simp [write, hbelow, children]
  · rw [if_neg fun h => hr' h.2, if_neg (Ne.symm hr'), Function.update_of_ne hr']
    by_cases hr : s = r
    · subst hr
      simp
    · rw [if_neg (Ne.symm hr), Function.update_of_ne hr, children]

theorem Directory.Rooted.write (h : d.Rooted) {name : Name τ ν} (e : Entry τ ν)
    (habove : ∀ r parent, name = r :: parent → (d parent).isSome) : (d.write name (some e)).Rooted := by
  intro r k hk
  by_cases hname : k = name
  · simp [Directory.write, hname]
  · rw [Directory.write, Function.update_of_ne hname]
    by_cases hbelow : r :: k = name
    · exact habove r k hbelow.symm
    · rw [Directory.write, Function.update_of_ne hbelow] at hk
      exact h r k hk

theorem Directory.Rooted.remove (h : d.Rooted) {name : Name τ ν}
    (leaf : ∀ below, below ≠ [] → d (below ++ name) = none) : (d.write name none).Rooted := by
  intro r k hk
  have hne : r :: k ≠ name := by
    rintro rfl
    simp [Directory.write] at hk
  rw [Directory.write, Function.update_of_ne hne] at hk
  by_cases hname : k = name
  · subst hname
    have hgone : d (r :: k) = none := leaf [r] (List.cons_ne_nil r [])
    simp [hgone] at hk
  · rw [Directory.write, Function.update_of_ne hname]
    exact h r k hk

omit [DecidableEq τ] [DecidableEq ν] in
theorem suffix_cons_of_ne {r : Relative τ ν} {name k : Name τ ν} (h : r :: k ≠ name) :
    name <:+ r :: k ↔ name <:+ k := by
  rw [List.suffix_cons_iff, or_iff_right (Ne.symm h)]

theorem Directory.Rooted.move (h : d.Rooted) {name superior : Name τ ν} {new : Relative τ ν} (e : Entry τ ν)
    (above : (d superior).isSome) (outside : ¬name <:+ superior) : (d.move name (new :: superior) e).Rooted := by
  intro r k hk
  by_cases hk' : k = new :: superior
  · simp [Directory.move, hk']
  by_cases htarget : r :: k = new :: superior
  · obtain ⟨-, rfl⟩ := List.cons.inj htarget
    rw [Directory.move, if_neg hk', if_neg (not_below_itself new k), if_neg outside]
    exact above
  · rw [Directory.move, if_neg htarget] at hk
    rw [Directory.move, if_neg hk']
    simp only [suffix_cons_of_ne htarget] at hk
    by_cases hbelow : (new :: superior) <:+ k
    · have hlength := hbelow.length_le
      rw [if_pos hbelow, List.length_cons, Nat.succ_sub hlength, List.take_succ_cons] at hk
      rw [if_pos hbelow]
      exact h r _ hk
    · rw [if_neg hbelow] at hk ⊢
      have hname : ¬name <:+ r :: k := by
        intro hsuffix
        simp [hsuffix] at hk
      rw [if_neg hname] at hk
      rw [if_neg fun hsuffix => hname (hsuffix.trans (List.suffix_cons r k))]
      exact h r k hk

/-- A directory stays a tree. -/
theorem Serves.rooted {r : Request τ ν} (h : Serves d r accepted d') (hd : d.Rooted) : d'.Rooted := by
  cases h with
  | refuse => exact hd
  | add absent superior created =>
    refine hd.write _ fun r parent heq => ?_
    obtain ⟨-, rfl⟩ := List.cons.inj heq
    exact superior
  | delete present leaf => exact hd.remove leaf
  | modify present modified =>
    refine hd.write _ fun r parent heq => hd r parent ?_
    rw [← heq, present, Option.isSome_some]
  | rename present absent above outside => exact hd.move _ above outside

/-- A request about children changes them as the store says. -/
theorem Serves.step (h : Serves d (change.request parent) accepted d') :
    (d.children parent).Step change accepted (d'.children parent) := by
  cases change with
  | create r attributes =>
    cases h with
    | refuse => exact .refuse _
    | add absent _ created =>
      rw [d.children_write]
      exact .create absent created
  | remove r =>
    cases h with
    | refuse => exact .refuse _
    | delete present leaf =>
      rw [d.children_write, (d.children parent r).write_leaf leaf]
      exact .remove present leaf
  | modify r ms =>
    cases h with
    | refuse => exact .refuse _
    | modify present modified =>
      rw [d.children_write]
      exact .modify present modified
  | rename r r' =>
    cases h with
    | refuse => exact .refuse _
    | rename present absent _ _ =>
      rw [d.children_move]
      exact .rename present (funext absent)

/-- What is not below a child that the change is about stays as it was. -/
theorem Serves.frame (h : Serves d (change.request parent) accepted d') {k : Name τ ν}
    (hk : ∀ r ∈ change.touches, ¬(r :: parent) <:+ k) : d' k = d k := by
  have hne : ∀ r ∈ change.touches, k ≠ r :: parent := by
    rintro r hr rfl
    exact hk r hr (List.suffix_refl _)
  cases change with
  | create r attributes =>
    cases h with
    | refuse => rfl
    | add => exact Function.update_of_ne (hne r (by simp [Change.touches])) _ _
  | remove r =>
    cases h with
    | refuse => rfl
    | delete => exact Function.update_of_ne (hne r (by simp [Change.touches])) _ _
  | modify r ms =>
    cases h with
    | refuse => rfl
    | modify => exact Function.update_of_ne (hne r (by simp [Change.touches])) _ _
  | rename r r' =>
    cases h with
    | refuse => rfl
    | rename =>
      have hr := hk r (by simp [Change.touches])
      have hr' := hk r' (by simp [Change.touches])
      rw [Directory.move, if_neg (hne r' (by simp [Change.touches])), if_neg hr', if_neg hr]

theorem Serves.above (h : Serves d (change.request parent) accepted d') : d' parent = d parent :=
  h.frame fun r _ => not_below_itself r parent

/-- Every step of the store is one that a server can make if it has the entry above. -/
theorem Children.Step.serves (hparent : (d parent).isSome) (h : (d.children parent).Step change accepted c) :
    ∃ d', Serves d (change.request parent) accepted d' ∧ d'.children parent = c := by
  cases h with
  | refuse => exact ⟨d, .refuse _, rfl⟩
  | create absent created => exact ⟨_, .add absent hparent created, d.children_write _ _ _⟩
  | @remove r e present leaf =>
    refine ⟨_, .delete present leaf, ?_⟩
    rw [d.children_write, (d.children parent r).write_leaf leaf]
  | modify present modified => exact ⟨_, .modify present modified, d.children_write _ _ _⟩
  | @rename r r' e present absent =>
    have houtside := not_below_itself r parent
    exact ⟨_, .rename present (congrFun absent) hparent houtside, d.children_move _ _ _ _⟩

end Libdomain.Ldap
