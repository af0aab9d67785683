import Mathlib.Data.List.AList
import Mathlib.Data.List.Induction

/-! # Hash tables

Insertion replaces the value of an equal key and reports whether the key is new. An
iteration visits every key once, in an order that nothing is known of.
-/
namespace Libdomain.Memory

variable {κ β γ : Type} [DecidableEq κ]

abbrev HashTable (κ β : Type) := AList fun _ : κ => β

namespace HashTable

def add (table : HashTable κ β) (key : κ) (x : β) : Bool × HashTable κ β :=
  (key ∉ table, table.insert key x)

/-- What an iteration over the table may visit. -/
def Visits (table : HashTable κ β) (visited : List (κ × β)) : Prop :=
  visited.Perm (table.entries.map fun e => (e.1, e.2))

def size (table : HashTable κ β) : ℕ := table.entries.length

def insertAll (table : HashTable κ β) (pairs : List (κ × β)) : HashTable κ β :=
  pairs.foldl (fun table p => table.insert p.1 p.2) table

def latest (pairs : List (κ × β)) (key : κ) : Option β :=
  (pairs.reverse.find? fun p => p.1 = key).map Prod.snd

theorem latest_append (pairs more : List (κ × β)) (key : κ) :
    latest (pairs ++ more) key = (latest more key).or (latest pairs key) := by
  rw [latest, List.reverse_append, List.find?_append, Option.map_or]
  rfl

theorem latest_singleton (key k : κ) (x : β) : latest [(k, x)] key = if k = key then some x else none := by
  by_cases h : k = key
  · simp [latest, h]
  · simp [latest, h]

theorem latest_isSome {pairs : List (κ × β)} {key : κ} : (latest pairs key).isSome ↔ key ∈ pairs.map Prod.fst := by
  rw [latest, Option.isSome_map, List.find?_isSome]
  simp

/-- With distinct keys the value of a key is the one that it is paired with. -/
theorem latest_eq_some_iff {pairs : List (κ × β)} (h : (pairs.map Prod.fst).Nodup) {key : κ} {x : β} :
    latest pairs key = some x ↔ (key, x) ∈ pairs := by
  have hfound : ∀ y, latest pairs key = some y → (key, y) ∈ pairs := by
    intro y hy
    rw [latest, Option.map_eq_some_iff] at hy
    obtain ⟨p, hfind, hp⟩ := hy
    have hkey : p.1 = key := by simpa using List.find?_some hfind
    exact (Prod.ext hkey hp : p = (key, y)) ▸ List.mem_reverse.mp (List.mem_of_find?_eq_some hfind)
  refine ⟨hfound x, fun hmem => ?_⟩
  have hsome : (latest pairs key).isSome := latest_isSome.mpr (List.mem_map.mpr ⟨_, hmem, rfl⟩)
  obtain ⟨y, hy⟩ := Option.isSome_iff_exists.mp hsome
  have hpair := List.inj_on_of_nodup_map h (hfound y hy) hmem rfl
  cases hpair
  exact hy

theorem lookup_insertAll (table : HashTable κ β) (pairs : List (κ × β)) (key : κ) :
    (table.insertAll pairs).lookup key = (latest pairs key).or (table.lookup key) := by
  induction pairs generalizing table with
  | nil => rfl
  | cons p pairs ih =>
    have hcons : latest (p :: pairs) key = (latest pairs key).or (latest [p] key) := latest_append [p] pairs key
    rw [insertAll, List.foldl_cons, ← insertAll, ih, hcons, latest_singleton, Option.or_assoc]
    congr 1
    by_cases h : p.1 = key
    · subst h
      simp
    · rw [AList.lookup_insert_ne (Ne.symm h), if_neg h, Option.none_or]

theorem mem_insertAll (table : HashTable κ β) (pairs : List (κ × β)) (key : κ) :
    key ∈ table.insertAll pairs ↔ key ∈ pairs.map Prod.fst ∨ key ∈ table := by
  rw [← AList.lookup_isSome, lookup_insertAll, Option.isSome_or, Bool.or_eq_true, latest_isSome, AList.lookup_isSome]

theorem insertAll_append (table : HashTable κ β) (pairs more : List (κ × β)) :
    table.insertAll (pairs ++ more) = (table.insertAll pairs).insertAll more := List.foldl_append ..

/-- Where every value is inserted under keys of its own, a lookup gives the last value that
has the key. -/
theorem latest_flatMap (keys : β → List κ) (xs : List β) (key : κ) :
    latest (xs.flatMap fun x => (keys x).map fun k => (k, x)) key =
      xs.reverse.find? fun x => (keys x).any fun k => k = key := by
  have hone : ∀ x, latest ((keys x).map fun k => (k, x)) key = if key ∈ keys x then some x else none := by
    intro x
    by_cases hkey : key ∈ keys x
    · have hsome : (latest ((keys x).map fun k => (k, x)) key).isSome := by simpa [latest_isSome] using hkey
      obtain ⟨y, hy⟩ := Option.isSome_iff_exists.mp hsome
      rw [if_pos hkey, hy]
      rw [latest, Option.map_eq_some_iff] at hy
      obtain ⟨p, hfind, rfl⟩ := hy
      obtain ⟨k, -, rfl⟩ := List.mem_map.mp (List.mem_reverse.mp (List.mem_of_find?_eq_some hfind))
      rfl
    · rw [if_neg hkey, ← Option.not_isSome_iff_eq_none, latest_isSome]
      simpa using hkey
  induction xs using List.reverseRecOn with
  | nil => rfl
  | append_singleton xs x ih =>
    rw [List.flatMap_append, latest_append, List.flatMap_singleton, hone, ih, List.reverse_append]
    by_cases hkey : key ∈ keys x
    · simp [hkey]
    · simp [hkey]

omit [DecidableEq κ] in
theorem nodupKeys_mapValues (f : β → γ) (table : HashTable κ β) :
    (table.entries.map fun e => (⟨e.1, f e.2⟩ : (_ : κ) × γ)).NodupKeys := by
  have h := table.nodupKeys
  rw [List.NodupKeys, List.keys] at h ⊢
  rwa [List.map_map]

def mapValues (f : β → γ) (table : HashTable κ β) : HashTable κ γ :=
  ⟨table.entries.map fun e => ⟨e.1, f e.2⟩, nodupKeys_mapValues f table⟩

theorem mapValues_insert (f : β → γ) (table : HashTable κ β) (key : κ) (x : β) :
    mapValues f (table.insert key x) = AList.insert key (f x) (mapValues f table) := by
  let image : ((_ : κ) × β) → (_ : κ) × γ := fun e => ⟨e.1, f e.2⟩
  have herase : (List.kerase key table.entries).map image = List.kerase key (table.entries.map image) := by
    rw [List.kerase, List.kerase, List.eraseP_map]
    rfl
  apply AList.ext
  calc (table.insert key x).entries.map image
      = image ⟨key, x⟩ :: (List.kerase key table.entries).map image := by rw [AList.entries_insert, List.map_cons]
    _ = image ⟨key, x⟩ :: List.kerase key (table.entries.map image) := by rw [herase]
    _ = (AList.insert key (f x) (mapValues f table)).entries :=
      (AList.entries_insert (a := key) (b := f x) (s := mapValues f table)).symm

namespace Visits

variable {table : HashTable κ β} {visited : List (κ × β)}

omit [DecidableEq κ] in
theorem length_eq (h : Visits table visited) : visited.length = table.size := by
  rw [List.Perm.length_eq h, List.length_map, size]

omit [DecidableEq κ] in
theorem nodup (h : Visits table visited) : (visited.map Prod.fst).Nodup := by
  have hperm := List.Perm.map Prod.fst h
  rw [hperm.nodup_iff, List.map_map]
  exact table.nodupKeys

/-- What is visited is what the lookups give. -/
theorem mem_iff (h : Visits table visited) (key : κ) (x : β) : (key, x) ∈ visited ↔ table.lookup key = some x := by
  rw [List.Perm.mem_iff h, List.mem_map]
  constructor
  · rintro ⟨⟨k, y⟩, hmem, hpair⟩
    cases hpair
    exact AList.mem_lookup_iff.mpr hmem
  · intro hlookup
    exact ⟨⟨key, x⟩, AList.mem_lookup_iff.mp hlookup, rfl⟩

omit [DecidableEq κ] in
theorem self (table : HashTable κ β) : Visits table (table.entries.map fun e => (e.1, e.2)) := List.Perm.refl _

end Visits

end HashTable

end Libdomain.Memory
