import Libdomain.Connection.Reading
import Mathlib.Data.List.Perm.Basic

/-! # Directory detection

`directory_parse_result` takes the type of the directory from the first marker among the
attributes of the root entry. The server may send the attributes in any order.
-/
namespace Libdomain.Connection
open Libdomain.Program

def detectedType (attributes : List (Bytes × List Bytes)) : LdapDirectoryType :=
  if ascii "isGlobalCatalogReady" ∈ attributes.map Prod.fst then .activeDirectory
  else if ascii "objectClass" ∈ attributes.map Prod.fst then .openldap
  else .unknown

/-- A response to the search for the root entry: one entry, and messages without attributes. -/
structure RootResponse where
  before : List LdapMessage
  entry : LdapMessage
  behind : List LdapMessage
  bare : ∀ message ∈ before ++ behind, message.attributes = []
  response : Response
  rc : response.rc = ldapResSearchEntry ∨ response.rc = ldapResSearchResult

def RootResponse.withAttributes (r : RootResponse) (attributes : List (Bytes × List Bytes)) : Response :=
  { r.response with chain := r.before ++ { r.entry with attributes := attributes } :: r.behind }

/-- In every order of the attributes the type becomes the one they stand for. -/
def DetectsInAnyOrder (r : RootResponse) (w : World) : Prop :=
  ∀ attributes, attributes.Perm r.entry.attributes →
    (exec (directoryParseResult (r.withAttributes attributes)) w).2.connection.directoryType =
      detectedType r.entry.attributes

def markedType (a : Bytes × List Bytes) : Option LdapDirectoryType := directoryProcessAttribute a.1

theorem directoryOfChain_bare (current : LdapDirectoryType) {messages : List LdapMessage}
    (h : ∀ message ∈ messages, message.attributes = []) : directoryOfChain current messages = current := by
  induction messages with
  | nil => rfl
  | cons message rest ih =>
    obtain ⟨hmessage, hrest⟩ := List.forall_mem_cons.mp h
    have hstep : directoryOfChain current (message :: rest) = directoryOfChain
        ((message.attributes.findSome? markedType).getD current) rest := rfl
    rw [hstep, hmessage]
    exact ih hrest

theorem directoryOfChain_append (current : LdapDirectoryType) (xs ys : List LdapMessage) :
    directoryOfChain current (xs ++ ys) = directoryOfChain (directoryOfChain current xs) ys := by
  unfold directoryOfChain
  exact List.foldl_append

theorem directoryType_parseResult (r : RootResponse) (attributes : List (Bytes × List Bytes)) (w : World) :
    (exec (directoryParseResult (r.withAttributes attributes)) w).2.connection.directoryType =
      let type := (attributes.findSome? markedType).getD w.connection.directoryType
      if type = .uninitialized then .unknown else type := by
  have hbefore := directoryOfChain_bare w.connection.directoryType fun m hm => r.bare m (List.mem_append_left _ hm)
  have hbehind : ∀ current, directoryOfChain current r.behind = current :=
    fun current => directoryOfChain_bare current fun m hm => r.bare m (List.mem_append_right _ hm)
  have hchain : directoryOfChain w.connection.directoryType (r.withAttributes attributes).chain =
      (attributes.findSome? markedType).getD w.connection.directoryType := by
    rw [RootResponse.withAttributes, directoryOfChain_append, hbefore]
    exact hbehind ((attributes.findSome? markedType).getD w.connection.directoryType)
  have hrc : (r.withAttributes attributes).rc = ldapResSearchEntry ∨
      (r.withAttributes attributes).rc = ldapResSearchResult := r.rc
  rw [directoryParseResult, if_pos hrc, ← hchain]
  rfl

theorem markedType_eq_activeDirectory {a : Bytes × List Bytes} :
    markedType a = some .activeDirectory ↔ a.1 = ascii "isGlobalCatalogReady" := by
  unfold markedType directoryProcessAttribute
  split_ifs with hcatalog hclass
  · simp [hcatalog]
  · simp [hcatalog]
  · simp [hcatalog]

theorem markedType_eq_openldap {a : Bytes × List Bytes} :
    markedType a = some .openldap ↔ a.1 = ascii "objectClass" := by
  have hne : ascii "objectClass" ≠ ascii "isGlobalCatalogReady" := by decide
  unfold markedType directoryProcessAttribute
  split_ifs with hcatalog hclass
  · simp [hcatalog, hne.symm]
  · simp [hclass]
  · simp [hclass]

theorem markedType_cases {a : Bytes × List Bytes} {type : LdapDirectoryType}
    (h : markedType a = some type) : type = .activeDirectory ∨ type = .openldap := by
  unfold markedType directoryProcessAttribute at h
  split_ifs at h with hcatalog hclass
  · exact .inl (Option.some.inj h).symm
  · exact .inr (Option.some.inj h).symm

/-- A marker decides the type if there is no other one. -/
theorem findSome_eq_some {attributes : List (Bytes × List Bytes)} {type : LdapDirectoryType}
    (hsome : ∃ a ∈ attributes, markedType a = some type)
    (honly : ∀ a ∈ attributes, ∀ other, markedType a = some other → other = type) :
    attributes.findSome? markedType = some type := by
  cases h : attributes.findSome? markedType with
  | none =>
    obtain ⟨a, ha, htype⟩ := hsome
    have hnone := List.findSome?_eq_none_iff.mp h a ha
    rw [htype] at hnone
    cases hnone
  | some other =>
    obtain ⟨a, ha, htype⟩ := List.exists_of_findSome?_eq_some h
    rw [honly a ha other htype]

theorem exists_activeDirectory_iff (attributes : List (Bytes × List Bytes)) :
    (∃ a ∈ attributes, markedType a = some .activeDirectory) ↔
      ascii "isGlobalCatalogReady" ∈ attributes.map Prod.fst := by
  simp [markedType_eq_activeDirectory]

theorem exists_openldap_iff (attributes : List (Bytes × List Bytes)) :
    (∃ a ∈ attributes, markedType a = some .openldap) ↔ ascii "objectClass" ∈ attributes.map Prod.fst := by
  simp [markedType_eq_openldap]

theorem findSome_markedType {attributes : List (Bytes × List Bytes)}
    (h : ¬(ascii "isGlobalCatalogReady" ∈ attributes.map Prod.fst ∧
      ascii "objectClass" ∈ attributes.map Prod.fst)) :
    attributes.findSome? markedType =
      if ascii "isGlobalCatalogReady" ∈ attributes.map Prod.fst then some .activeDirectory
      else if ascii "objectClass" ∈ attributes.map Prod.fst then some .openldap
      else none := by
  have hmarked := exists_activeDirectory_iff attributes
  have hmarked' := exists_openldap_iff attributes
  split_ifs with hcatalog hclass
  · refine findSome_eq_some (hmarked.mpr hcatalog) fun a ha other htype => ?_
    rcases markedType_cases htype with rfl | rfl
    · rfl
    · exact absurd ⟨hcatalog, hmarked'.mp ⟨a, ha, htype⟩⟩ h
  · refine findSome_eq_some (hmarked'.mpr hclass) fun a ha other htype => ?_
    rcases markedType_cases htype with rfl | rfl
    · exact absurd (hmarked.mp ⟨a, ha, htype⟩) hcatalog
    · rfl
  · refine List.findSome?_eq_none_iff.mpr fun a ha => ?_
    cases htype : markedType a with
    | none => rfl
    | some other =>
      rcases markedType_cases htype with rfl | rfl
      · exact absurd (hmarked.mp ⟨a, ha, htype⟩) hcatalog
      · exact absurd (hmarked'.mp ⟨a, ha, htype⟩) hclass

/-- The order does not matter exactly if there is at most one kind of marker, and one unless
no type has been detected before. -/
theorem detectsInAnyOrder_iff (r : RootResponse) (w : World) :
    DetectsInAnyOrder r w ↔
      ¬(ascii "isGlobalCatalogReady" ∈ r.entry.attributes.map Prod.fst ∧
        ascii "objectClass" ∈ r.entry.attributes.map Prod.fst) ∧
      (ascii "isGlobalCatalogReady" ∈ r.entry.attributes.map Prod.fst ∨
        ascii "objectClass" ∈ r.entry.attributes.map Prod.fst ∨
        w.connection.directoryType = .uninitialized ∨ w.connection.directoryType = .unknown) := by
  by_cases hboth : ascii "isGlobalCatalogReady" ∈ r.entry.attributes.map Prod.fst ∧
      ascii "objectClass" ∈ r.entry.attributes.map Prod.fst
  · -- an order with the class first gives another type
    obtain ⟨hc, ho⟩ := hboth
    simp only [hc, ho, and_self, not_true_eq_false, false_and, iff_false]
    intro h
    obtain ⟨a, ha, htype⟩ := (exists_openldap_iff r.entry.attributes).mpr ho
    have horder := h (a :: r.entry.attributes.erase a) (List.perm_cons_erase ha).symm
    rw [directoryType_parseResult, detectedType, if_pos hc] at horder
    simp [htype] at horder
  · have hdecided : ∀ attributes : List (Bytes × List Bytes), attributes.Perm r.entry.attributes →
        attributes.findSome? markedType = r.entry.attributes.findSome? markedType := by
      intro attributes hperm
      have hkeys : ∀ key, key ∈ attributes.map Prod.fst ↔ key ∈ r.entry.attributes.map Prod.fst :=
        fun _ => (hperm.map Prod.fst).mem_iff
      rw [findSome_markedType hboth, findSome_markedType (by rwa [hkeys, hkeys])]
      simp only [hkeys]
    have hself : DetectsInAnyOrder r w ↔
        (exec (directoryParseResult (r.withAttributes r.entry.attributes)) w).2.connection.directoryType =
          detectedType r.entry.attributes := by
      refine ⟨fun h => h _ (List.Perm.refl _), fun h attributes hperm => ?_⟩
      rw [directoryType_parseResult, hdecided attributes hperm, ← directoryType_parseResult]
      exact h
    rw [hself, directoryType_parseResult, findSome_markedType hboth, detectedType]
    by_cases hc : ascii "isGlobalCatalogReady" ∈ r.entry.attributes.map Prod.fst
    · simp only [hc, true_and] at hboth
      simp [hc, hboth]
    · by_cases ho : ascii "objectClass" ∈ r.entry.attributes.map Prod.fst
      · simp [hc, ho]
      · by_cases huninitialized : w.connection.directoryType = .uninitialized
        · simp [hc, ho, huninitialized]
        · simp [hc, ho, huninitialized]

def bothMarkers : RootResponse where
  before := []
  entry := ⟨some [], [(ascii "objectClass", [ascii "top"]), (ascii "isGlobalCatalogReady", [ascii "TRUE"])]⟩
  behind := []
  bare := by simp
  response := { rc := ldapResSearchEntry }
  rc := .inl rfl

theorem bothMarkers_not_detectsInAnyOrder :
    ¬DetectsInAnyOrder bothMarkers (.initial ⟨false, .simple⟩ none) ∧
    (exec (directoryParseResult (bothMarkers.withAttributes bothMarkers.entry.attributes))
      (.initial ⟨false, .simple⟩ none)).2.connection.directoryType = .openldap ∧
    (exec (directoryParseResult (bothMarkers.withAttributes bothMarkers.entry.attributes.reverse))
      (.initial ⟨false, .simple⟩ none)).2.connection.directoryType = .activeDirectory := by
  have hfirst : (exec (directoryParseResult (bothMarkers.withAttributes bothMarkers.entry.attributes))
      (.initial ⟨false, .simple⟩ none)).2.connection.directoryType = .openldap := rfl
  refine ⟨fun h => ?_, hfirst, rfl⟩
  have horder := h bothMarkers.entry.attributes (List.Perm.refl _)
  rw [hfirst] at horder
  have hdetected : detectedType bothMarkers.entry.attributes = .activeDirectory := by decide
  rw [hdetected] at horder
  cases horder

end Libdomain.Connection
