import Libdomain.Connection.SearchTable

/-! # Removing one search

`connection_remove_search_request` on any connection, whatever led to it. The
loop removes the entry at an index; the shortcut clears it in place and forgets
the last entry instead. The two agree at the end of the table only, but the code
takes the shortcut at the end of the read requests.
-/
namespace Libdomain.Connection

/-- The live entries are the previous ones without the one at the index, and no other field
changes. -/
def RemovesExactly (c : LdapConnectionCtx) (index : ℕ) : Prop :=
  (c.removeSearchRequest index).table = c.table.eraseIdx index ∧
    { c.removeSearchRequest index with
      searchRequests := c.searchRequests, nSearchRequests := c.nSearchRequests } = c

theorem removeSearchRequest_otherFields (c : LdapConnectionCtx) (index : ℕ) :
    { c.removeSearchRequest index with
      searchRequests := c.searchRequests, nSearchRequests := c.nSearchRequests } = c := by
  obtain ⟨searchRequests, he⟩ := c.removeSearchRequest_eq index
  rw [he]

/-- Removal takes out the entry at the index, and only that, unless the index is one below
the number of read requests and a search is registered behind it. -/
theorem removesExactly_iff (c : LdapConnectionCtx) (index : ℕ) (h : index < c.nSearchRequests) :
    RemovesExactly c index ↔
      (index + 1 = c.nReadRequests →
        index + 1 = c.nSearchRequests ∨
          ∀ i, index < i → i < c.nSearchRequests →
            c.searchRequests i = LdapConnectionCtx.clearedSearch) := by
  have hfields := removeSearchRequest_otherFields c index
  have hrest : (∀ i, index < i → ∀ hi : i < c.table.length,
      c.table[i] = LdapConnectionCtx.clearedSearch) ↔
      ∀ i, index < i → i < c.nSearchRequests →
        c.searchRequests i = LdapConnectionCtx.clearedSearch := by
    simp only [getElem_table, length_table]
  rw [RemovesExactly, and_iff_left hfields, table_removeSearchRequest h, removeEntry]
  by_cases hlast : index + 1 = c.nReadRequests
  · rw [if_pos hlast, dropLast_set_eq_eraseIdx (by rwa [length_table]), hrest, length_table,
      forall_prop_of_true hlast]
  · rw [if_neg hlast]
    exact iff_of_true rfl fun he => absurd he hlast

section Runs

-- Only the kernel is to evaluate the runs.
attribute [local irreducible] run

def searchesBehindReference : List Step :=
  [.submit ⟨.search ⟨[], 0, [], [], false⟩ (some (.application 1)) (.application 10), ⟨ldapSuccess, 1⟩⟩,
    .read [{ rc := ldapResSearchReference, msgid := 1 }],
    .submit ⟨.search ⟨[], 0, [], [], false⟩ (some (.application 2)) (.application 20), ⟨ldapSuccess, 2⟩⟩,
    .submit ⟨.search ⟨[], 0, [], [], false⟩ (some (.application 3)) (.application 30), ⟨ldapSuccess, 3⟩⟩]

theorem removesExactly_iff_lastSearch :
    RemovesExactly (run ⟨false, .simple⟩ none searchesBehindReference).2.connection 2 :=
  (removesExactly_iff _ 2 (by decide +kernel)).mpr (fun _ => .inl (by decide +kernel))

/-- The second search leaves, and the third one with it: a cleared entry stays in its place. -/
theorem searchesBehindReference_not_removesExactly :
    (run ⟨false, .simple⟩ none searchesBehindReference).1 = .ok () ∧
      (run ⟨false, .simple⟩ none searchesBehindReference).2.connection.findSearchRequest 2 = some 1 ∧
      1 < (run ⟨false, .simple⟩ none searchesBehindReference).2.connection.nSearchRequests ∧
      ¬RemovesExactly (run ⟨false, .simple⟩ none searchesBehindReference).2.connection 1 := by
  refine ⟨by decide +kernel, by decide +kernel, by decide +kernel, ?_⟩
  intro h
  exact absurd h.1 (by decide +kernel)

end Runs

end Libdomain.Connection
