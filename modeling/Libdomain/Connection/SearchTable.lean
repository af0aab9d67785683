import Libdomain.Connection.Machine
import Mathlib.Data.List.Perm.Basic

/-! # The table of searches and the queued searches

A search is kept in two places: its request in the queue and its entry in the
table. The two agree as long as every search gets its entry and leaves by way
of its callback; then there are no more entries than requests, and removal by
index takes the right entry. `Event.orderly` excludes the cases in which the
code touches only one of the two.
-/
namespace Libdomain.Connection
open Libdomain.Queue Libdomain.Program

def searchIds (payloads : List Payload) : List Int :=
  (payloads.filter fun p => p.2 = some .searchOnRead).map Prod.fst

/-- The table holds exactly the searches that are queued or in the hands of the
running pass, each once. -/
def SearchesMatch (c : LdapConnectionCtx) (aside : List LdapRequest) : Prop :=
  (c.table.map LdapSearchRequest.msgid).Nodup ∧
    (c.table.map LdapSearchRequest.msgid).Perm
      (searchIds ((c.queuedRequests ++ aside).map LdapRequest.payload))

instance (c : LdapConnectionCtx) (aside : List LdapRequest) : Decidable (SearchesMatch c aside) :=
  inferInstanceAs (Decidable (_ ∧ _))

/-- What libldap promises: a message id is not given out again while a search with it
is in the table, and the response to a request carries its message id. -/
def Event.promised : Event → Bool
  | .submission _ handler msgid _ c =>
    handler = .searchOnRead → msgid ∉ c.table.map LdapSearchRequest.msgid
  | .dispatch _ request r _ _ => request.onReadOperation = some .searchOnRead → r.msgid = request.msgid
  | _ => true

/-- What keeps the queue and the table together: no search is submitted at the
capacity of the table, and no search ends with an error of `ldap_result`, with a
response other than an entry or a result, with entries that cannot be read or in an
abandoned pass. -/
def Event.orderly : Event → Bool
  | .submission _ handler _ _ c => handler = .searchOnRead → c.nSearchRequests + 1 < maxRequests
  | .resultError request => request.onReadOperation ≠ some .searchOnRead
  | .dispatch _ request r _ _ => request.onReadOperation = some .searchOnRead →
    (r.rc = ldapResSearchEntry ∨ r.rc = ldapResSearchResult) ∧ (readEntries r).isSome
  | .passAbandoned lost _ => ∀ request ∈ lost, request.onReadOperation ≠ some .searchOnRead
  | _ => true

section Lists

variable {α : Type} {xs : List α} {i : ℕ} {a : α}

theorem getElem_succ_of_dropLast_set (h : (xs.set i a).dropLast = xs.eraseIdx i) {j : ℕ} (hij : i ≤ j)
    (hj : j + 1 < xs.length) : xs[j + 1] = if i = j then a else xs[j] := by
  have hlen : j < (xs.eraseIdx i).length := by
    rw [List.length_eraseIdx]
    split_ifs <;> omega
  have hlen' : j < (xs.set i a).dropLast.length := by
    rw [List.length_dropLast, List.length_set]
    omega
  have herase : (xs.eraseIdx i)[j] = xs[j + 1] := by
    rw [List.getElem_eraseIdx, dif_neg (not_lt.mpr hij)]
  have hset : (xs.set i a).dropLast[j] = if i = j then a else xs[j] := by
    rw [List.getElem_dropLast, List.getElem_set]
  rw [← herase, ← hset]
  simp only [h]

/-- Overwriting an entry and forgetting the last one erases the entry exactly when it is
the last one or everything behind it already is what it was overwritten with. -/
theorem dropLast_set_eq_eraseIdx (hi : i < xs.length) :
    (xs.set i a).dropLast = xs.eraseIdx i ↔
      i + 1 = xs.length ∨ ∀ j, i < j → ∀ hj : j < xs.length, xs[j] = a := by
  constructor
  · intro h
    by_cases hlast : i + 1 = xs.length
    · exact Or.inl hlast
    refine Or.inr fun j hij => ?_
    induction j, hij using Nat.le_induction with
    | base =>
      intro hj
      rw [getElem_succ_of_dropLast_set h le_rfl hj, if_pos rfl]
    | succ j hij ih =>
      intro hj
      rw [getElem_succ_of_dropLast_set h (by omega) hj, if_neg (by omega)]
      exact ih (by omega)
  · intro h
    apply List.ext_getElem
    · rw [List.length_dropLast, List.length_set, List.length_eraseIdx, if_pos hi]
    intro j hj hj'
    rw [List.length_dropLast, List.length_set] at hj
    rw [List.getElem_dropLast, List.getElem_set, List.getElem_eraseIdx]
    by_cases hlt : j < i
    · rw [if_neg (by omega), dif_pos hlt]
    rcases h with hlast | hrest
    · omega
    rw [dif_neg hlt, hrest (j + 1) (by omega) (by omega)]
    by_cases he : i = j
    · rw [if_pos he]
    · rw [if_neg he, hrest j (by omega) (by omega)]

end Lists

@[simp] theorem searchIds_nil : searchIds [] = [] := rfl

@[simp] theorem searchIds_append (xs ys : List Payload) :
    searchIds (xs ++ ys) = searchIds xs ++ searchIds ys := by
  simp [searchIds]

theorem searchIds_search (msgid : Int) : searchIds [(msgid, some .searchOnRead)] = [msgid] := rfl

theorem searchIds_eq_nil {payloads : List Payload} (h : ∀ p ∈ payloads, p.2 ≠ some .searchOnRead) :
    searchIds payloads = [] := by
  simp only [searchIds, List.map_eq_nil_iff, List.filter_eq_nil_iff]
  intro p hp
  simpa using h p hp

theorem searchIds_perm {xs ys : List Payload} (h : xs.Perm ys) : (searchIds xs).Perm (searchIds ys) :=
  (h.filter _).map _

def Delivery.inHand (d : Delivery) (top : Option Payload) : List Payload :=
  match d with
  | .answered => []
  | _ => top.toList

@[simp] theorem Delivery.inHand_none (d : Delivery) : d.inHand none = [] := by
  cases d <;> rfl

/-- The table of a ledger matches its requests, and a search that is being processed
has its entry. -/
structure Matched (l : Ledger) (d : Delivery) : Prop where
  nodup : (l.table.map LdapSearchRequest.msgid).Nodup
  perm : (l.table.map LdapSearchRequest.msgid).Perm (searchIds (l.queue ++ l.pending ++ d.inHand l.top))
  callbacks : ∀ entry ∈ l.table, entry.onSearchOperation ≠ none
  failed : ∀ request, d = .failed request → ∀ p, l.top = some p → p.2 ≠ some .searchOnRead
  search : ∀ request r c, d = .dispatched request r c → request.onReadOperation = some .searchOnRead →
    Answerable c r ∧ r.msgid = request.msgid ∧ l.top = some request.payload
  other : ∀ request r c, d = .dispatched request r c → request.onReadOperation ≠ some .searchOnRead →
    ∀ p, l.top = some p → p.2 ≠ some .searchOnRead
  answering : ∀ index, d = .answering index → ∃ entry, l.table[index]? = some entry ∧
    l.top = some (entry.msgid, some .searchOnRead)

variable {l : Ledger} {d : Delivery} {request : LdapRequest} {r : Response} {c : LdapConnectionCtx}

theorem Matched.pushed (h : Matched l d) {handler : OperationCallback} (hne : handler ≠ .searchOnRead)
    (msgid : Int) :
    Matched { l with queue := l.queue ++ [(msgid, some handler)], used := l.used + 1 } d := by
  have hother : searchIds [(msgid, some handler)] = [] := searchIds_eq_nil (by simpa using hne)
  refine ⟨h.nodup, ?_, h.callbacks, h.failed, h.search, h.other, h.answering⟩
  have hperm := h.perm
  simp only [searchIds_append] at hperm ⊢
  rwa [hother, List.append_nil]

theorem Matched.searched (h : Matched l d) {msgid : Int}
    (hfresh : msgid ∉ l.table.map LdapSearchRequest.msgid) (callback : SearchCallback)
    (userData : UserData) :
    Matched { l with
      queue := l.queue ++ [(msgid, some .searchOnRead)]
      used := l.used + 1
      table := l.table ++ [⟨msgid, some callback, userData⟩] } d := by
  refine ⟨?_, ?_, ?_, h.failed, h.search, h.other, ?_⟩
  · have hdisjoint : ∀ id ∈ l.table.map LdapSearchRequest.msgid, id ≠ msgid := by
      intro id hid he
      exact hfresh (he ▸ hid)
    simpa [List.nodup_append, h.nodup] using hdisjoint
  · have hperm := h.perm
    simp only [searchIds_append, searchIds_search, List.map_append, List.map_singleton] at hperm ⊢
    have hswap : (searchIds l.queue ++ [msgid] ++ searchIds l.pending ++ searchIds (d.inHand l.top)).Perm
        (searchIds l.queue ++ searchIds l.pending ++ searchIds (d.inHand l.top) ++ [msgid]) := by
      simp only [List.append_assoc]
      exact List.Perm.append_left _ (List.perm_append_comm.trans (by simp))
    exact (hperm.append_right [msgid]).trans hswap.symm
  · intro entry he
    rcases List.mem_append.mp he with he | he
    · exact h.callbacks entry he
    · have heq := List.mem_singleton.mp he
      simp [heq]
  · intro index hd
    obtain ⟨entry, hentry, htop⟩ := h.answering index hd
    have hlt : index < l.table.length := (List.getElem?_eq_some_iff.mp hentry).1
    exact ⟨entry, by rw [List.getElem?_append_left hlt, hentry], htop⟩

theorem Matched.idle (h : Matched l d) (htop : l.top = none) : Matched l .idle := by
  refine ⟨h.nodup, ?_, h.callbacks, by simp, by simp, by simp, by simp⟩
  have hperm := h.perm
  simpa [htop] using hperm

theorem Matched.cleared (h : Matched l d) (htop : l.top = none) : Matched .empty d := by
  refine ⟨List.nodup_nil, by simp [Ledger.empty], by simp [Ledger.empty], by simp [Ledger.empty], ?_,
    by simp [Ledger.empty], ?_⟩
  · intro request r c hd hs
    have hsome := (h.search request r c hd hs).2.2
    simp [htop] at hsome
  · intro index hd
    obtain ⟨entry, -, hsome⟩ := h.answering index hd
    simp [htop] at hsome

theorem matched_empty : Matched .empty .idle := by
  refine ⟨List.nodup_nil, ?_, ?_, ?_, ?_, ?_, ?_⟩ <;> simp [Ledger.empty]

theorem Matched.popped (h : Matched l .idle) (htop : l.top = none) {p : Payload} {rest : List Payload}
    (hq : l.queue = p :: rest) : Matched { l with queue := rest, top := some p } .idle := by
  refine ⟨h.nodup, ?_, h.callbacks, by simp, by simp, by simp, by simp⟩
  have hperm := h.perm
  have hswap : (p :: rest ++ l.pending ++ []).Perm (rest ++ l.pending ++ [p]) := by
    simp only [List.append_nil, List.cons_append]
    exact (List.perm_append_singleton p _).symm
  rw [hq, htop] at hperm
  exact hperm.trans (searchIds_perm hswap)

theorem Matched.resultError (h : Matched l .idle) (htop : l.top = some request.payload)
    (hs : request.onReadOperation ≠ some .searchOnRead) : Matched l (.failed request) := by
  refine ⟨h.nodup, h.perm, h.callbacks, ?_, by simp, by simp, by simp⟩
  intro request' _ p hp
  have heq : request.payload = p := Option.some.inj (htop.symm.trans hp)
  rw [← heq]
  exact hs

theorem Matched.deferred (h : Matched l .idle) :
    Matched { l with pending := l.pending ++ l.top.toList, top := none } .idle := by
  refine ⟨h.nodup, ?_, h.callbacks, by simp, by simp, by simp, by simp⟩
  have hperm := h.perm
  have hassoc : l.queue ++ (l.pending ++ l.top.toList) ++ [] =
      l.queue ++ l.pending ++ l.top.toList := by simp
  exact hperm.trans (by rw [Delivery.inHand_none, hassoc]; exact List.Perm.refl _)

theorem Matched.dispatched (h : Matched l .idle) (htop : l.top = some request.payload)
    (hs : request.onReadOperation = some .searchOnRead → Answerable c r ∧ r.msgid = request.msgid) :
    Matched l (.dispatched request r c) := by
  refine ⟨h.nodup, h.perm, h.callbacks, by simp, ?_, ?_, by simp⟩
  · intro request' r' c' hd hsearch
    cases hd
    exact ⟨(hs hsearch).1, (hs hsearch).2, htop⟩
  · intro request' r' c' hd hsearch p hp
    cases hd
    have heq : request.payload = p := Option.some.inj (htop.symm.trans hp)
    rw [← heq]
    exact hsearch

theorem Matched.callback (h : Matched l (.dispatched request r c))
    (hs : request.onReadOperation = some .searchOnRead) {index : ℕ} {entry : LdapSearchRequest}
    (hentry : l.table[index]? = some entry) (hmsgid : entry.msgid = r.msgid) :
    Matched l (.answering index) := by
  obtain ⟨-, hid, htop⟩ := h.search request r c rfl hs
  refine ⟨h.nodup, h.perm, h.callbacks, by simp, by simp, by simp, ?_⟩
  intro index' hd
  have heq : index = index' := Delivery.answering.inj hd
  have hpayload : request.payload = (entry.msgid, some .searchOnRead) := by
    rw [LdapRequest.payload, hs, hmsgid, hid]
  exact ⟨entry, heq ▸ hentry, by rw [htop, hpayload]⟩

theorem removeEntry_eq_eraseIdx {used index : ℕ} {table : List LdapSearchRequest}
    (hlast : index + 1 = used → index + 1 = table.length) :
    removeEntry used index table = table.eraseIdx index := by
  unfold removeEntry
  split_ifs with hused
  · have hlen := hlast hused
    exact (dropLast_set_eq_eraseIdx (by omega)).mpr (.inl hlen)
  · rfl

theorem Matched.length_le (h : Matched l d) :
    l.table.length ≤ l.queue.length + l.pending.length + l.top.toList.length := by
  have hperm := h.perm.length_eq
  have hids : (searchIds (l.queue ++ l.pending ++ d.inHand l.top)).length ≤
      (l.queue ++ l.pending ++ d.inHand l.top).length := by
    rw [searchIds, List.length_map]
    exact List.length_filter_le _ _
  have hhand : (d.inHand l.top).length ≤ l.top.toList.length := by
    cases d <;> simp [Delivery.inHand]
  simp only [List.length_map, List.length_append] at hperm hids
  omega

theorem Matched.removed {index : ℕ} (h : Matched l (.answering index))
    (hlast : index + 1 = l.used → index + 1 = l.table.length) :
    Matched { l with table := removeEntry l.used index l.table } .answered := by
  obtain ⟨entry, hentry, htop⟩ := h.answering index rfl
  obtain ⟨hlt, hget⟩ := List.getElem?_eq_some_iff.mp hentry
  have hremove := removeEntry_eq_eraseIdx hlast
  have hcons : (entry.msgid :: (l.table.eraseIdx index).map LdapSearchRequest.msgid).Perm
      (l.table.map LdapSearchRequest.msgid) := by
    rw [← hget, ← List.map_cons]
    exact (List.getElem_cons_eraseIdx_perm hlt).map _
  have hperm := hcons.trans h.perm
  refine ⟨?_, ?_, ?_, by simp, by simp, by simp, by simp⟩
  · change ((removeEntry l.used index l.table).map _).Nodup
    rw [hremove]
    exact (List.nodup_cons.mp (hcons.nodup_iff.mpr h.nodup)).2
  · change ((removeEntry l.used index l.table).map _).Perm (searchIds (l.queue ++ l.pending ++ []))
    rw [hremove]
    have hhand : (Delivery.answering index).inHand l.top = [(entry.msgid, some .searchOnRead)] := by
      simp [Delivery.inHand, htop]
    rw [hhand] at hperm
    simp only [searchIds_append, searchIds_search, List.append_nil] at hperm ⊢
    exact (hperm.trans (List.perm_append_singleton _ _)).cons_inv
  · intro entry' he
    change entry' ∈ removeEntry l.used index l.table at he
    rw [hremove] at he
    exact h.callbacks entry' (List.mem_of_mem_eraseIdx he)

/-- A completed request leaves the hands of the pass; had it been a search, its entry
would be gone. -/
theorem Matched.released (h : Matched l d) (hd : d.Completed) : Matched { l with top := none } d := by
  have hgone : searchIds (d.inHand l.top) = [] := by
    cases d with
    | idle => exact hd.elim
    | answering => exact hd.elim
    | answered => rfl
    | failed request =>
      apply searchIds_eq_nil
      intro p hp
      exact h.failed request rfl p (Option.mem_toList.mp hp)
    | dispatched request r c =>
      apply searchIds_eq_nil
      intro p hp
      have hne : request.onReadOperation ≠ some .searchOnRead := fun hs =>
        hd hs (h.search request r c rfl hs).1
      exact h.other request r c rfl hne p (Option.mem_toList.mp hp)
  refine ⟨h.nodup, ?_, h.callbacks, by simp, ?_, by simp, ?_⟩
  · have hperm := h.perm
    simp only [searchIds_append, hgone] at hperm
    simpa using hperm
  · intro request r c he hs
    subst he
    exact absurd (h.search request r c rfl hs).1 (hd hs)
  · intro index he
    subst he
    exact hd.elim

theorem Matched.finished (h : Matched l d) (hq : l.queue = []) (htop : l.top = none) :
    Matched { l with queue := l.pending, pending := [], top := none, used := l.pending.length } d := by
  refine ⟨h.nodup, ?_, h.callbacks, by simp, ?_, by simp, ?_⟩
  · have hperm := h.perm
    simpa [hq, htop] using hperm
  · intro request r c hd hs
    have hsome := (h.search request r c hd hs).2.2
    simp [htop] at hsome
  · intro index hd
    obtain ⟨entry, -, hsome⟩ := h.answering index hd
    simp [htop] at hsome

theorem Matched.abandoned (h : Matched l .idle)
    (hlost : ∀ p ∈ l.pending ++ l.top.toList, p.2 ≠ some .searchOnRead) :
    Matched { l with pending := [], top := none } .idle := by
  refine ⟨h.nodup, ?_, h.callbacks, by simp, by simp, by simp, by simp⟩
  have hperm := h.perm
  have hgone : searchIds (l.pending ++ l.top.toList) = [] := searchIds_eq_nil hlost
  change (l.table.map _).Perm (searchIds (l.queue ++ l.pending ++ l.top.toList)) at hperm
  rw [List.append_assoc, searchIds_append, hgone] at hperm
  simpa using hperm

variable {w w' : World}

theorem Tracks.length_le_used (h : Tracks w l) :
    l.queue.length + l.pending.length + l.top.toList.length ≤ l.used := by
  obtain ⟨slots, hs, rfl⟩ := h
  have hroom := hs.room
  have htop : (w.ledger slots).top.toList.length = w.top.toList.length := by
    cases ht : w.top <;> simp [World.ledger, ht]
  rw [htop]
  simp only [World.ledger, List.length_map]
  omega

/-- The ledger of the trace matches, and each handler was called with the table and
the requests in agreement. -/
structure Tabled (w : World) : Prop where
  matched : Matched (replay w.trace) (delivery w.trace)
  dispatches : ∀ slot request r pending c, .dispatch slot request r pending c ∈ w.trace →
    SearchesMatch c (pending ++ [request])

theorem Matched.searchesMatch (h : Matched l d) (hw : Tracks w l) (hd : d ≠ .answered) :
    SearchesMatch w.connection (w.pendingRequests ++ (w.top.map w.connection.readRequests).toList) := by
  have hperm := h.perm
  have hnodup := h.nodup
  have hhand : d.inHand l.top = l.top.toList := by
    cases d <;> first | rfl | exact absurd rfl hd
  have htop : l.top.toList = (w.top.map w.connection.readRequests).toList.map LdapRequest.payload := by
    obtain ⟨slots, -, rfl⟩ := hw
    cases ht : w.top <;> simp [World.ledger, ht]
  rw [hw.table_eq] at hperm hnodup
  rw [hhand, htop, hw.queue_eq, hw.pending_eq] at hperm
  refine ⟨hnodup, ?_⟩
  simpa using hperm

def Event.Undispatched : Event → Prop
  | .dispatch .. => False
  | _ => True

theorem Tabled.step (h : Tabled w) (grows : w.Grows w' Event.Undispatched)
    (matched : Matched (replay w'.trace) (delivery w'.trace)) : Tabled w' := by
  refine ⟨matched, ?_⟩
  intro slot request r pending c hm
  exact h.dispatches slot request r pending c ((grows.mem_of_mem hm).resolve_left id)

theorem Event.Quiet.undispatched {e : Event} (h : e.Quiet w) : e.Undispatched := by
  cases e with
  | dispatch => exact h.elim
  | _ => trivial

theorem delivery_restoreWrites (i n : ℕ) (events : List Event) :
    delivery (restoreWrites i n ++ events) = delivery events :=
  restoreWrites_induction (P := fun trace => delivery trace = delivery events) (fun _ _ h => h) i n rfl

theorem findSearchRequest_of_mem {msgid : Int} (h : msgid ∈ c.table.map LdapSearchRequest.msgid) :
    ∃ index, c.findSearchRequest msgid = some index := by
  obtain ⟨entry, hentry, hid⟩ := List.mem_map.mp h
  obtain ⟨i, hi, he⟩ := List.mem_map.mp hentry
  have hsome : (c.findSearchRequest msgid).isSome = true := by
    rw [LdapConnectionCtx.findSearchRequest, List.find?_isSome]
    exact ⟨i, hi, by simp [he, hid]⟩
  exact Option.isSome_iff_exists.mp hsome

/-- A search in hand has an entry for its response, provided the response is an entry
or a result that can be read. -/
theorem Matched.answerable (h : Matched l .idle) (htable : l.table = c.table)
    (htop : l.top = some request.payload) (hs : request.onReadOperation = some .searchOnRead)
    (hid : r.msgid = request.msgid)
    (hr : (r.rc = ldapResSearchEntry ∨ r.rc = ldapResSearchResult) ∧ (readEntries r).isSome) :
    Answerable c r := by
  have hmem : request.msgid ∈ c.table.map LdapSearchRequest.msgid := by
    have hhand : Delivery.idle.inHand l.top = [(request.msgid, some .searchOnRead)] := by
      simp [Delivery.inHand, htop, LdapRequest.payload, hs]
    rw [← htable, h.perm.mem_iff, hhand, searchIds_append, searchIds_search]
    simp
  obtain ⟨index, hfound⟩ := findSearchRequest_of_mem hmem
  obtain ⟨hlt, -⟩ := findSearchRequest_eq_some hfound
  have hcallback : (c.searchRequests index).onSearchOperation ≠ none := by
    have hget := h.callbacks c.table[index] (by rw [htable]; exact List.getElem_mem hlt)
    rwa [getElem_table] at hget
  obtain ⟨callback, hcallback⟩ := Option.ne_none_iff_exists'.mp hcallback
  obtain ⟨entries, hentries⟩ := Option.isSome_iff_exists.mp hr.2
  exact ⟨hr.1, index, callback, entries, by rw [hid, hfound], hcallback, hentries⟩

theorem submission_mem_tracked (w : World) (handler : OperationCallback) (msgid : Int) :
    .submission w.connection.nReadRequests handler msgid w.top w.connection ∈
      (w.tracked handler msgid).trace :=
  List.mem_cons_of_mem _ (List.mem_cons_of_mem _ List.mem_cons_self)

theorem Tabled.dispatched (hi : Tabled w) (hw : Simulated w) {slot : ℕ} {r : Response} (top : w.top = some slot)
    (idle : delivery w.trace = .idle) (hw' : Simulated (exec (announce slot (w.connection.readRequests slot) r) w).2)
    (hevents : ∀ e ∈ (exec (announce slot (w.connection.readRequests slot) r) w).2.trace, e.promised ∧ e.orderly) :
    Tabled (exec (announce slot (w.connection.readRequests slot) r) w).2 := by
  have hhead := hevents (.dispatch slot (w.connection.readRequests slot) r w.pendingRequests
    (exec (announce slot (w.connection.readRequests slot) r) w).2.connection) List.mem_cons_self
  have hid := of_decide_eq_true hhead.1
  have hread := of_decide_eq_true hhead.2
  have hm := hi.matched
  have htop := Tracks.top_eq hw top
  have htable := Tracks.table_eq hw
  rw [idle] at hm
  have hm' : Matched (replay (exec (announce slot (w.connection.readRequests slot) r) w).2.trace)
      (delivery (exec (announce slot (w.connection.readRequests slot) r) w).2.trace) :=
    hm.dispatched htop fun hs => ⟨hm.answerable htable htop hs (hid hs) (hread hs), hid hs⟩
  refine ⟨hm', ?_⟩
  intro slot' request r' pending c hmem
  rcases List.mem_cons.mp hmem with he | hold
  · cases he
    have hmatch := hm'.searchesMatch hw' (by rintro ⟨⟩)
    have htop' : (exec (announce slot (w.connection.readRequests slot) r) w).2.top = some slot := top
    rw [htop'] at hmatch
    exact hmatch
  · exact hi.dispatches slot' request r' pending c hold

theorem Tracks.forall_payload (h : Tracks w l) {slot : ℕ} (top : w.top = some slot) {P : Payload → Prop}
    (hP : ∀ request ∈ w.pendingRequests ++ (w.top.map w.connection.readRequests).toList, P request.payload) :
    ∀ p ∈ l.pending ++ l.top.toList, P p := by
  intro p hp
  rw [h.pending_eq, h.top_eq top] at hp
  rw [top] at hP
  rcases List.mem_append.mp hp with hp | hp
  · obtain ⟨request, hr, rfl⟩ := List.mem_map.mp hp
    exact hP request (List.mem_append_left _ hr)
  · rw [List.mem_singleton.mp hp]
    exact hP _ (List.mem_append_right _ List.mem_cons_self)

/-- One effect keeps table and queue together, unless its events exclude it. -/
theorem Effect.tabled (h : Effect w w') (hw : Simulated w)
    (hevents : ∀ e ∈ w'.trace, e.promised ∧ e.orderly) (hi : Tabled w) : Tabled w' := by
  have hm := hi.matched
  have hw' := h.simulated hw
  cases h with
  | quiet same trace =>
    refine hi.step (.none trace) ?_
    rw [trace]
    exact hm
  | event e quiet same trace =>
    refine hi.step (.one trace quiet.undispatched) ?_
    rw [trace, replay, apply_quiet quiet, quiet.delivery]
    exact hm
  | overflow => exact hi.step (.two rfl trivial trivial) hm
  | tracked handler msgid other room =>
    exact hi.step ⟨[_, _, _], rfl, by simp [Event.Undispatched]⟩ (hm.pushed other msgid)
  | searchOverflow => exact hi.step ⟨[_, _, _], rfl, by simp [Event.Undispatched]⟩ hm
  | searchFull callback userData msgid room full =>
    have hsub := (hevents _ (submission_mem_tracked _ .searchOnRead msgid)).2
    have hlt : w.connection.nSearchRequests + 1 < maxRequests := of_decide_eq_true hsub rfl
    omega
  | searched callback userData msgid room tableRoom =>
    have hmem := submission_mem_tracked (w.issued callback userData msgid) .searchOnRead msgid
    have hsub := (hevents _ (List.mem_cons_of_mem _ (List.mem_cons_of_mem _ hmem))).1
    have hfresh : msgid ∉ w.connection.table.map LdapSearchRequest.msgid := of_decide_eq_true hsub rfl
    rw [← Tracks.table_eq hw] at hfresh
    exact hi.step ⟨[_, _, _, _, _, _], rfl, by simp [Event.Undispatched]⟩
      (hm.searched hfresh callback userData)
  | answer step =>
    cases step with
    | callback index callback request r entries dispatched handler found registered _ =>
      obtain ⟨hlt, hmsgid⟩ := findSearchRequest_eq_some found
      have hentry : (replay w.trace).table[index]? = some w.connection.table[index] := by
        rw [Tracks.table_eq hw, List.getElem?_eq_getElem hlt]
      rw [dispatched] at hm
      exact hi.step (.one rfl trivial) (hm.callback handler hentry hmsgid)
    | write => exact hi.step (.one rfl trivial) hm
    | remove index live answering =>
      have hlen := hm.length_le
      have hroom := Tracks.length_le_used hw
      rw [← length_table, ← Tracks.table_eq hw] at live
      rw [answering] at hm
      exact hi.step (.one rfl trivial) (hm.removed (by omega))
  | configured frame emptied epoch trace =>
    refine hi.step (.one trace trivial) ?_
    rw [trace]
    exact hm.cleared (Tracks.top_eq_none hw (top_eq_none_of_frame frame))
  | eventBase frame emptied epoch trace =>
    refine hi.step (.one trace trivial) ?_
    rw [trace]
    exact hm.cleared (Tracks.top_eq_none hw (top_eq_none_of_frame frame))
  | begin frame =>
    exact hi.step (.one rfl trivial) (hm.idle (Tracks.top_eq_none hw (top_eq_none_of_frame frame)))
  | pop slot queue frame top settled popped =>
    have htop := Tracks.top_eq_none hw top
    obtain ⟨payload, rest, hq, -, -⟩ := Tracks.popped hw frame top popped
    refine hi.step (.one rfl trivial) ?_
    change Matched ((replay w.trace).apply (.popped slot)) .idle
    rw [Ledger.apply_popped hq]
    exact (hm.idle htop).popped htop hq
  | resultError slot top idle =>
    have hother := of_decide_eq_true
      (hevents (.resultError (w.connection.readRequests slot)) List.mem_cons_self).2
    rw [idle] at hm
    exact hi.step (.one rfl trivial) (hm.resultError (Tracks.top_eq hw top) hother)
  | defer slot top idle =>
    refine hi.step (.two rfl trivial trivial) ?_
    change Matched ((replay w.trace).apply (.deferred _)) (delivery w.trace)
    rw [idle] at hm ⊢
    exact hm.deferred
  | dispatch slot r top idle => exact hi.dispatched hw top idle hw' hevents
  | release _ completed => exact hi.step (.one rfl trivial) (hm.released completed)
  | finish frame top settled drained =>
    refine hi.step (.finished w (fun _ => trivial) fun _ => trivial) ?_
    change Matched ((replay (restoreWrites 0 _ ++ w.trace)).apply (.passEnd _))
      (delivery (restoreWrites 0 _ ++ w.trace))
    rw [replay_restoreWrites, delivery_restoreWrites]
    exact hm.finished (Tracks.finished hw drained).2.1 (Tracks.top_eq_none hw top)
  | abandon slot top idle =>
    have hlost := of_decide_eq_true (hevents (.passAbandoned
      (w.pendingRequests ++ (w.top.map w.connection.readRequests).toList) w.connection)
      List.mem_cons_self).2
    refine hi.step (.one rfl trivial) ?_
    rw [idle] at hm
    change Matched ((replay w.trace).apply (.passAbandoned _ _)) (delivery w.trace)
    rw [idle]
    exact hm.abandoned (Tracks.forall_payload hw top hlost)

/-- In every run whose events all meet `Event.orderly`, the table of searches holds, between
two steps and whenever a handler is called, the message ids of exactly the searches
that are queued, set aside or in hand, each once. -/
theorem run_searchesMatch (config : LdapConnectionConfig) (path : Option Bytes) (steps : List Step)
    (hpromised : ∀ e ∈ (run config path steps).2.trace, e.promised)
    (horderly : ∀ e ∈ (run config path steps).2.trace, e.orderly) :
    ((run config path steps).1 = .ok () → SearchesMatch (run config path steps).2.connection []) ∧
      ∀ slot request r pending c,
        .dispatch slot request r pending c ∈ (run config path steps).2.trace →
          SearchesMatch c (pending ++ [request]) := by
  have hinit : Tabled (.initial config path) := by
    refine ⟨matched_empty, ?_⟩
    intro slot request r pending c hm
    cases List.mem_singleton.mp hm
  obtain ⟨hsim, htabled⟩ := run_invariant_while
    (C := fun events => ∀ e ∈ events, e.promised ∧ e.orderly)
    (fun _ _ h e he => h e (List.mem_append_right _ he)) hinit
    (fun _ _ hs hst hevents hi => (hst.effect hs).tabled hs hevents hi) steps
    (fun e he => ⟨hpromised e he, horderly e he⟩)
  refine ⟨fun hok => ?_, htabled.dispatches⟩
  have hframe : (run config path steps).2.frame = none :=
    (follows_performSteps steps (.initial config path) rfl).2 () hok
  have htop := top_eq_none_of_frame hframe
  have hmatch := (htabled.matched.idle (Tracks.top_eq_none hsim htop)).searchesMatch hsim (by simp)
  rw [World.pendingRequests, hframe, htop] at hmatch
  exact hmatch

section Runs

-- Only the kernel is to evaluate the runs.
attribute [local irreducible] run

def answeredOutOfOrder : List Step :=
  [.submit ⟨.search ⟨[], 0, [], [], false⟩ (some (.application 1)) (.application 10), ⟨ldapSuccess, 1⟩⟩,
    .submit ⟨.whoami, ⟨ldapSuccess, 2⟩⟩,
    .submit ⟨.search ⟨[], 0, [], [], false⟩ (some (.application 2)) (.application 20), ⟨ldapSuccess, 3⟩⟩,
    .read [{ rc := ldapResUnsolicited }, { rc := ldapResExtended, msgid := 2 },
      { rc := ldapResSearchResult, msgid := 3 }]]

theorem run_searchesMatch_answeredOutOfOrder :
    (run ⟨false, .simple⟩ none answeredOutOfOrder).2.connection.nSearchRequests = 1 ∧
      ((run ⟨false, .simple⟩ none answeredOutOfOrder).1 = .ok () →
        SearchesMatch (run ⟨false, .simple⟩ none answeredOutOfOrder).2.connection []) ∧
      ∀ slot request r pending c,
        .dispatch slot request r pending c ∈ (run ⟨false, .simple⟩ none answeredOutOfOrder).2.trace →
          SearchesMatch c (pending ++ [request]) :=
  ⟨by decide +kernel, run_searchesMatch ⟨false, .simple⟩ none answeredOutOfOrder
    (List.all_eq_true.mp (by decide +kernel)) (List.all_eq_true.mp (by decide +kernel))⟩

/-- A search answered by a continuation reference. -/
def answeredByReference : List Step :=
  [.submit ⟨.search ⟨[], 0, [], [], false⟩ (some (.application 1)) (.application 10), ⟨ldapSuccess, 1⟩⟩,
    .read [{ rc := ldapResSearchReference, msgid := 1 }]]

/-- The entry of the search stays behind in the table. -/
theorem answeredByReference_not_searchesMatch :
    (run ⟨false, .simple⟩ none answeredByReference).1 = .ok () ∧
      ¬SearchesMatch (run ⟨false, .simple⟩ none answeredByReference).2.connection [] := by
  constructor <;> decide +kernel

end Runs

end Libdomain.Connection
