import Libdomain.Connection.Machine

/-! # Who receives the result of a search

A message id names one search of a connection. Whatever has become of the table
of searches, an entry with a callback belongs to the search that was issued
under its message id and whose callback has not been called yet, with the
exception of the entry being answered.
-/
namespace Libdomain.Connection
open Libdomain.Queue Libdomain.Program

def issuedKeys : List Event → List (ℕ × Int)
  | [] => []
  | .searchIssued epoch msgid _ _ :: events => (epoch, msgid) :: issuedKeys events
  | _ :: events => issuedKeys events

def deliveredKeys : List Event → List (ℕ × Int)
  | [] => []
  | .searchCallback _ epoch msgid _ _ _ _ :: events => (epoch, msgid) :: deliveredKeys events
  | _ :: events => deliveredKeys events

def DistinctSearches (events : List Event) : Prop := (issuedKeys events).Nodup

/-- Each call of a search callback uses the callback and the user data of an earlier
search with its message id, which has not been delivered before. -/
def DeliveredOnce : List Event → Prop
  | [] => True
  | .searchCallback _ epoch msgid callback userData _ _ :: events =>
    (.searchIssued epoch msgid callback userData ∈ events ∧ (epoch, msgid) ∉ deliveredKeys events) ∧
      DeliveredOnce events
  | _ :: events => DeliveredOnce events

def Event.Inert : Event → Prop
  | .searchCallback .. | .searchRegistered _ | .searchRemoved .. | .configured
  | .configureFailed .eventBase | .passBegin _ | .popped _ | .resultError _ | .dispatch .. => False
  | _ => True

variable {w w' : World} {e : Event} {events new : List Event}

theorem mem_issuedKeys {epoch : ℕ} {msgid : Int} {callback : SearchCallback} {userData : UserData}
    (h : .searchIssued epoch msgid callback userData ∈ events) : (epoch, msgid) ∈ issuedKeys events := by
  induction events with
  | nil => cases h
  | cons e events ih =>
    rcases List.mem_cons.mp h with rfl | hm
    · exact List.mem_cons_self
    · cases e with
      | searchIssued => exact List.mem_cons_of_mem _ (ih hm)
      | _ => exact ih hm

theorem mem_deliveredKeys {index epoch : ℕ} {msgid : Int} {callback : SearchCallback} {userData : UserData}
    {entries : List LdEntry} {c : LdapConnectionCtx}
    (h : .searchCallback index epoch msgid callback userData entries c ∈ events) :
    (epoch, msgid) ∈ deliveredKeys events := by
  induction events with
  | nil => cases h
  | cons e events ih =>
    rcases List.mem_cons.mp h with rfl | hm
    · exact List.mem_cons_self
    · cases e with
      | searchCallback => exact List.mem_cons_of_mem _ (ih hm)
      | _ => exact ih hm

theorem DeliveredOnce.issued (h : DeliveredOnce events) {key : ℕ × Int}
    (hk : key ∈ deliveredKeys events) : key ∈ issuedKeys events := by
  induction events with
  | nil => cases hk
  | cons e events ih =>
    cases e with
    | searchCallback index epoch msgid callback userData entries c =>
      rcases List.mem_cons.mp hk with rfl | hk
      · have hissued := mem_issuedKeys h.1.1
        exact hissued
      · exact ih h.2 hk
    | searchIssued => exact List.mem_cons_of_mem _ (ih h hk)
    | _ => exact ih h hk

theorem DeliveredOnce.nodup (h : DeliveredOnce events) : (deliveredKeys events).Nodup := by
  induction events with
  | nil => exact List.nodup_nil
  | cons e events ih =>
    cases e with
    | searchCallback => exact List.nodup_cons.mpr ⟨h.1.2, ih h.2⟩
    | _ => exact ih h

theorem DistinctSearches.of_cons (h : DistinctSearches (e :: events)) : DistinctSearches events := by
  cases e with
  | searchIssued => exact (List.nodup_cons.mp h).2
  | _ => exact h

theorem DistinctSearches.of_append (h : DistinctSearches (new ++ events)) : DistinctSearches events := by
  induction new with
  | nil => exact h
  | cons e new ih => exact ih h.of_cons

/-- Where the entry at an index of the table was before a removal. -/
def originIndex (used index i : ℕ) : ℕ :=
  if index + 1 = used then i else if i < index then i else i + 1

theorem originIndex_injective {used index i j : ℕ}
    (h : originIndex used index i = originIndex used index j) : i = j := by
  unfold originIndex at h
  split_ifs at h <;> omega

/-- Removal keeps an entry that still has a callback, except for the one removed. -/
theorem getElem?_removeEntry {used index i : ℕ} {table : List LdapSearchRequest}
    {r : LdapSearchRequest} (h : (removeEntry used index table)[i]? = some r)
    (hr : r.onSearchOperation ≠ none) :
    table[originIndex used index i]? = some r ∧ originIndex used index i ≠ index := by
  unfold removeEntry at h
  unfold originIndex
  by_cases hlast : index + 1 = used
  · rw [if_pos hlast] at h ⊢
    rw [List.getElem?_dropLast] at h
    split_ifs at h with hi
    rw [List.getElem?_set] at h
    split_ifs at h with he
    · cases h
      exact absurd rfl hr
    · exact ⟨h, Ne.symm he⟩
  · rw [if_neg hlast] at h ⊢
    rw [List.getElem?_eraseIdx] at h
    split_ifs at h ⊢ with hi
    · exact ⟨h, ne_of_lt hi⟩
    · exact ⟨h, by omega⟩

/-- The table and the deliveries fit together. -/
structure Sound (w : World) : Prop where
  delivered : DeliveredOnce w.trace
  genuine : ∀ (i : ℕ) (r : LdapSearchRequest) (callback : SearchCallback),
    (replay w.trace).table[i]? = some r → r.onSearchOperation = some callback →
      .searchIssued w.epoch r.msgid callback r.userData ∈ w.trace
  distinct : ∀ (i j : ℕ) (r r' : LdapSearchRequest),
    (replay w.trace).table[i]? = some r → (replay w.trace).table[j]? = some r' →
      r.onSearchOperation ≠ none → r'.onSearchOperation ≠ none → r.msgid = r'.msgid → i = j
  undelivered : ∀ (i : ℕ) (r : LdapSearchRequest),
    (replay w.trace).table[i]? = some r → r.onSearchOperation ≠ none →
      (w.epoch, r.msgid) ∉ deliveredKeys w.trace ∨ delivery w.trace = .answering i
  rest : w.frame = none → (delivery w.trace).Settled

theorem Event.Inert.table (h : e.Inert) (events : List Event) :
    (replay (e :: events)).table = (replay events).table := by
  cases e with
  | searchRegistered => exact h.elim
  | searchRemoved => exact h.elim
  | configured => exact h.elim
  | configureFailed failure => cases failure <;> first | rfl | exact h.elim
  | _ => rfl

theorem Event.Inert.deliveredKeys (h : e.Inert) (events : List Event) :
    Connection.deliveredKeys (e :: events) = Connection.deliveredKeys events := by
  cases e with
  | searchCallback => exact h.elim
  | _ => rfl

theorem Event.Inert.deliveredOnce (h : e.Inert) (events : List Event) :
    DeliveredOnce (e :: events) ↔ DeliveredOnce events := by
  cases e with
  | searchCallback => exact h.elim
  | _ => exact Iff.rfl

theorem Event.Inert.delivery (h : e.Inert) (events : List Event) :
    Connection.delivery (e :: events) = Connection.delivery events := by
  cases e with
  | passBegin => exact h.elim
  | popped => exact h.elim
  | resultError => exact h.elim
  | dispatch => exact h.elim
  | searchCallback => exact h.elim
  | searchRemoved => exact h.elim
  | _ => rfl

theorem Sound.inert (h : Sound w) (epoch : w'.epoch = w.epoch) (grows : w.Grows w' Event.Inert)
    (rest : w'.frame = none → (delivery w.trace).Settled) : Sound w' := by
  obtain ⟨new, ht, hnew⟩ := grows
  have hsame : (replay w'.trace).table = (replay w.trace).table ∧
      deliveredKeys w'.trace = deliveredKeys w.trace ∧ delivery w'.trace = delivery w.trace ∧
      (DeliveredOnce w'.trace ↔ DeliveredOnce w.trace) := by
    rw [ht]
    clear ht
    induction new with
    | nil => exact ⟨rfl, rfl, rfl, Iff.rfl⟩
    | cons e new ih =>
      have he := hnew e List.mem_cons_self
      obtain ⟨htable, hkeys, hdelivery, honce⟩ := ih fun e he => hnew e (List.mem_cons_of_mem _ he)
      rw [List.cons_append, he.table, he.deliveredKeys, he.delivery, he.deliveredOnce]
      exact ⟨htable, hkeys, hdelivery, honce⟩
  obtain ⟨htable, hkeys, hdelivery, honce⟩ := hsame
  refine ⟨honce.mpr h.delivered, ?_, ?_, ?_, ?_⟩
  · rw [htable, epoch, ht]
    intro i r callback hi hr
    exact List.mem_append_right _ (h.genuine i r callback hi hr)
  · rw [htable]
    exact h.distinct
  · rw [htable, hkeys, hdelivery, epoch]
    exact h.undelivered
  · rw [hdelivery]
    exact rest

theorem Sound.notMem (h : Sound w) (hd : ∀ i, delivery w.trace ≠ .answering i) {i : ℕ}
    {r : LdapSearchRequest} (hi : (replay w.trace).table[i]? = some r) (hr : r.onSearchOperation ≠ none) :
    (w.epoch, r.msgid) ∉ deliveredKeys w.trace :=
  (h.undelivered i r hi hr).resolve_right (hd i)

theorem Delivery.Settled.ne_answering {d : Delivery} (h : d.Settled) (i : ℕ) : d ≠ .answering i := by
  rintro rfl
  exact h.elim (by rintro ⟨⟩) id

theorem Sound.next (h : Sound w) (epoch : w'.epoch = w.epoch) (trace : w'.trace = e :: w.trace)
    (settled : (delivery w.trace).Settled) (table : (replay (e :: w.trace)).table = (replay w.trace).table)
    (keys : deliveredKeys (e :: w.trace) = deliveredKeys w.trace)
    (once : DeliveredOnce (e :: w.trace) ↔ DeliveredOnce w.trace)
    (rest : w'.frame = none → (delivery w'.trace).Settled) : Sound w' := by
  refine ⟨?_, ?_, ?_, ?_, rest⟩
  · rw [trace]
    exact once.mpr h.delivered
  · rw [trace, table, epoch]
    intro i r callback hi hr
    exact List.mem_cons_of_mem _ (h.genuine i r callback hi hr)
  · rw [trace, table]
    exact h.distinct
  · rw [trace, table, keys, epoch]
    intro i r hi hr
    exact .inl (h.notMem settled.ne_answering hi hr)

theorem Sound.registered (h : Sound w) {callback : SearchCallback} {userData : UserData} {msgid : Int}
    (hissued : .searchIssued w.epoch msgid callback userData ∈ w.trace)
    (hfresh : ∀ (i : ℕ) (r : LdapSearchRequest), (replay w.trace).table[i]? = some r →
      r.onSearchOperation ≠ none → r.msgid ≠ msgid)
    (hkey : (w.epoch, msgid) ∉ deliveredKeys w.trace) :
    Sound (w.registered ⟨msgid, some callback, userData⟩) := by
  have hcases : ∀ (i : ℕ) (r : LdapSearchRequest),
      ((replay w.trace).table ++ [⟨msgid, some callback, userData⟩])[i]? = some r →
      (replay w.trace).table[i]? = some r ∨
        i = (replay w.trace).table.length ∧ r = ⟨msgid, some callback, userData⟩ := by
    intro i r hi
    rw [List.getElem?_append] at hi
    split_ifs at hi with hlt
    · exact .inl hi
    · obtain ⟨hlt', he⟩ := List.getElem?_eq_some_iff.mp hi
      rw [List.length_singleton] at hlt'
      simp only [List.getElem_singleton] at he
      exact .inr ⟨by omega, he.symm⟩
  refine ⟨h.delivered, ?_, ?_, ?_, h.rest⟩
  · intro i r callback' hi hr
    refine List.mem_cons_of_mem _ (List.mem_cons_of_mem _ ?_)
    rcases hcases i r hi with hi | ⟨-, rfl⟩
    · exact h.genuine i r callback' hi hr
    · cases hr
      exact hissued
  · intro i j r r' hi hj hr hr' he
    rcases hcases i r hi with hi | ⟨rfl, rfl⟩
    · rcases hcases j r' hj with hj | ⟨rfl, rfl⟩
      · exact h.distinct i j r r' hi hj hr hr' he
      · exact absurd he (hfresh i r hi hr)
    · rcases hcases j r' hj with hj | ⟨rfl, rfl⟩
      · exact absurd he.symm (hfresh j r' hj hr')
      · rfl
  · intro i r hi hr
    rcases hcases i r hi with hi | ⟨-, rfl⟩
    · exact h.undelivered i r hi hr
    · exact .inl hkey

theorem Sound.removed (h : Sound w) {index : ℕ} (answering : delivery w.trace = .answering index) :
    Sound (w.removed index) := by
  refine ⟨h.delivered, ?_, ?_, ?_, fun _ => .inr trivial⟩
  · intro i r callback hi hr
    obtain ⟨hi, -⟩ := getElem?_removeEntry hi (by rw [hr]; simp)
    exact List.mem_cons_of_mem _ (h.genuine _ r callback hi hr)
  · intro i j r r' hi hj hr hr' he
    obtain ⟨hi, -⟩ := getElem?_removeEntry hi hr
    obtain ⟨hj, -⟩ := getElem?_removeEntry hj hr'
    exact originIndex_injective (h.distinct _ _ r r' hi hj hr hr' he)
  · intro i r hi hr
    obtain ⟨hi, hne⟩ := getElem?_removeEntry hi hr
    refine .inl ((h.undelivered _ r hi hr).resolve_right ?_)
    rw [answering]
    intro he
    exact hne (Delivery.answering.inj he).symm

theorem Sound.callback (h : Sound w) (hw : Simulated w) {index : ℕ} {callback : SearchCallback}
    {request : LdapRequest} {r : Response} {entries : List LdEntry}
    (dispatched : delivery w.trace = .dispatched request r w.connection)
    (handler : request.onReadOperation = some .searchOnRead)
    (found : w.connection.findSearchRequest r.msgid = some index)
    (registered : (w.connection.searchRequests index).onSearchOperation = some callback)
    (answerable : Answerable w.connection r) :
    Sound (w.record (.searchCallback index w.epoch r.msgid callback
      (w.connection.searchRequests index).userData entries w.connection)) := by
  obtain ⟨hlt, hmsgid⟩ := findSearchRequest_eq_some found
  have hentry : (replay w.trace).table[index]? = some (w.connection.searchRequests index) := by
    rw [Tracks.table_eq hw, List.getElem?_eq_getElem hlt, getElem_table]
  rw [getElem_table] at hmsgid
  have hsome : (w.connection.searchRequests index).onSearchOperation ≠ none := by
    rw [registered]
    simp
  have hidle : ∀ i, delivery w.trace ≠ .answering i := by
    rw [dispatched]
    rintro i ⟨⟩
  have hfresh := h.notMem hidle hentry hsome
  have hissued := h.genuine index _ callback hentry registered
  rw [hmsgid] at hfresh hissued
  refine ⟨⟨⟨hissued, hfresh⟩, h.delivered⟩, ?_, h.distinct, ?_, ?_⟩
  · intro i r' callback' hi hr
    exact List.mem_cons_of_mem _ (h.genuine i r' callback' hi hr)
  · intro i r' hi hr
    by_cases he : i = index
    · exact .inr (he ▸ rfl)
    · left
      intro hm
      rcases List.mem_cons.mp hm with heq | hm
      · have hm' : r'.msgid = r.msgid := (Prod.mk.inj heq).2
        exact he (h.distinct i index r' _ hi hentry hr hsome (hm'.trans hmsgid.symm))
      · exact h.notMem hidle hi hr hm
  · intro hf
    have hsettled := h.rest hf
    rw [dispatched] at hsettled
    exact absurd answerable (hsettled.resolve_left (by rintro ⟨⟩) handler)

theorem Event.Quiet.inert (h : e.Quiet w) : e.Inert := by
  cases e with
  | configureFailed failure => cases failure <;> first | exact absurd rfl h | trivial
  | _ => first | exact h.elim | trivial

theorem grows_inert_announced (w : World) (handler : OperationCallback) (msgid : Int) :
    w.Grows (w.announced handler msgid) Event.Inert := .two rfl trivial trivial

theorem grows_inert_tracked (w : World) (handler : OperationCallback) (msgid : Int) :
    w.Grows (w.tracked handler msgid) Event.Inert :=
  (grows_inert_announced w handler msgid).trans (.one rfl trivial)

theorem grows_inert_issued (w : World) (callback : SearchCallback) (userData : UserData) (msgid : Int) :
    w.Grows (w.issued callback userData msgid) Event.Inert := .one rfl trivial

/-- The table after a search has been issued and tracked still fits; its message id is
fresh. -/
theorem Sound.searched (h : Sound w) (callback : SearchCallback) (userData : UserData) (msgid : Int)
    (hdistinct : DistinctSearches (.searchIssued w.epoch msgid callback userData :: w.trace)) :
    Sound (((w.issued callback userData msgid).tracked .searchOnRead msgid).registered
      ⟨msgid, some callback, userData⟩) := by
  have hnew : (w.epoch, msgid) ∉ issuedKeys w.trace := (List.nodup_cons.mp hdistinct).1
  have htracked : Sound ((w.issued callback userData msgid).tracked .searchOnRead msgid) :=
    h.inert rfl ((grows_inert_issued w callback userData msgid).trans (grows_inert_tracked _ _ _)) h.rest
  apply htracked.registered
  · refine List.mem_cons_of_mem _ (List.mem_cons_of_mem _ (List.mem_cons_of_mem _ ?_))
    exact List.mem_cons_self
  · rintro i r hi hr rfl
    obtain ⟨callback', hr⟩ := Option.ne_none_iff_exists'.mp hr
    exact hnew (mem_issuedKeys (h.genuine i r callback' hi hr))
  · exact fun hm => hnew (h.delivered.issued hm)

theorem Sound.emptied (hi : Sound w) {e : Event} (frame : w.frame = none)
    (he : e = .configured ∨ e = .configureFailed .eventBase) (trace : w'.trace = e :: w.trace) : Sound w' := by
  have hnone : ∀ (i : ℕ) (r : LdapSearchRequest), (replay w'.trace).table[i]? ≠ some r := by
    intro i r
    have htable : (replay w'.trace).table = [] := by
      rw [trace]
      rcases he with rfl | rfl <;> rfl
    simp [htable]
  have hdelivery : delivery w'.trace = delivery w.trace := by
    rw [trace]
    rcases he with rfl | rfl <;> rfl
  constructor
  · rw [trace]
    rcases he with rfl | rfl <;> exact hi.delivered
  · exact fun i r _ h => absurd h (hnone i r)
  · exact fun i _ r _ h => absurd h (hnone i r)
  · exact fun i r h => absurd h (hnone i r)
  · rw [hdelivery]
    exact fun _ => hi.rest frame

theorem Effect.sound (h : Effect w w') (hw : Simulated w) (hdistinct : DistinctSearches w'.trace)
    (hi : Sound w) : Sound w' := by
  cases h with
  | quiet same trace => exact hi.inert same.epoch (.none trace) (same.frame ▸ hi.rest)
  | event e quiet same trace =>
    exact hi.inert same.epoch (.one trace quiet.inert) (same.frame ▸ hi.rest)
  | overflow => exact hi.inert rfl (grows_inert_announced _ _ _) hi.rest
  | tracked => exact hi.inert rfl (grows_inert_tracked _ _ _) hi.rest
  | searchOverflow callback userData msgid _ =>
    exact hi.inert rfl ((grows_inert_issued w callback userData msgid).trans
      (grows_inert_announced _ _ _)) hi.rest
  | searchFull callback userData msgid _ _ =>
    exact hi.inert rfl ((grows_inert_issued w callback userData msgid).trans
      (grows_inert_tracked _ _ _)) hi.rest
  | searched callback userData msgid _ _ => exact hi.searched callback userData msgid hdistinct
  | answer step =>
    cases step with
    | callback index callback request r entries dispatched handler found registered answerable =>
      exact hi.callback hw dispatched handler found registered answerable
    | write => exact hi.inert rfl (.one rfl trivial) hi.rest
    | remove index _ answering => exact hi.removed answering
  | configured frame _ _ trace => exact hi.emptied frame (.inl rfl) trace
  | eventBase frame _ _ trace => exact hi.emptied frame (.inr rfl) trace
  | begin frame => exact hi.next rfl rfl (hi.rest frame) rfl rfl Iff.rfl fun _ => .inl rfl
  | pop slot queue frame top settled popped =>
    exact hi.next rfl rfl settled rfl rfl Iff.rfl fun _ => .inl rfl
  | resultError slot top idle =>
    exact hi.next rfl rfl (.inl idle) rfl rfl Iff.rfl fun _ => .inr trivial
  | defer slot top idle => exact hi.inert rfl (.two rfl trivial trivial) fun _ => .inl idle
  | dispatch slot r top idle =>
    refine hi.next rfl rfl (.inl idle) rfl rfl Iff.rfl fun hf => ?_
    have hsome := frame_of_top top
    rw [show w.frame = none from hf] at hsome
    cases hsome
  | release _ completed => exact hi.inert rfl (.one rfl trivial) fun _ => .inr completed
  | finish _ _ settled _ =>
    exact hi.inert rfl (.finished w (fun _ => trivial) fun _ => trivial) fun _ => settled
  | abandon slot top idle => exact hi.inert rfl (.one rfl trivial) fun _ => .inl idle

/-- Whatever has become of the table of searches, each search callback is called with
the callback and the user data of the search that obtained the message id, and no
search is delivered twice. -/
theorem run_deliveredOnce (config : LdapConnectionConfig) (path : Option Bytes) (steps : List Step)
    (hdistinct : DistinctSearches (run config path steps).2.trace) :
    DeliveredOnce (run config path steps).2.trace ∧
      (deliveredKeys (run config path steps).2.trace).Nodup := by
  have hinit : Sound (.initial config path) := by
    refine ⟨trivial, ?_, ?_, ?_, fun _ => .inl rfl⟩
    · rintro i r callback ⟨⟩
    · rintro i j r r' ⟨⟩
    · rintro i r ⟨⟩
  have hinv := (run_invariant_while (C := DistinctSearches) (fun _ _ h => h.of_append) hinit
    (fun _ _ hs hst hd hi => (hst.effect hs).sound hs hd hi) steps hdistinct).2
  exact ⟨hinv.delivered, hinv.delivered.nodup⟩

section Runs

-- Only the kernel is to evaluate the run.
attribute [local irreducible] run

def twoSearches : List Step :=
  [.submit ⟨.search ⟨[], 0, [], [], false⟩ (some (.application 1)) (.application 10), ⟨ldapSuccess, 1⟩⟩,
    .submit ⟨.search ⟨[], 0, [], [], false⟩ (some (.application 2)) (.application 20), ⟨ldapSuccess, 2⟩⟩,
    .read [{ rc := ldapResUnsolicited }, { rc := ldapResSearchResult, msgid := 2 }],
    .read [{ rc := ldapResSearchResult, msgid := 1 }]]

theorem run_deliveredOnce_twoSearches :
    deliveredKeys (run ⟨false, .simple⟩ none twoSearches).2.trace = [(1, 1), (1, 2)] ∧
      DeliveredOnce (run ⟨false, .simple⟩ none twoSearches).2.trace ∧
      (deliveredKeys (run ⟨false, .simple⟩ none twoSearches).2.trace).Nodup :=
  ⟨by decide +kernel, run_deliveredOnce ⟨false, .simple⟩ none twoSearches
    (show (issuedKeys _).Nodup by decide +kernel)⟩

end Runs

end Libdomain.Connection
