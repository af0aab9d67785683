import Libdomain.Connection.SchemaIndexes
import Libdomain.Connection.Strides

/-! # What the handlers uphold

A read handler adds to the queue and to the schema and sets the machine to few states, so
what was queued, looked up or waited for before is there afterwards. The searches for
definitions are told apart by their callbacks, and `S` says which callbacks may be issued.
-/
namespace Libdomain.Connection
open Libdomain.Queue Libdomain.Program Relation

/-- The callback of the search for the definitions of a kind. -/
def DefinitionKind.callback : DefinitionKind → SearchCallback
  | .attributetype => .attributeTypesSearchCallback
  | .objectclass => .objectClassesSearchCallback

def DefinitionKind.append : DefinitionKind → LdapSchema → SchemaDefinition → Bool × LdapSchema
  | .attributetype => ldapSchemaAppendAttributetype
  | .objectclass => ldapSchemaAppendObjectclass

def definitionKinds : List DefinitionKind := [.attributetype, .objectclass]

theorem mem_definitionKinds (kind : DefinitionKind) : kind ∈ definitionKinds := by
  cases kind <;> decide

def Event.search (epoch : ℕ) (kind : DefinitionKind) : Event → Option Int
  | .searchIssued e msgid callback userData =>
    if e = epoch ∧ userData = .schema ∧ callback = kind.callback then some msgid else none
  | _ => none

/-- The searches for the definitions of a kind since the last configuration. -/
def World.searches (w : World) (kind : DefinitionKind) : List Int :=
  w.trace.filterMap (Event.search w.epoch kind)

/-- The request searches for definitions. -/
def World.Seeks (w : World) (payload : Payload) : Prop :=
  payload.2 = some .searchOnRead ∧ ∃ kind ∈ definitionKinds, payload.1 ∈ w.searches kind

instance (w : World) : DecidablePred w.Seeks := fun _ => inferInstanceAs (Decidable (_ ∧ _))

def Event.Issues (epoch : ℕ) (S : SearchCallback → Prop) : Event → Prop
  | .searchIssued e _ callback _ => e = epoch ∧ S callback
  | _ => True

def Submission.Permitted (S : SearchCallback → Prop) (s : Submission) : Prop :=
  match s.operation with
  | .search _ callback _ => S (callback.getD .printSearchCallback)
  | _ => True

def Response.directoryType (r : Response) (c : LdapConnectionCtx) : LdapDirectoryType :=
  let type := directoryOfChain c.directoryType r.chain
  if type = .uninitialized then .unknown else type

/-- The tables have every key of the others. -/
structure DefinitionTables.Within (tables tables' : DefinitionTables) : Prop where
  byOid : ∀ oid ∈ tables.byOid, oid ∈ tables'.byOid
  byName : ∀ name ∈ tables.byName, name ∈ tables'.byName

/-- Requests stay queued, the schema only grows, and the machine is set to no state that waits. -/
structure World.Upholds (S : SearchCallback → Prop) (w w' : World) : Prop where
  queue : ∀ p ∈ (replay w.trace).queue, p ∈ (replay w'.trace).queue
  grows : w.Grows w' (Event.Issues w.epoch S)
  epoch : w'.epoch = w.epoch
  frame : w'.frame = w.frame
  directoryType : w'.connection.directoryType = w.connection.directoryType
  schema : ∀ kind, (w.connection.schema.tables kind).Within (w'.connection.schema.tables kind)
  state : w'.connection.stateMachine = w.connection.stateMachine ∨
    (∃ source, w.connection.stateMachine = .live source) ∧
      ∃ state ∈ [LdapConnectionState.transportReady, .bound, .error], w'.connection.stateMachine = .live state

variable {S : SearchCallback → Prop} {w w' w'' : World} {kind : DefinitionKind}

theorem DefinitionTables.Within.refl (tables : DefinitionTables) : tables.Within tables :=
  ⟨fun _ => id, fun _ => id⟩

theorem DefinitionTables.Within.trans {tables tables' tables'' : DefinitionTables} (h : tables.Within tables')
    (h' : tables'.Within tables'') : tables.Within tables'' :=
  ⟨fun oid hoid => h'.byOid oid (h.byOid oid hoid), fun name hname => h'.byName name (h.byName name hname)⟩

theorem World.Upholds.refl (w : World) : w.Upholds S w :=
  ⟨fun _ h => h, .none rfl, rfl, rfl, rfl, fun _ => .refl _, .inl rfl⟩

theorem World.Upholds.trans (h : w.Upholds S w') (h' : w'.Upholds S w'') : w.Upholds S w'' where
  queue p hp := h'.queue p (h.queue p hp)
  grows := h.grows.trans (h.epoch ▸ h'.grows)
  epoch := h'.epoch.trans h.epoch
  frame := h'.frame.trans h.frame
  directoryType := h'.directoryType.trans h.directoryType
  schema kind := (h.schema kind).trans (h'.schema kind)
  state := by
    rcases h'.state with hs' | ⟨⟨source, hsource⟩, hstate⟩
    · rw [hs']
      exact h.state
    · rcases h.state with hs | ⟨hlive, -⟩
      · exact .inr ⟨⟨source, hs.symm.trans hsource⟩, hstate⟩
      · exact .inr ⟨hlive, hstate⟩

theorem World.Upholds.of_path (h : ReflTransGen (World.Upholds S) w w') : w.Upholds S w' := by
  induction h with
  | refl => exact .refl w
  | tail _ hst ih => exact ih.trans hst

theorem World.Upholds.live (h : w.Upholds S w') {state : LdapConnectionState}
    (hstate : state ∉ [LdapConnectionState.transportReady, .bound, .error])
    (hs : w'.connection.stateMachine = .live state) : w.connection.stateMachine = .live state := by
  rcases h.state with he | ⟨-, target, htarget, he⟩
  · rw [← he]
    exact hs
  · cases he.symm.trans hs
    exact absurd htarget hstate

theorem upholds_along {α : Type} {p : Action α} (h : Along (World.Upholds S) p) (w : World) :
    w.Upholds S (exec p w).2 := .of_path (h w)

theorem World.Grows.searches {p : Event → Prop} (h : w.Grows w' p) (hepoch : w'.epoch = w.epoch) {msgid : Int}
    (hm : msgid ∈ w.searches kind) : msgid ∈ w'.searches kind := by
  obtain ⟨e, he, hsearch⟩ := List.mem_filterMap.mp hm
  exact List.mem_filterMap.mpr ⟨e, h.mem he, hepoch ▸ hsearch⟩

theorem World.Grows.searches_eq (h : w.Grows w' (Event.Issues w.epoch S)) (hepoch : w'.epoch = w.epoch)
    (hS : ¬S kind.callback) : w'.searches kind = w.searches kind := by
  obtain ⟨new, ht, hnew⟩ := h
  have hnone : new.filterMap (Event.search w.epoch kind) = [] := by
    rw [List.filterMap_eq_nil_iff]
    intro e he
    cases e with
    | searchIssued e msgid callback userData =>
      have hissues : e = w.epoch ∧ S callback := hnew _ he
      refine if_neg ?_
      rintro ⟨-, -, rfl⟩
      exact hS hissues.2
    | _ => rfl
  rw [World.searches, hepoch, ht, List.filterMap_append, hnone, List.nil_append, World.searches]

theorem World.Upholds.seeks (h : w.Upholds S w') {payload : Payload} (hs : w.Seeks payload) : w'.Seeks payload :=
  ⟨hs.1, hs.2.imp fun _ hk => ⟨hk.1, h.grows.searches h.epoch hk.2⟩⟩

theorem upholds_of_agrees (hqueue : ∀ p ∈ (replay w.trace).queue, p ∈ (replay w'.trace).queue)
    (hgrows : w.Grows w' (Event.Issues w.epoch S)) (hagrees : w.Agrees w')
    (hschema : w'.connection.schema = w.connection.schema) : w.Upholds S w' where
  queue := hqueue
  grows := hgrows
  epoch := hagrees.epoch
  frame := hagrees.frame
  directoryType := hagrees.directoryType
  schema kind := by
    rw [hschema]
    exact .refl _
  state := .inl hagrees.stateMachine

theorem upholds_running (w : World) :
    w.Upholds S { w with connection := { w.connection with nReconnectAttempts := 0 } } :=
  ⟨fun _ hp => hp, .none rfl, rfl, rfl, rfl, fun _ => .refl _, .inl rfl⟩

theorem upholds_installErrorHandler (w : World) :
    w.Upholds S { w with connection := { w.connection with onErrorOperation := true } } :=
  ⟨fun _ hp => hp, .none rfl, rfl, rfl, rfl, fun _ => .refl _, .inl rfl⟩

theorem upholds_record {e : Event} (hqueue : ∀ l : Ledger, (l.apply e).queue = l.queue) (w : World)
    (he : e.Issues w.epoch S) : w.Upholds S (w.record e) := by
  refine upholds_of_agrees (fun p hp => ?_) (.one rfl he) (by constructor <;> rfl) rfl
  change p ∈ ((replay w.trace).apply e).queue
  rw [hqueue]
  exact hp

theorem upholds_emit {e : Event} (hqueue : ∀ l : Ledger, (l.apply e).queue = l.queue)
    (he : ∀ epoch, e.Issues epoch S) : Along (World.Upholds S) (emit e) :=
  Along.step fun w => upholds_record hqueue w (he w.epoch)

theorem upholds_announced (w : World) (handler : OperationCallback) (msgid : Int) :
    w.Upholds S (w.announced handler msgid) :=
  upholds_of_agrees (fun _ hp => hp) (.two rfl trivial trivial) (by constructor <;> rfl) rfl

theorem upholds_tracked (w : World) (handler : OperationCallback) (msgid : Int) :
    w.Upholds S (w.tracked handler msgid) := by
  refine (upholds_announced w handler msgid).trans (upholds_of_agrees ?_ (.one rfl trivial) ?_ rfl)
  · exact fun p hp => List.mem_append_left _ hp
  · constructor <;> rfl

theorem upholds_track (handler : OperationCallback) (msgid : Int) :
    Along (World.Upholds S) (track handler msgid) := by
  refine Along.step fun w => ?_
  rw [exec_track]
  split_ifs
  · exact upholds_tracked w handler msgid
  · exact upholds_announced w handler msgid

theorem upholds_trackSearch {callback : SearchCallback} (h : S callback) (userData : UserData) (msgid : Int) :
    Along (World.Upholds S) (trackSearch callback userData msgid) := by
  refine Along.step fun w => ?_
  have hissued : w.Upholds S (w.issued callback userData msgid) := upholds_record (fun _ => rfl) w ⟨rfl, h⟩
  have hregistered : ∀ t request, World.Upholds S t (t.registered request) := fun t request =>
    upholds_of_agrees (fun _ hp => hp) (.two rfl trivial trivial) (by constructor <;> rfl) rfl
  rw [exec_trackSearch]
  dsimp only
  split_ifs
  · exact (hissued.trans (upholds_tracked _ _ _)).trans (hregistered _ _)
  · exact hissued.trans (upholds_tracked _ _ _)
  · exact hissued.trans (upholds_announced _ _ _)

theorem upholds_call (c : LdapCall) : Along (World.Upholds S) (call c) :=
  Along.step fun w => upholds_record (fun _ => rfl) w trivial

theorem upholds_submit (request : LdapCall) (handler : OperationCallback) (sent : Sent) :
    Along (World.Upholds S) (submit request handler sent) := by
  unfold submit
  apply Along.bind (upholds_call request)
  intro _
  exact Along.ite Along.pure (Along.bind (upholds_track handler sent.msgid) fun _ => Along.pure)

theorem upholds_search (arguments : SearchArguments) {callback : Option SearchCallback}
    (h : S (callback.getD .printSearchCallback)) (userData : UserData) (sent : Sent) :
    Along (World.Upholds S) (search arguments callback userData sent) := by
  unfold search
  apply Along.bind (upholds_call _)
  intro _
  exact Along.ite Along.pure (upholds_trackSearch h userData sent.msgid)

theorem upholds_perform {s : Submission} (h : s.Permitted S) : Along (World.Upholds S) (perform s) := by
  unfold perform
  rw [Submission.Permitted] at h
  cases ho : s.operation with
  | search arguments callback userData =>
    rw [ho] at h
    exact upholds_search arguments h userData s.sent
  | _ => exact upholds_submit _ _ _

theorem upholds_performAll {submissions : List Submission} (h : ∀ s ∈ submissions, s.Permitted S) :
    Along (World.Upholds S) (performAll submissions) := by
  refine (Follows.forM (P := fun _ => True) fun s hs => ?_).along
  exact (Along.bind (upholds_perform (h s hs)) fun _ => Along.pure).follows

theorem permitted_true (s : Submission) : s.Permitted fun _ => True := by
  unfold Submission.Permitted
  cases s.operation <;> trivial

theorem Issue.upholds (h : Issue w w') : w.Upholds (fun _ => True) w' := by
  cases h with
  | event e routine =>
    refine upholds_record (fun l => ?_) w (by cases e <;> trivial)
    cases e <;> first | rfl | exact routine.elim
  | «local» => exact upholds_of_agrees (fun _ hp => hp) (.none rfl) (by constructor <;> rfl) rfl
  | bindInvoked => exact upholds_record (fun _ => rfl) w trivial
  | errorCallback => exact upholds_record (fun _ => rfl) w trivial
  | track handler msgid _ => exact upholds_along (upholds_track handler msgid) w
  | search callback userData msgid => exact upholds_along (upholds_trackSearch trivial userData msgid) w

/-- The index by OID, whose size the code looks at, is not empty. -/
def DefinitionTables.Filled (tables : DefinitionTables) : Prop := 0 < tables.byOid.entries.length

def SchemaDefinition.Complete (d : SchemaDefinition) : Prop := d.oid.isSome ∧ d.names.isSome

def DefinitionTables.Knows (tables : DefinitionTables) (d : SchemaDefinition) : Prop :=
  (∃ oid ∈ d.oid, oid ∈ tables.byOid) ∧ ∃ names ∈ d.names, ∀ name ∈ names, name ∈ tables.byName

/-- The values a search callback works through, in order. -/
def schemaValues (entries : List LdEntry) : List Bytes :=
  entries.flatMap fun entry => (ldEntryGetAttributes entry).flatMap fun a => a.values.getD []

theorem filled_iff (tables : DefinitionTables) : tables.Filled ↔ ∃ oid, oid ∈ tables.byOid := by
  rw [DefinitionTables.Filled, List.length_pos_iff_exists_mem]
  constructor
  · rintro ⟨entry, he⟩
    exact ⟨entry.1, List.mem_map_of_mem he⟩
  · rintro ⟨oid, hoid⟩
    obtain ⟨entry, he, -⟩ := List.mem_map.mp hoid
    exact ⟨entry, he⟩

theorem DefinitionTables.Within.filled {tables tables' : DefinitionTables} (h : tables.Within tables')
    (hf : tables.Filled) : tables'.Filled := by
  obtain ⟨oid, hoid⟩ := (filled_iff tables).mp hf
  exact (filled_iff tables').mpr ⟨oid, h.byOid oid hoid⟩

theorem DefinitionTables.Within.knows {tables tables' : DefinitionTables} (h : tables.Within tables')
    {d : SchemaDefinition} (hd : tables.Knows d) : tables'.Knows d := by
  obtain ⟨⟨oid, hoid, hindexed⟩, names, hnames, hlisted⟩ := hd
  exact ⟨⟨oid, hoid, h.byOid oid hindexed⟩, names, hnames, fun name hn => h.byName name (hlisted name hn)⟩

theorem DefinitionTables.Knows.filled {tables : DefinitionTables} {d : SchemaDefinition} (h : tables.Knows d) :
    tables.Filled := by
  obtain ⟨⟨oid, -, hindexed⟩, -⟩ := h
  exact (filled_iff tables).mpr ⟨oid, hindexed⟩

theorem mem_foldl_insert (d : SchemaDefinition) (names : List Bytes) (byName : AList fun _ : Bytes => SchemaDefinition)
    (name : Bytes) :
    name ∈ names.foldl (fun table n => table.insert n d) byName ↔ name ∈ names ∨ name ∈ byName := by
  rw [← AList.lookup_isSome, lookup_foldl_insert, ← AList.lookup_isSome]
  by_cases h : name ∈ names
  · simp [h]
  · simp [h]

theorem within_appendDefinition (tables : DefinitionTables) (d : SchemaDefinition) :
    tables.Within (appendDefinition tables d).2 := by
  by_cases hd : d.oid = none ∨ d.names = none
  · rw [appendDefinition_incomplete tables hd]
    exact .refl tables
  · push Not at hd
    obtain ⟨oid, hoid⟩ := Option.ne_none_iff_exists'.mp hd.1
    obtain ⟨names, hnames⟩ := Option.ne_none_iff_exists'.mp hd.2
    rw [appendDefinition_complete tables hoid hnames]
    refine ⟨fun o ho => ?_, fun name hname => ?_⟩
    · exact AList.mem_insert _ |>.mpr (.inr ho)
    · exact (mem_foldl_insert d names tables.byName name).mpr (.inr hname)

theorem knows_appendDefinition (tables : DefinitionTables) {d : SchemaDefinition} (h : d.Complete) :
    (appendDefinition tables d).2.Knows d := by
  obtain ⟨oid, hoid⟩ := Option.isSome_iff_exists.mp h.1
  obtain ⟨names, hnames⟩ := Option.isSome_iff_exists.mp h.2
  rw [appendDefinition_complete tables hoid hnames]
  refine ⟨⟨oid, hoid, AList.mem_insert _ |>.mpr (.inl rfl)⟩, names, hnames, fun name hname => ?_⟩
  exact (mem_foldl_insert d names tables.byName name).mpr (.inl hname)

theorem append_eq_apply (kind : DefinitionKind) (schema : LdapSchema) (d : SchemaDefinition) :
    (kind.append schema d).2 = SchemaAppend.apply schema ⟨kind, d⟩ := by
  cases kind <;> rfl

theorem within_append (kind other : DefinitionKind) (schema : LdapSchema) (d : SchemaDefinition) :
    (schema.tables other).Within ((kind.append schema d).2.tables other) := by
  rw [append_eq_apply, tables_apply]
  split_ifs
  · exact within_appendDefinition _ d
  · exact .refl _

theorem knows_append (schema : LdapSchema) {d : SchemaDefinition} (h : d.Complete) :
    ((kind.append schema d).2.tables kind).Knows d := by
  rw [append_eq_apply, tables_apply, if_pos rfl]
  exact knows_appendDefinition _ h

theorem upholds_schema {schema : LdapSchema} (w : World)
    (h : ∀ kind, (w.connection.schema.tables kind).Within (schema.tables kind)) :
    w.Upholds S { w with connection := { w.connection with schema := schema } } :=
  ⟨fun _ hp => hp, .none rfl, rfl, rfl, rfl, h, .inl rfl⟩

theorem exec_appendValueCallback {parse : Bytes → Option SchemaDefinition} {value : Bytes} {d : SchemaDefinition}
    (h : parse value = some d) (w : World) :
    exec (appendValueCallback kind.append parse value) w =
      (.ok (if (kind.append w.connection.schema d).1 then .success else .failure), { w with
        connection := { w.connection with schema := (kind.append w.connection.schema d).2 } }) := by
  rw [appendValueCallback, h, exec_bind_ok (exec_get w), exec_bind_ok (exec_modifyConnection _ w), exec_pure]

theorem upholds_appendValueCallback (kind : DefinitionKind) (parse : Bytes → Option SchemaDefinition)
    (value : Bytes) : Along (World.Upholds S) (appendValueCallback kind.append parse value) := by
  cases h : parse value with
  | none =>
    unfold appendValueCallback
    rw [h]
    exact Along.pure
  | some d =>
    refine Along.step fun w => ?_
    rw [exec_appendValueCallback h]
    exact upholds_schema w fun other => within_append kind other _ d

theorem exec_untilFailure_append {α : Type} {f : α → Action OperationReturnCode} {xs : List α}
    {code : OperationReturnCode} (h : exec (untilFailure f xs) w = (.ok code, w')) (ys : List α) :
    exec (untilFailure f (xs ++ ys)) w =
      if code = .failure then (.ok .failure, w') else exec (untilFailure f ys) w' := by
  induction xs generalizing w with
  | nil =>
    cases h
    rfl
  | cons x xs ih =>
    rw [untilFailure] at h
    obtain ⟨head, t, hx, hrest⟩ := exec_bind_eq_ok h
    rw [List.cons_append, untilFailure, exec_bind_ok hx]
    by_cases hhead : head = .failure
    · rw [if_pos hhead] at hrest ⊢
      cases hrest
      rfl
    · rw [if_neg hhead] at hrest ⊢
      exact ih hrest

theorem exec_untilFailure_flatMap {α β : Type} {f : α → Action OperationReturnCode}
    {callback : β → Action OperationReturnCode} {g : α → List β}
    (hf : ∀ x w w' code, exec (f x) w = (.ok code, w') → exec (untilFailure callback (g x)) w = (.ok code, w'))
    {xs : List α} {code : OperationReturnCode} (h : exec (untilFailure f xs) w = (.ok code, w')) :
    exec (untilFailure callback (xs.flatMap g)) w = (.ok code, w') := by
  induction xs generalizing w with
  | nil => exact h
  | cons x xs ih =>
    rw [untilFailure] at h
    obtain ⟨head, t, hx, hrest⟩ := exec_bind_eq_ok h
    rw [List.flatMap_cons, exec_untilFailure_append (hf x w t head hx)]
    by_cases hhead : head = .failure
    · rw [if_pos hhead] at hrest ⊢
      exact hrest
    · rw [if_neg hhead] at hrest ⊢
      exact ih hrest

theorem exec_ldapSchemaCallbackCommon {callback : Bytes → Action OperationReturnCode} {entries : List LdEntry}
    {code : OperationReturnCode} (h : exec (ldapSchemaCallbackCommon callback entries) w = (.ok code, w')) :
    exec (untilFailure callback (schemaValues entries)) w = (.ok code, w') := by
  refine exec_untilFailure_flatMap (fun entry s t c hentry => ?_) h
  refine exec_untilFailure_flatMap (fun a s t c ha => ?_) hentry
  cases hvalues : a.values with
  | none =>
    rw [hvalues] at ha
    cases ha
  | some values =>
    rw [hvalues] at ha
    exact ha

theorem upholds_callSearchCallback (callback : SearchCallback) (entries : List LdEntry) {r : Response}
    (hs : ∀ s ∈ r.submissions, s.Permitted S) : Along (World.Upholds S) (callSearchCallback callback entries r) := by
  cases callback with
  | printSearchCallback => exact Along.pure
  | attributeTypesSearchCallback =>
    exact along_ldapSchemaCallbackCommon (upholds_appendValueCallback .attributetype r.parse) entries
  | objectClassesSearchCallback =>
    exact along_ldapSchemaCallbackCommon (upholds_appendValueCallback .objectclass r.parse) entries
  | subschemaSubentrySearchCallback =>
    apply along_ldapSchemaCallbackCommon
    intro value
    unfold subschemaSubentryCallback
    refine Along.bind (Along.step fun w => ?_) fun _ => Along.pure
    exact ⟨fun _ hp => hp, .none rfl, rfl, rfl, rfl, fun _ => .refl _, .inl rfl⟩
  | application _ => exact Along.bind (upholds_performAll hs) fun _ => Along.pure

theorem upholds_removed (w : World) (index : ℕ) : w.Upholds S (w.removed index) := by
  obtain ⟨searchRequests, he⟩ := w.connection.removeSearchRequest_eq index
  rw [World.removed, he]
  exact upholds_of_agrees (fun _ hp => hp) (.one rfl trivial) (by constructor <;> rfl) rfl

theorem upholds_connectionRemoveSearchRequest (index : ℕ) :
    Along (World.Upholds S) (connectionRemoveSearchRequest index) := by
  have hselect : ∀ i, Along (World.Upholds S) (selectIndex .searchRequests i) := by
    intro i
    unfold selectIndex
    apply Along.bind
    · exact upholds_emit (fun _ => rfl) fun _ => trivial
    · exact fun _ => Along.ite Along.pure Along.throw
  unfold connectionRemoveSearchRequest
  apply Along.get
  intro w
  apply Along.bind (Along.forM hselect)
  exact fun _ => Along.step fun w => upholds_removed w index

theorem upholds_onErrorOperation {r : Response} (hs : ∀ s ∈ r.submissions, s.Permitted S) :
    Along (World.Upholds S) (onErrorOperation r) := by
  unfold onErrorOperation
  apply Along.get
  intro w
  refine Along.ite ?_ Along.pure
  apply Along.bind
  · exact upholds_emit (fun _ => rfl) fun _ => trivial
  · exact fun _ => upholds_performAll hs

theorem upholds_failure {r : Response} (hs : ∀ s ∈ r.submissions, s.Permitted S) :
    Along (World.Upholds S) (do onErrorOperation r; return OperationReturnCode.failure) :=
  Along.bind (upholds_onErrorOperation hs) fun _ => Along.pure

theorem upholds_resultOnRead (type : Int) (accepted : List Int) {r : Response}
    (hs : ∀ s ∈ r.submissions, s.Permitted S) : Along (World.Upholds S) (resultOnRead type accepted r) := by
  unfold resultOnRead
  exact Along.ite Along.pure (upholds_failure hs)

theorem upholds_searchOnRead {r : Response} (hs : ∀ s ∈ r.submissions, s.Permitted S) :
    Along (World.Upholds S) (searchOnRead r) := by
  unfold searchOnRead
  apply Along.ite
  · apply Along.get
    intro w
    cases w.connection.findSearchRequest r.msgid with
    | none => exact upholds_failure hs
    | some index =>
      unfold answerSearch
      apply Along.get
      intro t
      dsimp only
      cases (t.connection.searchRequests index).onSearchOperation with
      | none => exact Along.pure
      | some callback =>
        cases readEntries r with
        | none => exact Along.pure
        | some entries =>
          apply Along.bind
          · exact upholds_emit (fun _ => rfl) fun _ => trivial
          intro _
          apply Along.bind (upholds_callSearchCallback callback entries hs)
          intro code
          exact Along.bind (upholds_connectionRemoveSearchRequest index) fun _ => Along.pure
  · exact Along.ite Along.pure (upholds_failure hs)

theorem upholds_csmSetState {state : LdapConnectionState}
    (h : state ∈ [LdapConnectionState.transportReady, .bound, .error]) :
    Along (World.Upholds S) (csmSetState state) := by
  refine Along.step fun w => ?_
  rw [exec_csmSetState]
  cases hs : w.connection.stateMachine with
  | live current =>
    have hrecord : w.Upholds S (w.record (.transition current state)) := upholds_record (fun _ => rfl) w trivial
    exact ⟨hrecord.queue, hrecord.grows, rfl, rfl, rfl, fun _ => .refl _, .inr ⟨⟨current, hs⟩, state, h, rfl⟩⟩
  | null => exact .refl w
  | dangling => exact .refl w

theorem upholds_enter {state : LdapConnectionState} (code : OperationReturnCode)
    (h : state ∈ [LdapConnectionState.transportReady, .bound, .error]) :
    Along (World.Upholds S) (do csmSetState state; return code) :=
  Along.bind (upholds_csmSetState h) fun _ => Along.pure

theorem upholds_connectionOptionalTransitionOnError :
    Along (World.Upholds S) connectionOptionalTransitionOnError := by
  unfold connectionOptionalTransitionOnError
  apply Along.get
  intro w
  apply Along.bind (along_dereference _)
  exact fun state => Along.ite (upholds_csmSetState (by decide)) Along.pure

theorem upholds_ensureTls (code : Int) : Along (World.Upholds S) (ensureTls code) := by
  unfold ensureTls ldapInstallTls
  apply Along.get
  intro w
  apply Along.ite Along.pure
  apply Along.bind (upholds_call _)
  intro _
  apply Along.bind
  · exact upholds_emit (fun _ => rfl) fun _ => trivial
  intro _
  refine Along.ite (Along.bind (Along.step fun w => ?_) fun _ => Along.pure) Along.pure
  exact ⟨fun _ hp => hp, .none rfl, rfl, rfl, rfl, fun _ => .refl _, .inl rfl⟩

theorem upholds_connectionStartTlsOnRead (r : Response) :
    Along (World.Upholds S) (connectionStartTlsOnRead r) := by
  unfold connectionStartTlsOnRead
  apply Along.ite _ Along.pure
  apply Along.bind (upholds_ensureTls r.installTls)
  intro rc
  apply Along.ite
  · exact Along.ite (upholds_enter _ (by decide)) Along.pure
  · exact upholds_enter _ (by decide)

theorem upholds_bindOutcome (rc : Int) (r : Response) : Along (World.Upholds S) (bindOutcome rc r) := by
  unfold bindOutcome
  apply Along.ite
  · apply Along.get
    intro w
    exact Along.bind (upholds_track _ _) fun _ => Along.pure
  · apply Along.ite (upholds_enter _ (by decide))
    cases r.diagnostics.resultCode with
    | none => exact Along.pure
    | some code => exact Along.ite (upholds_enter _ (by decide)) Along.pure

theorem upholds_bindAnswer (pointer : Pointer Unit) (msgid : Int) (r : Response) :
    Along (World.Upholds S) (do
      let _ ← dereference pointer
      call .saslInteractiveBind
      emit (.bindAnswered msgid r.bind.rc)
      modifyConnection fun c => { c with msgid := r.bind.msgid }) := by
  apply Along.bind (along_dereference _)
  intro _
  apply Along.bind (upholds_call _)
  intro _
  apply Along.bind
  · exact upholds_emit (fun _ => rfl) fun _ => trivial
  intro _
  refine Along.step fun w => ?_
  exact ⟨fun _ hp => hp, .none rfl, rfl, rfl, rfl, fun _ => .refl _, .inl rfl⟩

theorem upholds_connectionBindOnRead (r : Response) : Along (World.Upholds S) (connectionBindOnRead r) := by
  unfold connectionBindOnRead
  apply Along.ite _ Along.pure
  apply Along.get
  intro w
  dsimp only
  cases w.connection.bindType with
  | interactive =>
    have hanswer := Along.bind (upholds_bindAnswer w.connection.ldapDefaults w.connection.msgid r)
      fun _ => upholds_bindOutcome (S := S) r.bind.rc r
    simpa only [bind_assoc] using hanswer
  | simple =>
    apply Along.bind
    · exact upholds_emit (fun _ => rfl) fun _ => trivial
    · exact fun _ => upholds_bindOutcome _ r

/-- Apart from the one that detects the directory, every handler upholds the connection. -/
theorem upholds_handle {handler : OperationCallback} (h : handler ≠ .directoryParseResult) {r : Response}
    (hs : ∀ s ∈ r.submissions, s.Permitted S) : Along (World.Upholds S) (handler.handle r) := by
  cases handler with
  | addOnRead => exact upholds_resultOnRead _ _ hs
  | modifyOnRead => exact upholds_resultOnRead _ _ hs
  | deleteOnRead => exact upholds_resultOnRead _ _ hs
  | renameOnRead => exact upholds_resultOnRead _ _ hs
  | whoamiOnRead => exact Along.pure
  | searchOnRead => exact upholds_searchOnRead hs
  | directoryParseResult => exact absurd rfl h
  | connectionBindOnRead => exact upholds_connectionBindOnRead r
  | connectionStartTlsOnRead => exact upholds_connectionStartTlsOnRead r

/-- The answer to a search for definitions is processed value by value. -/
theorem searchOnRead_values {r : Response} {code : OperationReturnCode} {index : ℕ} {entries : List LdEntry}
    (htype : r.rc = ldapResSearchEntry ∨ r.rc = ldapResSearchResult)
    (hfound : w.connection.findSearchRequest r.msgid = some index)
    (hcallback : (w.connection.searchRequests index).onSearchOperation = some kind.callback)
    (hentries : readEntries r = some entries) (he : exec (searchOnRead r) w = (.ok code, w')) :
    ∃ t, exec (untilFailure (appendValueCallback kind.append r.parse) (schemaValues entries))
        (w.record (.searchCallback index w.epoch r.msgid kind.callback
          (w.connection.searchRequests index).userData entries w.connection)) = (.ok code, t) ∧
      t.Upholds S w' := by
  rw [searchOnRead, if_pos htype, exec_bind_ok (exec_get w), hfound] at he
  dsimp only at he
  rw [answerSearch, exec_bind_ok (exec_get w)] at he
  dsimp only at he
  rw [hcallback, hentries] at he
  dsimp only at he
  rw [exec_bind_ok (exec_emit _ w)] at he
  obtain ⟨_, t, hcall, he⟩ := exec_bind_eq_ok he
  obtain ⟨_, u, hremove, he⟩ := exec_bind_eq_ok he
  cases he
  have hremoved := upholds_along (S := S) (upholds_connectionRemoveSearchRequest index) t
  rw [hremove] at hremoved
  have hcommon : callSearchCallback kind.callback entries r =
      ldapSchemaCallbackCommon (appendValueCallback kind.append r.parse) entries := by cases kind <;> rfl
  rw [hcommon] at hcall
  exact ⟨t, exec_ldapSchemaCallbackCommon hcall, hremoved⟩

/-- A root DSE response is either kept as the type of the directory or upholds the connection. -/
theorem directoryParseResult_cases {r : Response} {code : OperationReturnCode}
    (hs : ∀ s ∈ r.submissions, s.Permitted S) (he : exec (directoryParseResult r) w = (.ok code, w')) :
    (r.rc = ldapResSearchEntry ∨ r.rc = ldapResSearchResult) ∧
        w' = { w with connection := { w.connection with
          directoryType := r.directoryType w.connection } } ∨
      w.Upholds S w' := by
  rw [directoryParseResult] at he
  by_cases htype : r.rc = ldapResSearchEntry ∨ r.rc = ldapResSearchResult
  · rw [if_pos htype, exec_bind_ok (exec_modifyConnection _ w)] at he
    cases he
    exact .inl ⟨htype, rfl⟩
  · rw [if_neg htype] at he
    have hupholds := upholds_along (Along.ite (c := r.rc = ldapResSearchReference)
      (p := pure OperationReturnCode.success) Along.pure (upholds_failure hs)) w
    rw [he] at hupholds
    exact .inr hupholds

end Libdomain.Connection
