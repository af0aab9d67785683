import Libdomain.Connection.PathIgnorance

/-! # Two connections of one process

Each connection has a world of its own, except for the variable of `ad_schema.c`. Their steps
are interleaved in any order; each step finds in the variable what the last one has left there.
-/
namespace Libdomain.Connection
open Libdomain.Program

/-- Two connections and the variable. In its place a world holds what it was after the last step of
its own connection. -/
structure TwoConnections where
  first : World
  second : World
  schemaEntryPath : Option Bytes

inductive Side
  | first
  | second
  deriving DecidableEq, Repr

def performOn (side : Side) (step : Step) : Prog TwoConnections Fault Unit := do
  let p ← get
  let (outcome, w) := exec step.perform ((match side with
    | .first => p.first
    | .second => p.second).withPath p.schemaEntryPath)
  match side with
  | .first => set { p with first := w, schemaEntryPath := w.schemaEntryPath }
  | .second => set { p with second := w, schemaEntryPath := w.schemaEntryPath }
  match outcome with
  | .ok _ => pure ()
  | .error e => throw e

def interleave (steps : List (Side × Step)) : Prog TwoConnections Fault Unit :=
  steps.forM fun x => performOn x.1 x.2

def TwoConnections.initial (config config' : LdapConnectionConfig) (path : Option Bytes) :
    TwoConnections := ⟨.initial config path, .initial config' path, path⟩

def secondSteps (steps : List (Side × Step)) : List Step :=
  steps.filterMap fun x => if x.1 = .second then some x.2 else none

def Event.searchSent : Event → Option SearchArguments
  | .call _ (.searchExt arguments) => some arguments
  | _ => none

def World.searchesSent (w : World) : List SearchArguments := w.trace.reverse.filterMap Event.searchSent

/-- Whenever the second connection requests the schema of Active Directory, the variable holds what
the steps of this connection alone would have left there. -/
def RequestsWithOwnPath : TwoConnections → World → List (Side × Step) → Prop
  | _, _, [] => True
  | p, own, (.first, step) :: rest => RequestsWithOwnPath (exec (performOn .first step) p).2 own rest
  | p, own, (.second, step) :: rest =>
    (step.RequestsActiveDirectory p.second → p.schemaEntryPath = own.schemaEntryPath) ∧
      RequestsWithOwnPath (exec (performOn .second step) p).2 (exec step.perform own).2 rest

instance decidableRequestsWithOwnPath : (p : TwoConnections) → (own : World) →
    (steps : List (Side × Step)) → Decidable (RequestsWithOwnPath p own steps)
  | _, _, [] => isTrue trivial
  | p, own, (.first, step) :: rest =>
    decidableRequestsWithOwnPath (exec (performOn .first step) p).2 own rest
  | p, own, (.second, step) :: rest =>
    have : Decidable (RequestsWithOwnPath (exec (performOn .second step) p).2
      (exec step.perform own).2 rest) := decidableRequestsWithOwnPath _ _ rest
    inferInstanceAs (Decidable (_ ∧ _))

variable {p p' : TwoConnections} {own : World} {steps : List (Side × Step)}

theorem exec_performOn_first (step : Step) (p : TwoConnections) :
    exec (performOn .first step) p =
      ((exec step.perform (p.first.withPath p.schemaEntryPath)).1,
        { p with first := (exec step.perform (p.first.withPath p.schemaEntryPath)).2
                 schemaEntryPath :=
                  (exec step.perform (p.first.withPath p.schemaEntryPath)).2.schemaEntryPath }) := by
  rw [performOn, exec_bind_ok (exec_get p)]
  dsimp only
  rcases exec step.perform (p.first.withPath p.schemaEntryPath) with ⟨outcome, w⟩
  cases outcome <;> rfl

theorem exec_performOn_second (step : Step) (p : TwoConnections) :
    exec (performOn .second step) p =
      ((exec step.perform (p.second.withPath p.schemaEntryPath)).1,
        { p with second := (exec step.perform (p.second.withPath p.schemaEntryPath)).2
                 schemaEntryPath :=
                  (exec step.perform (p.second.withPath p.schemaEntryPath)).2.schemaEntryPath }) := by
  rw [performOn, exec_bind_ok (exec_get p)]
  dsimp only
  rcases exec step.perform (p.second.withPath p.schemaEntryPath) with ⟨outcome, w⟩
  cases outcome <;> rfl

/-- One step of the second connection keeps it equal to the connection on its own, up to the path. -/
theorem performOn_second_own {step : Step} {path : Option Bytes} (hown : own = p.second.withPath path)
    (hpath : step.RequestsActiveDirectory p.second → p.schemaEntryPath = own.schemaEntryPath) :
    (exec step.perform own).1 = (exec (performOn .second step) p).1 ∧
      ∃ path', (exec step.perform own).2 = (exec (performOn .second step) p).2.second.withPath path' := by
  rw [exec_performOn_second]
  by_cases hrequests : step.RequestsActiveDirectory p.second
  · have hsame : p.second.withPath p.schemaEntryPath = own := by
      rw [hpath hrequests, hown]
      rfl
    rw [hsame]
    exact ⟨rfl, _, rfl⟩
  · obtain ⟨outcome, t, f, hignores⟩ := ignoresAt_perform hrequests
    rw [hown, hignores, hignores]
    exact ⟨rfl, f path, rfl⟩

theorem interleave_own {path : Option Bytes} (hown : own = p.second.withPath path)
    (hpath : RequestsWithOwnPath p own steps) (h : exec (interleave steps) p = (.ok (), p')) :
    ∃ path', exec (performSteps (secondSteps steps)) own = (.ok (), p'.second.withPath path') := by
  induction steps generalizing p own path with
  | nil =>
    cases h
    exact ⟨path, by rw [hown]; rfl⟩
  | cons x rest ih =>
    obtain ⟨side, step⟩ := x
    obtain ⟨_, q, hstep, hrest⟩ := exec_bind_eq_ok h
    cases side with
    | first =>
      have hkept : q.second = p.second := by
        have hsnd := congrArg (fun r => r.2.second) ((exec_performOn_first step p).symm.trans hstep)
        exact hsnd.symm
      rw [RequestsWithOwnPath, hstep] at hpath
      exact ih (by rw [hown, hkept]) hpath hrest
    | second =>
      obtain ⟨houtcome, path', hown'⟩ := performOn_second_own hown hpath.1
      have hnext := hpath.2
      rw [hstep] at houtcome hown' hnext
      have hperform : exec step.perform own = (.ok (), (exec step.perform own).2) := Prod.ext houtcome rfl
      change ∃ path', exec (performSteps (step :: secondSteps rest)) own = _
      rw [exec_performSteps_cons, exec_bind_ok hperform]
      exact ih hown' hnext hrest

/-- In every interleaving of two connections in which the second one finds its own path whenever it
requests the schema of Active Directory, it sends the searches it sends on its own, whose run goes
through as well. -/
theorem interleave_searchesSent {config config' : LdapConnectionConfig} {path : Option Bytes}
    (hpath : RequestsWithOwnPath (.initial config config' path) (.initial config' path) steps)
    (h : exec (interleave steps) (.initial config config' path) = (.ok (), p)) :
    (run config' path (secondSteps steps)).1 = .ok () ∧
      p.second.searchesSent = (run config' path (secondSteps steps)).2.searchesSent := by
  have hstart : World.initial config' path =
      (TwoConnections.initial config config' path).second.withPath path := rfl
  obtain ⟨path', hown⟩ := interleave_own hstart hpath h
  rw [run, hown]
  exact ⟨rfl, rfl⟩

section Runs

-- Only the kernel is to evaluate the runs.
attribute [local irreducible] run interleave RequestsWithOwnPath

def activeDirectorySteps : List Step :=
  [.tick {}, .tick {}, .tick { directory := ⟨ldapSuccess, 2⟩ },
    .read [{ rc := ldapResBind }, { rc := ldapResSearchEntry, msgid := 2
                                    chain := [⟨some [], [(ascii "isGlobalCatalogReady", [])]⟩] }],
    .tick {}]

/-- It requests the schema, and its server names the entry that holds it. -/
def entryPathSteps (path : Bytes) : List Step :=
  [.tick { firstSearch := ⟨ldapSuccess, 3⟩ },
    .read [{ rc := ldapResSearchEntry, msgid := 3
             chain := [⟨some [], [(ascii "subschemaSubentry", [path])]⟩] }]]

def requestSteps : List Step :=
  [.tick { firstSearch := ⟨ldapSuccess, 3⟩, secondSearch := ⟨ldapSuccess, 4⟩ }]

def onSide (side : Side) (steps : List Step) : List (Side × Step) := steps.map fun step => (side, step)

def orderedSteps : List (Side × Step) :=
  onSide .first activeDirectorySteps ++ onSide .second (activeDirectorySteps ++ requestSteps) ++
    onSide .first (entryPathSteps (ascii "cn=a"))

def overtakenSteps : List (Side × Step) :=
  onSide .first (activeDirectorySteps ++ entryPathSteps (ascii "cn=a")) ++
    onSide .second (activeDirectorySteps ++ requestSteps)

def plainConnections : TwoConnections := .initial ⟨false, .simple⟩ ⟨false, .simple⟩ none

theorem interleave_searchesSent_ordered :
    (run ⟨false, .simple⟩ none (secondSteps orderedSteps)).1 = .ok () ∧
      (exec (interleave orderedSteps) plainConnections).2.second.searchesSent =
        (run ⟨false, .simple⟩ none (secondSteps orderedSteps)).2.searchesSent := by
  have hrun : (exec (interleave orderedSteps) plainConnections).1 = .ok () ∧
      RequestsWithOwnPath plainConnections (.initial ⟨false, .simple⟩ none) orderedSteps := by
    decide +kernel
  exact interleave_searchesSent hrun.2 (Prod.ext hrun.1 rfl)

/-- The second connection skips the question for the path and searches the entry the server of the
first one has named. -/
theorem entryPath_overtaken :
    (exec (interleave overtakenSteps) plainConnections).1 = .ok () ∧
      (run ⟨false, .simple⟩ none (secondSteps overtakenSteps)).1 = .ok () ∧
      (exec (interleave overtakenSteps) plainConnections).2.second.searchesSent ≠
        (run ⟨false, .simple⟩ none (secondSteps overtakenSteps)).2.searchesSent := by
  decide +kernel

end Runs

end Libdomain.Connection
