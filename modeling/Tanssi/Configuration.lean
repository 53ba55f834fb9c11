import Tanssi.Frame
import Tanssi.DelayedChanges

/-! `pallet_configuration`: the host configuration in effect, and the changes to it
scheduled `SessionDelay` sessions ahead. Every setter is `schedule_config_update` with
its own update of the latest configuration; a session change applies the change due,
and `GetHostConfiguration` reads the configuration a given session will have. The
`u32` fields are `Nat`s: nothing adds to them. Logging and weights are left out. -/
namespace Tanssi.Configuration
open Frame DelayedChanges

variable {α : Type}

structure HostConfiguration where
  maxCollators : Nat
  minOrchestratorCollators : Nat
  maxOrchestratorCollators : Nat
  collatorsPerContainer : Nat
  deriving DecidableEq, Repr

instance : Inhabited HostConfiguration := ⟨⟨100, 2, 5, 2⟩⟩

inductive InconsistentError where
  | maxCollatorsLowerThanMinCollators
  deriving DecidableEq, Repr

def HostConfiguration.checkConsistency (config : HostConfiguration) : Except InconsistentError Unit :=
  if config.maxOrchestratorCollators < config.minOrchestratorCollators then
    .error .maxCollatorsLowerThanMinCollators
  else .ok ()

inductive Error where
  | invalidNewValue
  deriving DecidableEq, Repr

inductive DispatchError where
  | badOrigin
  | module (error : Error)
  deriving DecidableEq, Repr

structure State where
  activeConfig : HostConfiguration
  pendingConfigs : List (Nat × HostConfiguration)
  bypassConsistencyCheck : Bool
  deriving DecidableEq, Repr

def build (config : HostConfiguration) : Option State :=
  match config.checkConsistency with
  | .ok () => some ⟨config, [], false⟩
  | .error _ => none

/-- `scheduled_session`: `CurrentSessionIndex` plus `SessionDelay`. -/
def scheduledSession (sessionDelay currentSessionIndex : Nat) : Nat := currentSessionIndex + sessionDelay

def scheduleConfigUpdate (sessionDelay currentSessionIndex : Nat) (updater : HostConfiguration → HostConfiguration)
    (st : State) : Except DispatchError State := do
  let pendingConfigs := st.pendingConfigs
  let baseConfig := latest st.activeConfig pendingConfigs
  let baseConfigConsistent := (baseConfig.checkConsistency).isOk
  let newConfig := updater baseConfig
  if !st.bypassConsistencyCheck && !(newConfig.checkConsistency).isOk && baseConfigConsistent then
    throw (.module .invalidNewValue)
  let scheduledSession := scheduledSession sessionDelay currentSessionIndex
  pure { st with pendingConfigs := schedule pendingConfigs scheduledSession newConfig }

section Setters
variable (sessionDelay currentSessionIndex : Nat) (origin : RawOrigin α) (st : State)

/-- The setters: `ensure_root`, then the update scheduled. -/
def setConfig (updater : HostConfiguration → HostConfiguration) : Except DispatchError State :=
  if ensureRoot origin then scheduleConfigUpdate sessionDelay currentSessionIndex updater st
  else throw .badOrigin

def setMaxCollators (new : Nat) : Except DispatchError State :=
  setConfig sessionDelay currentSessionIndex origin st fun config => { config with maxCollators := new }

def setMinOrchestratorCollators (new : Nat) : Except DispatchError State :=
  setConfig sessionDelay currentSessionIndex origin st fun config =>
    let config := if config.maxOrchestratorCollators < new then { config with maxOrchestratorCollators := new }
      else config
    { config with minOrchestratorCollators := new }

def setMaxOrchestratorCollators (new : Nat) : Except DispatchError State :=
  setConfig sessionDelay currentSessionIndex origin st fun config =>
    let config := if new < config.minOrchestratorCollators then { config with minOrchestratorCollators := new }
      else config
    { config with maxOrchestratorCollators := new }

def setCollatorsPerContainer (new : Nat) : Except DispatchError State :=
  setConfig sessionDelay currentSessionIndex origin st fun config => { config with collatorsPerContainer := new }

def setBypassConsistencyCheck (new : Bool) : Except DispatchError State :=
  if ensureRoot origin then pure { st with bypassConsistencyCheck := new } else throw .badOrigin

end Setters

inductive Call where
  | setMaxCollators (new : Nat)
  | setMinOrchestratorCollators (new : Nat)
  | setMaxOrchestratorCollators (new : Nat)
  | setCollatorsPerContainer (new : Nat)
  | setBypassConsistencyCheck (new : Bool)
  deriving DecidableEq, Repr

def dispatch (sessionDelay currentSessionIndex : Nat) (origin : RawOrigin α) : Call → State → Except DispatchError State
  | .setMaxCollators new, st => setMaxCollators sessionDelay currentSessionIndex origin st new
  | .setMinOrchestratorCollators new, st => setMinOrchestratorCollators sessionDelay currentSessionIndex origin st new
  | .setMaxOrchestratorCollators new, st => setMaxOrchestratorCollators sessionDelay currentSessionIndex origin st new
  | .setCollatorsPerContainer new, st => setCollatorsPerContainer sessionDelay currentSessionIndex origin st new
  | .setBypassConsistencyCheck new, st => setBypassConsistencyCheck origin st new

structure SessionChangeOutcome where
  prevConfig : HostConfiguration
  newConfig : Option HostConfiguration
  deriving DecidableEq, Repr

def initializerOnNewSession (sessionIndex : Nat) (st : State) : SessionChangeOutcome × State :=
  let (newConfig, future) := applyDue st.pendingConfigs sessionIndex
  (⟨st.activeConfig, newConfig⟩, { st with activeConfig := newConfig.getD st.activeConfig, pendingConfigs := future })

/-- `GetHostConfiguration`: the configuration `sessionIndex` will have, which each of the
three getters reads one field of. -/
def configAt (sessionIndex : Nat) (st : State) : HostConfiguration :=
  valueAt st.activeConfig st.pendingConfigs sessionIndex

def collatorsPerContainer (sessionIndex : Nat) (st : State) : Nat := (configAt sessionIndex st).collatorsPerContainer

def minCollatorsForOrchestrator (sessionIndex : Nat) (st : State) : Nat :=
  (configAt sessionIndex st).minOrchestratorCollators

def maxCollatorsForOrchestrator (sessionIndex : Nat) (st : State) : Nat :=
  (configAt sessionIndex st).maxOrchestratorCollators

def CallStep (α : Type) (sessionDelay s : Nat) (st st' : State) : Prop :=
  ∃ (origin : RawOrigin α) (call : Call), dispatch sessionDelay s origin call st = .ok st'

inductive Reachable (α : Type) (sessionDelay : Nat) : Nat → State → Prop where
  | genesis {config : HostConfiguration} {st : State} :
      build config = some st → Reachable α sessionDelay 0 (initializerOnNewSession 0 st).2
  | call {s : Nat} {st st' : State} (origin : RawOrigin α) (call : Call) :
      Reachable α sessionDelay s st → dispatch sessionDelay s origin call st = .ok st' → Reachable α sessionDelay s st'
  | newSession {s : Nat} {st : State} :
      Reachable α sessionDelay s st → Reachable α sessionDelay (s + 1) (initializerOnNewSession (s + 1) st).2

/- A call either sets the bypass flag or schedules one new configuration at the scheduled
session, on top of the latest one; it never touches the active configuration. -/

section Calls
variable {sessionDelay s : Nat} {st st' : State}

theorem scheduleConfigUpdateOk {updater : HostConfiguration → HostConfiguration}
    (h : scheduleConfigUpdate sessionDelay s updater st = .ok st') :
    st' = { st with
      pendingConfigs := schedule st.pendingConfigs (s + sessionDelay) (updater (latest st.activeConfig st.pendingConfigs)) } := by
  simp only [scheduleConfigUpdate, scheduledSession] at h
  split at h
  · cases h
  · exact (pureEqOk.1 h).symm

theorem setConfigOk {origin : RawOrigin α} {updater : HostConfiguration → HostConfiguration}
    (h : setConfig sessionDelay s origin st updater = .ok st') :
    st' = { st with
      pendingConfigs := schedule st.pendingConfigs (s + sessionDelay) (updater (latest st.activeConfig st.pendingConfigs)) } := by
  unfold setConfig at h
  split at h
  · exact scheduleConfigUpdateOk h
  · cases h

theorem dispatchOk {origin : RawOrigin α} {call : Call} (h : dispatch sessionDelay s origin call st = .ok st') :
    (∃ new, st' = { st with pendingConfigs := schedule st.pendingConfigs (s + sessionDelay) new }) ∨
      ∃ bypass, st' = { st with bypassConsistencyCheck := bypass } := by
  cases call with
  | setMaxCollators => exact .inl ⟨_, setConfigOk h⟩
  | setMinOrchestratorCollators => exact .inl ⟨_, setConfigOk h⟩
  | setMaxOrchestratorCollators => exact .inl ⟨_, setConfigOk h⟩
  | setCollatorsPerContainer => exact .inl ⟨_, setConfigOk h⟩
  | setBypassConsistencyCheck new =>
    simp only [dispatch, setBypassConsistencyCheck] at h
    split at h
    · exact .inr ⟨new, (pureEqOk.1 h).symm⟩
    · cases h

theorem configAtDispatch {origin : RawOrigin α} {call : Call} {t : Nat} (before : t < s + sessionDelay)
    (h : dispatch sessionDelay s origin call st = .ok st') : configAt t st' = configAt t st := by
  rcases dispatchOk h with ⟨new, rfl⟩ | ⟨bypass, rfl⟩
  · exact valueAtSchedule before
  · rfl

theorem dispatchWindow {origin : RawOrigin α} {call : Call} (positive : 0 < sessionDelay)
    (inv : Window s sessionDelay st.pendingConfigs) (h : dispatch sessionDelay s origin call st = .ok st') :
    Window s sessionDelay st'.pendingConfigs := by
  rcases dispatchOk h with ⟨new, rfl⟩ | ⟨bypass, rfl⟩
  · exact scheduleWindow positive inv
  · exact inv

theorem configAtCalls {t : Nat} (before : t < s + sessionDelay)
    (calls : Relation.ReflTransGen (CallStep α sessionDelay s) st st') : configAt t st' = configAt t st := by
  induction calls with
  | refl => rfl
  | tail _ step same =>
    obtain ⟨origin, call, h⟩ := step
    rw [configAtDispatch before h, same]

end Calls

/- A session change makes active what the queue predicted for the new session. -/

theorem activeConfigAfter (t : Nat) (st : State) :
    (initializerOnNewSession t st).2.activeConfig = configAt t st :=
  applyDueValue

theorem Reachable.window {sessionDelay s : Nat} {st : State} (positive : 0 < sessionDelay)
    (reach : Reachable α sessionDelay s st) : Window s sessionDelay st.pendingConfigs := by
  induction reach with
  | genesis built =>
    unfold build at built
    split at built
    · cases built
      exact Window.nil
    · cases built
  | call origin call _ dispatched inv => exact dispatchWindow positive inv dispatched
  | newSession _ inv => exact applyDueWindow inv

theorem Reachable.calls {sessionDelay s : Nat} {st st' : State} (reach : Reachable α sessionDelay s st)
    (calls : Relation.ReflTransGen (CallStep α sessionDelay s) st st') : Reachable α sessionDelay s st' := by
  induction calls with
  | refl => exact reach
  | tail _ step reached =>
    obtain ⟨origin, call, h⟩ := step
    exact .call origin call reached h

/- A call made at the new session's index in the block whose end applies the change to that
session has the effect it has once the change is applied: it reads the latest configuration,
which the change keeps, and schedules after the session the change applies. -/

section NewSession
variable {sessionDelay t : Nat} {st : State}

theorem scheduleConfigUpdateEq (updater : HostConfiguration → HostConfiguration) :
    scheduleConfigUpdate sessionDelay t updater st =
      let baseConfig := latest st.activeConfig st.pendingConfigs
      if !st.bypassConsistencyCheck && !((updater baseConfig).checkConsistency).isOk && (baseConfig.checkConsistency).isOk
      then .error (.module .invalidNewValue)
      else .ok { st with pendingConfigs := schedule st.pendingConfigs (t + sessionDelay) (updater baseConfig) } := by
  simp only [scheduleConfigUpdate, scheduledSession]
  split <;> rfl

theorem scheduleConfigUpdateNewSession (positive : 0 < sessionDelay)
    (sorted : st.pendingConfigs.Pairwise fun a b => a.1 < b.1) (updater : HostConfiguration → HostConfiguration) :
    scheduleConfigUpdate sessionDelay t updater (initializerOnNewSession t st).2 =
      (fun st' => (initializerOnNewSession t st').2) <$> scheduleConfigUpdate sessionDelay t updater st := by
  have kept : latest (initializerOnNewSession t st).2.activeConfig (initializerOnNewSession t st).2.pendingConfigs =
      latest st.activeConfig st.pendingConfigs := applyDueLatest sorted
  have sameBypass : (initializerOnNewSession t st).2.bypassConsistencyCheck = st.bypassConsistencyCheck := rfl
  rw [scheduleConfigUpdateEq, scheduleConfigUpdateEq]
  simp only [kept, sameBypass]
  split
  · rfl
  · simp only [Functor.map, Except.map, initializerOnNewSession, applyDueSchedule (Nat.lt_add_of_pos_right positive)]

theorem dispatchNewSession (positive : 0 < sessionDelay) (sorted : st.pendingConfigs.Pairwise fun a b => a.1 < b.1)
    (origin : RawOrigin α) (call : Call) :
    dispatch sessionDelay t origin call (initializerOnNewSession t st).2 =
      (fun st' => (initializerOnNewSession t st').2) <$> dispatch sessionDelay t origin call st := by
  cases call with
  | setBypassConsistencyCheck new =>
    simp only [dispatch, setBypassConsistencyCheck]
    split <;> rfl
  | _ =>
    simp only [dispatch, setMaxCollators, setMinOrchestratorCollators, setMaxOrchestratorCollators,
      setCollatorsPerContainer, setConfig]
    split
    · exact scheduleConfigUpdateNewSession positive sorted _
    · rfl

theorem configAtNewSession (sorted : st.pendingConfigs.Pairwise fun a b => a.1 < b.1) {later : Nat} (after : t ≤ later) :
    configAt later (initializerOnNewSession t st).2 = configAt later st :=
  valueAtApplyDue sorted after

end NewSession

end Tanssi.Configuration
