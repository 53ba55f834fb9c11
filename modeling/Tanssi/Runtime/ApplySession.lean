import Tanssi.Configuration
import Tanssi.Registrar.Invariant
import Tanssi.CollatorAssignment
import Tanssi.Authorities

/-! `OwnApplySession::apply_new_session` of the dancebox runtime. At a session change the
configuration, the registrar, the authority mapping, the collator assignment and the
authority assignment take the change in that order: the collator assignment reads what
the first two predict for the next session, and the authority assignment replaces every
account of its next assignment by the account's queued nimbus key. Between session changes
the configuration and the registrar take calls. The `para_id_authorities` runtime API
reads the authority assignment, and the node's `slot_author` picks the author of a slot
from its answer; the collator assignment's `author_for_slot` picks one from the accounts.
The authority assignment mirrors the collator assignment, so the two agree. -/
namespace Tanssi.Runtime
open Frame DelayedChanges

variable {α κ γ σ : Type} [LinearOrder α] [LinearOrder κ]

/-- `SessionDelay` of `pallet_configuration::Config for Runtime`. -/
def configurationSessionDelay : Nat := 2

/-- `SessionRemovalBoundary` of `pallet_authority_mapping::Config for Runtime`. -/
def sessionRemovalBoundary : Nat := 2

/-- The registrar's constants, and the para id of the orchestrator chain (`ParachainInfo`). -/
structure Config (α γ σ : Type) where
  registrar : Registrar.Config α γ σ
  selfParaId : ParaId

structure State (α κ σ : Type) [LinearOrder κ] where
  configuration : Configuration.State
  registrar : Registrar.State α σ
  authorityMapping : AuthorityMapping.State α κ
  collatorAssignment : CollatorAssignment.State α
  authorityAssignment : AuthorityAssignment.State κ

def genesis (configuration : Configuration.State) (registrar : Registrar.State α σ) : State α κ σ :=
  ⟨configuration, registrar, ⟨fun _ => none⟩, default, ⟨fun _ => none⟩⟩

/-- What `T::HostConfiguration` and `T::ContainerChains` answer the collator assignment. -/
def traits (configuration : Configuration.State) (registrar : Registrar.State α σ) : CollatorAssignment.Traits where
  sessionContainerChains t := Registrar.sessionContainerChains t registrar
  minCollatorsForOrchestrator t := Configuration.minCollatorsForOrchestrator t configuration
  maxCollatorsForOrchestrator t := Configuration.maxCollatorsForOrchestrator t configuration
  collatorsPerContainer t := Configuration.collatorsPerContainer t configuration

/-- `apply_new_session`; `none` where the authority assignment panics. -/
def applyNewSession (sessionIndex : Nat) (allValidators queued : List (α × κ)) (st : State α κ σ) :
    Option (State α κ σ) := do
  let configuration := (Configuration.initializerOnNewSession sessionIndex st.configuration).2
  let registrar := (Registrar.initializerOnNewSession sessionIndex st.registrar).2
  let authorityMapping :=
    AuthorityMapping.initializerOnNewSession sessionRemovalBoundary sessionIndex allValidators st.authorityMapping
  let nextCollators := queued.map (·.1)
  let assignments := CollatorAssignment.initializerOnNewSession (traits configuration registrar) sessionIndex
    nextCollators st.collatorAssignment
  let queuedIdToNimbusMap := SortedMap.ofList queued
  let authorityAssignment ← AuthorityAssignment.initializerOnNewSession sessionIndex queuedIdToNimbusMap
    assignments.1.nextAssignment st.authorityAssignment
  pure ⟨configuration, registrar, authorityMapping, assignments.2, authorityAssignment⟩

/-- `para_id_authorities`: the keys assigned to a para id in the session of the block being
built, the next one when that block ends the session. -/
def paraIdAuthorities (cfg : Config α γ σ) (currentIndex : Nat) (shouldEndSession : Bool) (paraId : ParaId)
    (st : State α κ σ) : Option (List κ) := do
  let sessionIndex := if shouldEndSession then currentIndex + 1 else currentIndex
  let assignedAuthorities ← st.authorityAssignment.collatorContainerChain sessionIndex
  if paraId = cfg.selfParaId then some assignedAuthorities.orchestratorChain
  else assignedAuthorities.containerChains.get paraId

/-- The node's `slot_author`: the authority whose turn the slot is. The `expect` on the
index cannot fail, the index being below the length. -/
def slotAuthor (slot : Nat) (authorities : List κ) : Option κ :=
  if authorities.isEmpty then none
  else authorities[slot % authorities.length]?

inductive Reachable (cfg : Config α γ σ) : Nat → List (α × κ) → List (α × κ) → State α κ σ → Prop where
  | genesis {config : Configuration.HostConfiguration} {paraIds : List (ParaId × γ)} {currency : σ}
      {configuration : Configuration.State} {registrar : Registrar.State α σ} {validators queued : List (α × κ)}
      {st : State α κ σ} :
      Configuration.build config = some configuration → Registrar.build cfg.registrar paraIds currency = some registrar →
      (queued.map (·.1)).Nodup → applyNewSession 0 validators queued (genesis configuration registrar) = some st →
      Reachable cfg 0 queued queued st
  | configurationCall {s : Nat} {previous queued : List (α × κ)} {st : State α κ σ}
      {configuration : Configuration.State} (origin : RawOrigin α) (call : Configuration.Call) :
      Reachable cfg s previous queued st →
      Configuration.dispatch configurationSessionDelay s origin call st.configuration = .ok configuration →
      Reachable cfg s previous queued { st with configuration }
  | registrarCall {s : Nat} {previous queued : List (α × κ)} {st : State α κ σ} {registrar : Registrar.State α σ}
      (origin : RawOrigin α) (call : Registrar.Call γ) :
      Reachable cfg s previous queued st → Registrar.dispatch cfg.registrar s origin call st.registrar = .ok registrar →
      Reachable cfg s previous queued { st with registrar }
  | newSession {s : Nat} {previous queued validators next : List (α × κ)} {st st' : State α κ σ} :
      Reachable cfg s previous queued st → (next.map (·.1)).Nodup →
      applyNewSession (s + 1) validators next st = some st' → Reachable cfg (s + 1) queued next st'

/- A session change, said once. -/

section Step
variable {sessionIndex : Nat} {allValidators queued : List (α × κ)} {st st' : State α κ σ}

def assignmentsAt (sessionIndex : Nat) (queued : List (α × κ)) (st : State α κ σ) :
    CollatorAssignment.SessionChangeOutcome α × CollatorAssignment.State α :=
  CollatorAssignment.initializerOnNewSession
    (traits (Configuration.initializerOnNewSession sessionIndex st.configuration).2
      (Registrar.initializerOnNewSession sessionIndex st.registrar).2)
    sessionIndex (queued.map (·.1)) st.collatorAssignment

theorem applyNewSessionOk (h : applyNewSession sessionIndex allValidators queued st = some st') :
    st'.configuration = (Configuration.initializerOnNewSession sessionIndex st.configuration).2 ∧
      st'.registrar = (Registrar.initializerOnNewSession sessionIndex st.registrar).2 ∧
      st'.collatorAssignment = (assignmentsAt sessionIndex queued st).2 ∧
      AuthorityAssignment.initializerOnNewSession sessionIndex (SortedMap.ofList queued)
        (assignmentsAt sessionIndex queued st).1.nextAssignment st.authorityAssignment = some st'.authorityAssignment := by
  obtain ⟨authorityAssignment, assigned, built⟩ := Option.bind_eq_some_iff.1 h
  obtain rfl := Option.some.inj built
  exact ⟨rfl, rfl, rfl, assigned⟩

theorem readAfterApply (h : applyNewSession sessionIndex allValidators queued st = some st') :
    CollatorAssignment.readAssignedCollators st'.collatorAssignment =
      (assignmentsAt sessionIndex queued st).1.nextAssignment := by
  rw [(applyNewSessionOk h).2.2.1, assignmentsAt, CollatorAssignment.readAfter]

theorem applyNewSessionSucceeds (sessionIndex : Nat) (allValidators queued : List (α × κ)) (st : State α κ σ) :
    (applyNewSession sessionIndex allValidators queued st).isSome := by
  have keyed : ∀ x ∈ (assignmentsAt sessionIndex queued st).1.nextAssignment.assigned,
      x ∈ (SortedMap.ofList queued).keys := by
    intro x assigned
    have queuedAccount := CollatorAssignment.nextFromCollators _ _ _ _ assigned
    exact SortedMap.memKeys.2 (Option.isSome_iff_exists.1 (SortedMap.ofListIsSome.2 queuedAccount))
  have succeeds : (AuthorityAssignment.assignCollators sessionIndex (SortedMap.ofList queued)
      (assignmentsAt sessionIndex queued st).1.nextAssignment st.authorityAssignment).isSome :=
    AuthorityAssignment.assignCollatorsSucceeds keyed
  obtain ⟨authorityAssignment, assigned⟩ := Option.isSome_iff_exists.1 succeeds
  simp only [applyNewSession, AuthorityAssignment.initializerOnNewSession, assignmentsAt] at assigned ⊢
  simp [assigned]

end Step

/- The authority assignment mirrors the collator assignment: it holds exactly the
current and the next session, the current one the active assignment and the next one the
assignment read at the next change, each mapped to the keys queued when it was computed. -/

def nimbusKeys (queued : List (α × κ)) : α → Option κ := AuthorityAssignment.index (SortedMap.ofList queued)

structure Mirrors (s : Nat) (previous queued : List (α × κ)) (st : State α κ σ) : Prop where
  keys : ∀ k, (st.authorityAssignment.collatorContainerChain k).isSome ↔ k = s ∨ k = s + 1
  current : st.authorityAssignment.collatorContainerChain s =
    st.collatorAssignment.collatorContainerChain.mapM (nimbusKeys previous)
  next : st.authorityAssignment.collatorContainerChain (s + 1) =
    (CollatorAssignment.readAssignedCollators st.collatorAssignment).mapM (nimbusKeys queued)

namespace Mirrors
variable {s : Nat} {previous queued validators next : List (α × κ)} {st st' : State α κ σ}

theorem genesis {configuration : Configuration.State} {registrar : Registrar.State α σ}
    (h : applyNewSession 0 validators queued (Runtime.genesis configuration registrar) = some st) :
    Mirrors 0 queued queued st := by
  obtain ⟨-, -, assignment, assigned⟩ := applyNewSessionOk h
  obtain ⟨b, mapped, stored⟩ := AuthorityAssignment.assignCollatorsOk assigned
  simp only [if_true] at stored
  have active : st.collatorAssignment.collatorContainerChain =
      (assignmentsAt 0 queued (Runtime.genesis configuration registrar)).1.nextAssignment := by
    rw [assignment, assignmentsAt, CollatorAssignment.activeStored, CollatorAssignment.activeAtZero]
  refine ⟨fun k => ?_, ?_, ?_⟩
  · by_cases one : k = 1
    · subst one
      simp [stored]
    · by_cases zero : k = 0
      · subst zero
        simp [stored]
      · simp [stored, Runtime.genesis, one, zero]
  · rw [stored, Function.update_of_ne (by decide), Function.update_self, active]
    exact mapped.symm
  · rw [stored, Function.update_self, readAfterApply h]
    exact mapped.symm

theorem newSession (inv : Mirrors s previous queued st) (h : applyNewSession (s + 1) validators next st = some st') :
    Mirrors (s + 1) queued next st' := by
  obtain ⟨-, -, assignment, assigned⟩ := applyNewSessionOk h
  obtain ⟨b, mapped, stored⟩ := AuthorityAssignment.assignCollatorsOk assigned
  simp only [Nat.succ_ne_zero, if_false, Nat.add_sub_cancel] at stored
  have active : st'.collatorAssignment.collatorContainerChain = CollatorAssignment.readAssignedCollators st.collatorAssignment := by
    rw [assignment, assignmentsAt, CollatorAssignment.activeStored,
      CollatorAssignment.activeRead _ _ _ _ (Nat.succ_ne_zero s)]
  refine ⟨fun k => ?_, ?_, ?_⟩
  · by_cases fresh : k = s + 1 + 1
    · subst fresh
      simp [stored]
    · by_cases old : k = s
      · subst old
        simp only [stored, Function.update_of_ne fresh, Function.update_self, Option.isSome_none,
          Bool.false_eq_true, false_iff]
        omega
      · rw [stored, Function.update_of_ne fresh, Function.update_of_ne old, inv.keys k]
        omega
  · rw [stored, Function.update_of_ne (by omega), Function.update_of_ne (by omega), inv.next, active]
  · rw [stored, Function.update_self, readAfterApply h]
    exact mapped.symm

theorem configurationCall {configuration : Configuration.State} (inv : Mirrors s previous queued st) :
    Mirrors s previous queued { st with configuration } := ⟨inv.keys, inv.current, inv.next⟩

theorem registrarCall {registrar : Registrar.State α σ} (inv : Mirrors s previous queued st) :
    Mirrors s previous queued { st with registrar } := ⟨inv.keys, inv.current, inv.next⟩

end Mirrors

theorem Reachable.mirrors {cfg : Config α γ σ} {s : Nat} {previous queued : List (α × κ)} {st : State α κ σ}
    (reach : Reachable cfg s previous queued st) : Mirrors s previous queued st := by
  induction reach with
  | genesis _ _ _ applied => exact Mirrors.genesis applied
  | configurationCall _ _ _ _ inv => exact inv.configurationCall
  | registrarCall _ _ _ _ inv => exact inv.registrarCall
  | newSession _ _ applied inv => exact inv.newSession applied

theorem Reachable.queuedDistinct {cfg : Config α γ σ} {s : Nat} {previous queued : List (α × κ)} {st : State α κ σ}
    (reach : Reachable cfg s previous queued st) : (previous.map (·.1)).Nodup ∧ (queued.map (·.1)).Nodup := by
  induction reach with
  | genesis _ _ distinct _ => exact ⟨distinct, distinct⟩
  | configurationCall _ _ _ _ distinct => exact distinct
  | registrarCall _ _ _ _ distinct => exact distinct
  | newSession _ distinct _ before => exact ⟨before.2, distinct⟩

theorem Reachable.sessionKeysDistinct {cfg : Config α γ σ} {s : Nat} {previous queued : List (α × κ)}
    {st : State α κ σ} (reach : Reachable cfg s previous queued st) (shouldEndSession : Bool) :
    ((if shouldEndSession then queued else previous).map (·.1)).Nodup := by
  cases shouldEndSession
  · exact reach.queuedDistinct.1
  · exact reach.queuedDistinct.2

theorem Reachable.pallets {cfg : Config α γ σ} {s : Nat} {previous queued : List (α × κ)} {st : State α κ σ}
    (reach : Reachable cfg s previous queued st) :
    Configuration.Reachable α configurationSessionDelay s st.configuration ∧ Registrar.Reachable cfg.registrar s st.registrar := by
  induction reach with
  | genesis configured registered _ applied =>
    obtain ⟨configuration, registrar, -⟩ := applyNewSessionOk applied
    rw [configuration, registrar]
    exact ⟨.genesis configured, .genesis registered⟩
  | configurationCall origin call _ dispatched inv => exact ⟨.call origin call inv.1 dispatched, inv.2⟩
  | registrarCall origin call _ dispatched inv => exact ⟨inv.1, .call origin call inv.2 dispatched⟩
  | newSession _ _ applied inv =>
    obtain ⟨configuration, registrar, -⟩ := applyNewSessionOk applied
    rw [configuration, registrar]
    exact ⟨.newSession inv.1, .newSession inv.2⟩

/- What `para_id_authorities` answers in a session: the keys of the collators the collator
assignment has active, position by position, so that `slot_author` names the key of the
collator `author_for_slot` names. -/

/-- `authorities` are the keys in `queued` of `collators`, position by position. -/
def KeysOf (queued : List (α × κ)) (collators : List α) (authorities : List κ) : Prop :=
  authorities.length = collators.length ∧
    ∀ (i : Nat) x k, collators[i]? = some x → authorities[i]? = some k → (x, k) ∈ queued

section Authorities
variable {queued : List (α × κ)}

omit [LinearOrder κ] in
theorem keysOfMapM (distinct : (queued.map (·.1)).Nodup) {collators : List α} {authorities : List κ}
    (h : collators.mapM (nimbusKeys queued) = some authorities) : KeysOf queued collators authorities := by
  obtain ⟨length, positions⟩ := mapMEqSome h
  refine ⟨length, fun i x k collator authority => ?_⟩
  rw [positions i, collator, Option.bind_some] at authority
  exact (SortedMap.ofListGet distinct).1 authority

omit [LinearOrder κ] in
theorem slotAuthorMapM {collators : List α} {authorities : List κ}
    (h : collators.mapM (nimbusKeys queued) = some authorities) (slot : Nat) :
    slotAuthor slot authorities =
      (if collators.isEmpty then none else collators[slot % collators.length]?).bind (nimbusKeys queued) := by
  obtain ⟨length, positions⟩ := mapMEqSome h
  have empty : authorities.isEmpty = collators.isEmpty := by
    rw [Bool.eq_iff_iff, List.isEmpty_iff_length_eq_zero, List.isEmpty_iff_length_eq_zero, length]
  unfold slotAuthor
  rw [empty, length]
  split
  · rfl
  · exact positions _

variable {cfg : Config α γ σ} {s : Nat} {previous : List (α × κ)} {st : State α κ σ}

omit [LinearOrder α] [LinearOrder κ] in
theorem authorForSlotEq (slot : Nat) (paraId : ParaId) (assignment : CollatorAssignment.State α) :
    CollatorAssignment.authorForSlot slot paraId assignment =
      (assignment.collatorContainerChain.containerChains.get paraId).bind (slotAuthor slot) := rfl

def sessionCollators (shouldEndSession : Bool) (st : State α κ σ) : AssignedCollators α :=
  if shouldEndSession then CollatorAssignment.readAssignedCollators st.collatorAssignment
  else st.collatorAssignment.collatorContainerChain

theorem Mirrors.currentSome (inv : Mirrors s previous queued st) :
    ∃ b, st.authorityAssignment.collatorContainerChain s = some b ∧
      st.collatorAssignment.collatorContainerChain.mapM (nimbusKeys previous) = some b := by
  obtain ⟨b, stored⟩ := Option.isSome_iff_exists.1 ((inv.keys s).2 (.inl rfl))
  exact ⟨b, stored, inv.current ▸ stored⟩

theorem Mirrors.nextSome (inv : Mirrors s previous queued st) :
    ∃ b, st.authorityAssignment.collatorContainerChain (s + 1) = some b ∧
      (CollatorAssignment.readAssignedCollators st.collatorAssignment).mapM (nimbusKeys queued) = some b := by
  obtain ⟨b, stored⟩ := Option.isSome_iff_exists.1 ((inv.keys (s + 1)).2 (.inr rfl))
  exact ⟨b, stored, inv.next ▸ stored⟩

theorem Mirrors.sessionSome (inv : Mirrors s previous queued st) (shouldEndSession : Bool) :
    ∃ b, st.authorityAssignment.collatorContainerChain (if shouldEndSession then s + 1 else s) = some b ∧
      (sessionCollators shouldEndSession st).mapM (nimbusKeys (if shouldEndSession then queued else previous)) = some b := by
  cases shouldEndSession
  · exact inv.currentSome
  · exact inv.nextSome

theorem Mirrors.orchestratorAuthorities (inv : Mirrors s previous queued st) (distinct : (previous.map (·.1)).Nodup) :
    ∃ authorities, paraIdAuthorities cfg s false cfg.selfParaId st = some authorities ∧
      KeysOf previous st.collatorAssignment.collatorContainerChain.orchestratorChain authorities := by
  obtain ⟨b, stored, mapped⟩ := inv.currentSome
  refine ⟨b.orchestratorChain, by simp [paraIdAuthorities, stored], ?_⟩
  exact keysOfMapM distinct (AssignedCollators.mapMEq mapped).1

theorem Mirrors.containerAuthorities (inv : Mirrors s previous queued st) {paraId : ParaId}
    (container : paraId ≠ cfg.selfParaId) :
    (st.collatorAssignment.collatorContainerChain.containerChains.get paraId = none →
        paraIdAuthorities cfg s false paraId st = none) ∧
      ∀ collators, st.collatorAssignment.collatorContainerChain.containerChains.get paraId = some collators →
        ∃ authorities, paraIdAuthorities cfg s false paraId st = some authorities ∧
          collators.mapM (nimbusKeys previous) = some authorities := by
  obtain ⟨b, stored, mapped⟩ := inv.currentSome
  obtain ⟨missing, found⟩ := AssignedCollators.mapMContainerChains mapped paraId
  have read : paraIdAuthorities cfg s false paraId st = b.containerChains.get paraId := by
    simp [paraIdAuthorities, stored, container]
  rw [read]
  exact ⟨missing, found⟩

theorem Mirrors.sessionSlotAuthors (inv : Mirrors s previous queued st) (shouldEndSession : Bool) {paraId : ParaId}
    (container : paraId ≠ cfg.selfParaId) (slot : Nat) :
    (paraIdAuthorities cfg s shouldEndSession paraId st).bind (slotAuthor slot) =
      (((sessionCollators shouldEndSession st).containerChains.get paraId).bind (slotAuthor slot)).bind
        (nimbusKeys (if shouldEndSession then queued else previous)) := by
  obtain ⟨b, stored, mapped⟩ := inv.sessionSome shouldEndSession
  obtain ⟨missing, found⟩ := AssignedCollators.mapMContainerChains mapped paraId
  have read : paraIdAuthorities cfg s shouldEndSession paraId st = b.containerChains.get paraId := by
    simp [paraIdAuthorities, stored, container]
  rw [read]
  cases chain : (sessionCollators shouldEndSession st).containerChains.get paraId with
  | none => simp [missing chain]
  | some collators =>
    obtain ⟨authorities, answered, keyed⟩ := found collators chain
    rw [answered, Option.bind_some, slotAuthorMapM keyed, Option.bind_some]
    rfl

theorem Mirrors.slotAuthors (inv : Mirrors s previous queued st) {paraId : ParaId} (container : paraId ≠ cfg.selfParaId)
    (slot : Nat) :
    (paraIdAuthorities cfg s false paraId st).bind (slotAuthor slot) =
      (CollatorAssignment.authorForSlot slot paraId st.collatorAssignment).bind (nimbusKeys previous) :=
  inv.sessionSlotAuthors false container slot

theorem paraIdAuthoritiesAtSessionEnd {validators next : List (α × κ)} {st' : State α κ σ}
    (h : applyNewSession (s + 1) validators next st = some st') (paraId : ParaId) :
    paraIdAuthorities cfg s true paraId st = paraIdAuthorities cfg (s + 1) false paraId st' := by
  obtain ⟨-, -, -, assigned⟩ := applyNewSessionOk h
  obtain ⟨b, -, stored⟩ := AuthorityAssignment.assignCollatorsOk assigned
  simp only [Nat.succ_ne_zero, if_false, Nat.add_sub_cancel] at stored
  -- the change drops session `s` and writes session `s + 2`: session `s + 1` stays
  have kept : st'.authorityAssignment.collatorContainerChain (s + 1) =
      st.authorityAssignment.collatorContainerChain (s + 1) := by
    rw [stored, Function.update_of_ne (by omega), Function.update_of_ne (by omega)]
  simp only [paraIdAuthorities, if_true, Bool.false_eq_true, if_false, kept]

end Authorities

/- A genesis to test against: four collators with their keys, the orchestrator chain `1000`
and one container chain `2000`, under the default host configuration. At the change to
session 1 the keys queued for session 2 belong to four other accounts. -/

def sampleConfig : Config Nat Nat (Nat → Nat × Nat) := ⟨⟨fun _ => true, 100, 1000, id, 2, Registrar.balances, 10⟩, 1000⟩

def sampleQueued : List (Nat × Nat) := [(1, 11), (2, 12), (3, 13), (4, 14)]

def sampleNextQueued : List (Nat × Nat) := [(5, 15), (6, 16), (7, 17), (8, 18)]

def sampleRegistrar : Registrar.State Nat (Nat → Nat × Nat) := ⟨[2000], [], [], fun _ => none, fun _ => (50, 0)⟩

def sampleState : State Nat Nat (Nat → Nat × Nat) :=
  (applyNewSession 0 sampleQueued sampleQueued (genesis ⟨default, [], false⟩ sampleRegistrar)).get
    (applyNewSessionSucceeds _ _ _ _)

theorem sampleReachable : Reachable sampleConfig 0 sampleQueued sampleQueued sampleState := by
  have configured : Configuration.build default = some ⟨default, [], false⟩ := rfl
  have registered : Registrar.build sampleConfig.registrar [(2000, 0)] (fun _ => (50, 0)) = some sampleRegistrar := by
    simp [Registrar.build, sampleRegistrar, sampleConfig]
  exact .genesis configured registered (by decide) (Option.some_get _).symm

def sampleSessionOne : State Nat Nat (Nat → Nat × Nat) :=
  (applyNewSession 1 sampleNextQueued sampleNextQueued sampleState).get (applyNewSessionSucceeds _ _ _ _)

theorem sampleSessionOneReachable : Reachable sampleConfig 1 sampleQueued sampleNextQueued sampleSessionOne :=
  .newSession sampleReachable (by decide) (Option.some_get _).symm

theorem authorityAssignmentMirrorsCollatorAssignment {cfg : Config α γ σ} {s : Nat} {previous queued : List (α × κ)}
    {st : State α κ σ} (reach : Reachable cfg s previous queued st) :
    (∀ validators next, (applyNewSession (s + 1) validators next st).isSome) ∧
      (∀ k, (st.authorityAssignment.collatorContainerChain k).isSome ↔ k = s ∨ k = s + 1) ∧
      (∀ validators next st', applyNewSession (s + 1) validators next st = some st' →
        st'.authorityAssignment.collatorContainerChain (s + 2) =
          (assignmentsAt (s + 1) next st).1.nextAssignment.mapM (nimbusKeys next)) ∧
      (∃ authorities, paraIdAuthorities cfg s false cfg.selfParaId st = some authorities ∧
        KeysOf previous st.collatorAssignment.collatorContainerChain.orchestratorChain authorities) ∧
      (∀ paraId, paraId ≠ cfg.selfParaId →
        (st.collatorAssignment.collatorContainerChain.containerChains.get paraId = none →
          paraIdAuthorities cfg s false paraId st = none) ∧
        (∀ collators, st.collatorAssignment.collatorContainerChain.containerChains.get paraId = some collators →
          ∃ authorities, paraIdAuthorities cfg s false paraId st = some authorities ∧ KeysOf previous collators authorities) ∧
        ∀ slot, (paraIdAuthorities cfg s false paraId st).bind (slotAuthor slot) =
          (CollatorAssignment.authorForSlot slot paraId st.collatorAssignment).bind (nimbusKeys previous)) ∧
      ∀ validators next st', applyNewSession (s + 1) validators next st = some st' →
        (∀ paraId, paraIdAuthorities cfg s true paraId st = paraIdAuthorities cfg (s + 1) false paraId st') ∧
        (∃ authorities, paraIdAuthorities cfg s true cfg.selfParaId st = some authorities ∧
          KeysOf queued st'.collatorAssignment.collatorContainerChain.orchestratorChain authorities) ∧
        ∀ paraId, paraId ≠ cfg.selfParaId → ∀ slot,
          (paraIdAuthorities cfg s true paraId st).bind (slotAuthor slot) =
            (CollatorAssignment.authorForSlot slot paraId st'.collatorAssignment).bind (nimbusKeys queued) := by
  have inv := reach.mirrors
  have distinct := reach.queuedDistinct
  refine ⟨fun validators next => applyNewSessionSucceeds (s + 1) validators next st, inv.keys, ?_,
    inv.orchestratorAuthorities distinct.1, fun paraId container => ?_, ?_⟩
  · intro validators next st' applied
    have after := inv.newSession applied
    rw [show s + 2 = s + 1 + 1 from rfl, after.next, readAfterApply applied]
  · obtain ⟨missing, found⟩ := inv.containerAuthorities container
    refine ⟨missing, fun collators chain => ?_, inv.slotAuthors container⟩
    obtain ⟨authorities, answered, mapped⟩ := found collators chain
    exact ⟨authorities, answered, keysOfMapM distinct.1 mapped⟩
  · -- in a session's last block the answer is the next session's, as it is once the session has changed
    intro validators next st' applied
    have after := inv.newSession applied
    have same : ∀ paraId, paraIdAuthorities cfg s true paraId st = paraIdAuthorities cfg (s + 1) false paraId st' :=
      paraIdAuthoritiesAtSessionEnd applied
    refine ⟨same, ?_, fun paraId container slot => ?_⟩
    · rw [same]
      exact after.orchestratorAuthorities distinct.2
    · rw [same]
      exact after.slotAuthors container slot

theorem authorityAssignmentMirrorsSessionOne :
    (∀ validators next, (applyNewSession (1 + 1) validators next sampleSessionOne).isSome) ∧
      (∀ k, (sampleSessionOne.authorityAssignment.collatorContainerChain k).isSome ↔ k = 1 ∨ k = 1 + 1) ∧
      (∀ validators next st', applyNewSession (1 + 1) validators next sampleSessionOne = some st' →
        st'.authorityAssignment.collatorContainerChain (1 + 2) =
          (assignmentsAt (1 + 1) next sampleSessionOne).1.nextAssignment.mapM (nimbusKeys next)) ∧
      (∃ authorities, paraIdAuthorities sampleConfig 1 false sampleConfig.selfParaId sampleSessionOne = some authorities ∧
        KeysOf sampleQueued sampleSessionOne.collatorAssignment.collatorContainerChain.orchestratorChain authorities) ∧
      (∀ paraId, paraId ≠ sampleConfig.selfParaId →
        (sampleSessionOne.collatorAssignment.collatorContainerChain.containerChains.get paraId = none →
          paraIdAuthorities sampleConfig 1 false paraId sampleSessionOne = none) ∧
        (∀ collators, sampleSessionOne.collatorAssignment.collatorContainerChain.containerChains.get paraId = some collators →
          ∃ authorities, paraIdAuthorities sampleConfig 1 false paraId sampleSessionOne = some authorities ∧
            KeysOf sampleQueued collators authorities) ∧
        ∀ slot, (paraIdAuthorities sampleConfig 1 false paraId sampleSessionOne).bind (slotAuthor slot) =
          (CollatorAssignment.authorForSlot slot paraId sampleSessionOne.collatorAssignment).bind (nimbusKeys sampleQueued)) ∧
      ∀ validators next st', applyNewSession (1 + 1) validators next sampleSessionOne = some st' →
        (∀ paraId, paraIdAuthorities sampleConfig 1 true paraId sampleSessionOne =
          paraIdAuthorities sampleConfig (1 + 1) false paraId st') ∧
        (∃ authorities, paraIdAuthorities sampleConfig 1 true sampleConfig.selfParaId sampleSessionOne = some authorities ∧
          KeysOf sampleNextQueued st'.collatorAssignment.collatorContainerChain.orchestratorChain authorities) ∧
        ∀ paraId, paraId ≠ sampleConfig.selfParaId → ∀ slot,
          (paraIdAuthorities sampleConfig 1 true paraId sampleSessionOne).bind (slotAuthor slot) =
            (CollatorAssignment.authorForSlot slot paraId st'.collatorAssignment).bind (nimbusKeys sampleNextQueued) :=
  authorityAssignmentMirrorsCollatorAssignment sampleSessionOneReachable

/- At the change to session 1 the accounts queued for session 2 replace all four collators. In
session 1's last block `para_id_authorities` answers session 2's keys, while `author_for_slot`
reads session 1's collators: in slot 0 the node picks key 17, of account 7, where the
collator assignment picks account 3, of key 13. -/

theorem authorityAssignmentDiffersAtSessionEnd :
    Reachable sampleConfig 1 sampleQueued sampleNextQueued sampleSessionOne ∧
      (paraIdAuthorities sampleConfig 1 true 2000 sampleSessionOne).bind (slotAuthor 0) = some 17 ∧
      (CollatorAssignment.authorForSlot 0 2000 sampleSessionOne.collatorAssignment).bind (nimbusKeys sampleQueued) = some 13 :=
  ⟨sampleSessionOneReachable, by decide +kernel, by decide +kernel⟩

end Tanssi.Runtime
