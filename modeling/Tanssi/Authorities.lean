import Tanssi.Frame
import Tanssi.AssignedCollators

/-! The two pallets that keep nimbus keys by session. `pallet_authority_mapping` keeps,
for each recent session, the account of every validator key. `pallet_authority_assignment`
keeps the collator assignment of the current and of the next session with every account
replaced by its nimbus key, which the `para_id_authorities` runtime API reads. The
replacement indexes a `BTreeMap` of the queued keys, which panics on an account missing
from it: `AssignedCollators::map` is modelled with a closure that may fail, `none` being
the panic. A storage map is a function to `Option`. -/
namespace Tanssi
open Frame

namespace AssignedCollators
variable {α β : Type}

/-- One container chain of `map`: its collators mapped, then inserted into the new map. -/
def insertMapped (f : α → Option β) (m : SortedMap ParaId (List β)) (e : ParaId × List α) :
    Option (SortedMap ParaId (List β)) := do
  let collators ← e.2.mapM f
  pure (m.insert e.1 collators)

/-- `map` with a closure that may panic: the orchestrator chain first, then each container
chain in key order into a new map. -/
def mapM (a : AssignedCollators α) (f : α → Option β) : Option (AssignedCollators β) := do
  let orchestratorChain ← a.orchestratorChain.mapM f
  let containerChains ← a.containerChains.entries.foldlM (insertMapped f) SortedMap.empty
  pure ⟨orchestratorChain, containerChains⟩

section MapM
variable {f : α → Option β}

theorem foldlMIsSome : ∀ {l : List (ParaId × List α)} {m : SortedMap ParaId (List β)},
    (∀ e ∈ l, ∀ x ∈ e.2, (f x).isSome) → (l.foldlM (insertMapped f) m).isSome
  | [], _, _ => rfl
  | e :: rest, m, each => by
    obtain ⟨collators, mapped⟩ := Option.isSome_iff_exists.1 (mapMIsSome (each e List.mem_cons_self))
    have tail := foldlMIsSome (m := m.insert e.1 collators) fun e' listed => each e' (List.mem_cons_of_mem _ listed)
    simpa [insertMapped, mapped] using tail

theorem foldlMGet (p : ParaId) : ∀ {l : List (ParaId × List α)} {m m' : SortedMap ParaId (List β)},
    (l.map Prod.fst).Nodup → l.foldlM (insertMapped f) m = some m' →
      (p ∉ l.map Prod.fst → m'.get p = m.get p) ∧
      ∀ cs, SortedMap.lookupEntry p l = some cs → ∃ cs', m'.get p = some cs' ∧ cs.mapM f = some cs'
  | [], m, m', _, h => by
    obtain rfl : m = m' := Option.some.inj h
    exact ⟨fun _ => rfl, fun cs found => by simp [SortedMap.lookupEntry] at found⟩
  | e :: rest, m, m', distinct, h => by
    rw [List.map_cons, List.nodup_cons] at distinct
    rw [List.foldlM_cons] at h
    obtain ⟨m₁, inserted, h⟩ := Option.bind_eq_some_iff.1 h
    obtain ⟨collators, mapped, written⟩ := Option.bind_eq_some_iff.1 inserted
    obtain rfl : m.insert e.1 collators = m₁ := Option.some.inj written
    obtain ⟨untouched, found⟩ := foldlMGet p distinct.2 h
    by_cases same : e.1 = p
    · subst same
      refine ⟨fun missing => absurd (List.mem_cons_self) missing, fun cs looked => ?_⟩
      simp only [SortedMap.lookupEntry, if_true, Option.some.injEq] at looked
      subst looked
      exact ⟨collators, by rw [untouched distinct.1, SortedMap.getInsertSelf], mapped⟩
    · refine ⟨fun missing => ?_, fun cs looked => ?_⟩
      · rw [untouched fun later => missing (List.mem_cons_of_mem _ later), SortedMap.getInsertNe _ (Ne.symm same)]
      · simp only [SortedMap.lookupEntry, if_neg same] at looked
        exact found cs looked

theorem mapMSucceeds {a : AssignedCollators α} (each : ∀ x ∈ a.assigned, (f x).isSome) : (a.mapM f).isSome := by
  have chains : ∀ e ∈ a.containerChains.entries, ∀ x ∈ e.2, (f x).isSome := fun e listed x inside =>
    each x (List.mem_append_right _ (List.mem_flatten.2 ⟨e.2, List.mem_map.2 ⟨e, listed, rfl⟩, inside⟩))
  obtain ⟨_, orchestrator⟩ :=
    Option.isSome_iff_exists.1 (mapMIsSome fun x listed => each x (List.mem_append_left _ listed))
  obtain ⟨_, containers⟩ := Option.isSome_iff_exists.1 (foldlMIsSome (m := SortedMap.empty) chains)
  simp [mapM, orchestrator, containers]

theorem mapMEq {a : AssignedCollators α} {b : AssignedCollators β} (h : a.mapM f = some b) :
    a.orchestratorChain.mapM f = some b.orchestratorChain ∧
      a.containerChains.entries.foldlM (insertMapped f) SortedMap.empty = some b.containerChains := by
  obtain ⟨orchestratorChain, orchestrator, h⟩ := Option.bind_eq_some_iff.1 h
  obtain ⟨containerChains, containers, built⟩ := Option.bind_eq_some_iff.1 h
  obtain rfl := Option.some.inj built
  exact ⟨orchestrator, containers⟩

theorem mapMContainerChains {a : AssignedCollators α} {b : AssignedCollators β} (h : a.mapM f = some b)
    (p : ParaId) : (a.containerChains.get p = none → b.containerChains.get p = none) ∧
      ∀ cs, a.containerChains.get p = some cs → ∃ cs', b.containerChains.get p = some cs' ∧ cs.mapM f = some cs' := by
  obtain ⟨untouched, found⟩ := foldlMGet p a.containerChains.keysNodup (mapMEq h).2
  exact ⟨fun missing => untouched (SortedMap.getNoneIff.1 missing), found⟩

end MapM

end AssignedCollators

namespace AuthorityMapping
variable {α κ : Type} [LinearOrder κ]

/-- `AuthorityIdMapping`: for a session index, the account of each validator key. -/
structure State (α κ : Type) [LinearOrder κ] where
  authorityIdMapping : Nat → Option (SortedMap κ α)

def initializerOnNewSession (sessionRemovalBoundary sessionIndex : Nat) (authorities : List (α × κ))
    (st : State α κ) : State α κ :=
  -- `checked_sub`: nothing is removed while the index is below the boundary
  let authorityIdMapping := if sessionRemovalBoundary ≤ sessionIndex then
      Function.update st.authorityIdMapping (sessionIndex - sessionRemovalBoundary) none
    else st.authorityIdMapping
  let assignation := SortedMap.ofList (authorities.map fun (a, b) => (b, a))
  ⟨Function.update authorityIdMapping sessionIndex (some assignation)⟩

end AuthorityMapping

namespace AuthorityAssignment
variable {α κ : Type} [LinearOrder α]

/-- `CollatorContainerChain`: for a session index, the assignment of nimbus keys. -/
structure State (κ : Type) where
  collatorContainerChain : Nat → Option (AssignedCollators κ)

/-- `queued_id_to_nimbus_map[account_id]`: the index panics on a missing key. -/
def index (queuedIdToNimbusMap : SortedMap α κ) (accountId : α) : Option κ := queuedIdToNimbusMap.get accountId

def assignCollators (currentSessionIndex : Nat) (queuedIdToNimbusMap : SortedMap α κ)
    (nextCollatorAssignment : AssignedCollators α) (st : State κ) : Option (State κ) := do
  let nextNimbusAssignment ← nextCollatorAssignment.mapM (index queuedIdToNimbusMap)
  -- only applies to session index 0
  if currentSessionIndex = 0 then
    let collatorContainerChain :=
      Function.update st.collatorContainerChain currentSessionIndex (some nextNimbusAssignment)
    pure ⟨Function.update collatorContainerChain (currentSessionIndex + 1) (some nextNimbusAssignment)⟩
  else
    -- remove the value at session - 1, insert the new value at session + 1
    let collatorContainerChain := Function.update st.collatorContainerChain (currentSessionIndex - 1) none
    pure ⟨Function.update collatorContainerChain (currentSessionIndex + 1) (some nextNimbusAssignment)⟩

def initializerOnNewSession (currentSessionIndex : Nat) (queuedIdToNimbusMap : SortedMap α κ)
    (nextCollatorAssignment : AssignedCollators α) (st : State κ) : Option (State κ) :=
  assignCollators currentSessionIndex queuedIdToNimbusMap nextCollatorAssignment st

section Steps
variable {s : Nat} {queuedIdToNimbusMap : SortedMap α κ} {next : AssignedCollators α} {st st' : State κ}

theorem assignCollatorsSucceeds (keyed : ∀ x ∈ next.assigned, x ∈ queuedIdToNimbusMap.keys) :
    (assignCollators s queuedIdToNimbusMap next st).isSome := by
  have mapped := AssignedCollators.mapMSucceeds (f := index queuedIdToNimbusMap) fun x listed =>
    Option.isSome_iff_exists.2 (SortedMap.memKeys.1 (keyed x listed))
  obtain ⟨b, found⟩ := Option.isSome_iff_exists.1 mapped
  unfold assignCollators
  split <;> simp [found]

theorem assignCollatorsOk (h : assignCollators s queuedIdToNimbusMap next st = some st') :
    ∃ b, next.mapM (index queuedIdToNimbusMap) = some b ∧
      st'.collatorContainerChain = if s = 0 then
          Function.update (Function.update st.collatorContainerChain 0 (some b)) 1 (some b)
        else Function.update (Function.update st.collatorContainerChain (s - 1) none) (s + 1) (some b) := by
  obtain ⟨b, found, h⟩ := Option.bind_eq_some_iff.1 h
  refine ⟨b, found, ?_⟩
  split at h
  · rename_i zero
    subst zero
    obtain rfl := Option.some.inj h
    rfl
  · rename_i positive
    obtain rfl := Option.some.inj h
    simp [positive]

end Steps

end AuthorityAssignment

end Tanssi
