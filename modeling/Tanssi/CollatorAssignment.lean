import Tanssi.AssignedCollators

/-! `pallet_collator_assignment`. Each session change computes the assignment for the
next session from the pending one (or the current one), keeping old collators where
they are, and stores it one session ahead. The container chains and the host
configuration of the target session come from the `GetSessionContainerChains` and
`GetHostConfiguration` traits, which a step receives as functions of the session
index; they may answer anything. Weight registration is left out. -/
namespace Tanssi.CollatorAssignment
open scoped List
open AssignedCollators

variable {α : Type} [DecidableEq α]

def assignCollatorsAlwaysKeepOld (collators : List α) (containerChainIds : List ParaId)
    (minNumOrchestratorChain maxNumOrchestratorChain numEachContainerChain : Nat)
    (oldAssigned : AssignedCollators α) : AssignedCollators α :=
  let kept := (oldAssigned.removeCollatorsNotInList collators).removeContainerChainsNotInList containerChainIds
  let split := kept.removeOrchestratorChainExcessCollators minNumOrchestratorChain
  let extraOrchestratorCollators := split.2
  let truncated := split.1.removeContainerChainExcessCollators numEachContainerChain
  -- collators that are not present in the old assignment
  let newCollators := collators.filter (fun c => !truncated.findCollator c && !extraOrchestratorCollators.contains c)
  let toMin := truncated.fillOrchestratorChainCollators minNumOrchestratorChain Drain.vec newCollators
  -- `new_collators.by_ref().chain(&mut extra_orchestrator_collators)`
  let toChains := (toMin.1.addNewContainerChains containerChainIds).fillContainerChainCollators
    numEachContainerChain Drain.chain (toMin.2,extraOrchestratorCollators)
  -- `extra_orchestrator_collators.by_ref().chain(&mut new_collators)`
  let toMax := toChains.1.fillOrchestratorChainCollators maxNumOrchestratorChain Drain.chain
    (toChains.2.2,toChains.2.1)
  let reorganized := toMax.1.reorganizeIncompleteContainerChainsCollators numEachContainerChain
  (reorganized.1.fillOrchestratorChainCollators maxNumOrchestratorChain Drain.vec reorganized.2).1

theorem keepOldPasses (collators : List α) (ids : List ParaId) (minN maxN numEach : Nat)
    (old : AssignedCollators α) :
    ∃ (split : AssignedCollators α × List α) (newCollators : List α) (toMin : AssignedCollators α × List α)
      (toChains toMax : AssignedCollators α × List α × List α) (reorganized : AssignedCollators α × List α),
      split = ((old.removeCollatorsNotInList collators).removeContainerChainsNotInList ids).removeOrchestratorChainExcessCollators
        minN ∧
      newCollators = collators.filter (fun c => !(split.1.removeContainerChainExcessCollators numEach).findCollator c &&
        !split.2.contains c) ∧
      toMin = (split.1.removeContainerChainExcessCollators numEach).fillOrchestratorChainCollators minN Drain.vec
        newCollators ∧
      toChains = (toMin.1.addNewContainerChains ids).fillContainerChainCollators numEach Drain.chain (toMin.2,split.2) ∧
      toMax = toChains.1.fillOrchestratorChainCollators maxN Drain.chain (toChains.2.2,toChains.2.1) ∧
      reorganized = toMax.1.reorganizeIncompleteContainerChainsCollators numEach ∧
      assignCollatorsAlwaysKeepOld collators ids minN maxN numEach old =
        (reorganized.1.fillOrchestratorChainCollators maxN Drain.vec reorganized.2).1 :=
  ⟨_,_,_,_,_,_,rfl,rfl,rfl,rfl,rfl,rfl,rfl⟩

/- The new assignment is built from three disjoint sources: what is kept of the old
one, the orchestrator collators split off above the minimum, and the new collators.
Every pass only moves collators between the assignment and the iterators. -/

theorem keepOldMovesExact (collators : List α) (ids : List ParaId) (minN maxN numEach : Nat)
    (old : AssignedCollators α) :
    let split := ((old.removeCollatorsNotInList collators).removeContainerChainsNotInList ids).removeOrchestratorChainExcessCollators minN
    let truncated := split.1.removeContainerChainExcessCollators numEach
    let newCollators := collators.filter (fun c => !truncated.findCollator c && !split.2.contains c)
    let toMin := truncated.fillOrchestratorChainCollators minN Drain.vec newCollators
    let toChains := (toMin.1.addNewContainerChains ids).fillContainerChainCollators numEach Drain.chain (toMin.2,split.2)
    let toMax := toChains.1.fillOrchestratorChainCollators maxN Drain.chain (toChains.2.2,toChains.2.1)
    let reorganized := toMax.1.reorganizeIncompleteContainerChainsCollators numEach
    let final := reorganized.1.fillOrchestratorChainCollators maxN Drain.vec reorganized.2
    final.1.assigned ++ (final.2 ++ toMax.2.1 ++ toMax.2.2) ~ truncated.assigned ++ newCollators ++ split.2 := by
  intro split truncated newCollators toMin toChains toMax reorganized final
  let added := toMin.1.addNewContainerChains ids
  have e1 : toMin.1.assigned ++ Drain.vec.rest toMin.2 ~ truncated.assigned ++ Drain.vec.rest newCollators :=
    truncated.fillOrchestratorChainCollatorsMoves minN Drain.vec newCollators
  have e2 : added.assigned ~ toMin.1.assigned := toMin.1.addNewContainerChainsPerm ids
  have e3 : toChains.1.assigned ++ Drain.chain.rest toChains.2 ~ added.assigned ++ Drain.chain.rest (toMin.2,split.2) :=
    added.fillContainerChainCollatorsMoves numEach Drain.chain (toMin.2,split.2)
  have e4 : toMax.1.assigned ++ Drain.chain.rest toMax.2 ~
      toChains.1.assigned ++ Drain.chain.rest (toChains.2.2,toChains.2.1) :=
    toChains.1.fillOrchestratorChainCollatorsMoves maxN Drain.chain (toChains.2.2,toChains.2.1)
  have e5 : reorganized.1.assigned ++ reorganized.2 ~ toMax.1.assigned := toMax.1.reorganizeConserves numEach
  have e6 : final.1.assigned ++ Drain.vec.rest final.2 ~ reorganized.1.assigned ++ Drain.vec.rest reorganized.2 :=
    reorganized.1.fillOrchestratorChainCollatorsMoves maxN Drain.vec reorganized.2
  -- chain the six moves: compare the count of every collator
  rw [List.perm_iff_count] at *
  intro x
  have c1 := e1 x; have c2 := e2 x; have c3 := e3 x; have c4 := e4 x; have c5 := e5 x; have c6 := e6 x
  simp only [Drain.vecRest, Drain.chainRest, List.count_append] at c1 c2 c3 c4 c5 c6 ⊢
  omega

theorem keepOldMoves (collators : List α) (ids : List ParaId) (minN maxN numEach : Nat)
    (old : AssignedCollators α) :
    let split := ((old.removeCollatorsNotInList collators).removeContainerChainsNotInList ids).removeOrchestratorChainExcessCollators minN
    let truncated := split.1.removeContainerChainExcessCollators numEach
    let newCollators := collators.filter (fun c => !truncated.findCollator c && !split.2.contains c)
    ∃ junk, (assignCollatorsAlwaysKeepOld collators ids minN maxN numEach old).assigned ++ junk ~
      truncated.assigned ++ newCollators ++ split.2 :=
  ⟨_,keepOldMovesExact collators ids minN maxN numEach old⟩

theorem keepOldSourcesNodup (collators : List α) (ids : List ParaId) (minN numEach : Nat)
    (old : AssignedCollators α) (hc : collators.Nodup) (ho : old.assigned.Nodup) :
    let split := ((old.removeCollatorsNotInList collators).removeContainerChainsNotInList ids).removeOrchestratorChainExcessCollators minN
    let truncated := split.1.removeContainerChainExcessCollators numEach
    let newCollators := collators.filter (fun c => !truncated.findCollator c && !split.2.contains c)
    (truncated.assigned ++ newCollators ++ split.2).Nodup := by
  intro split truncated newCollators
  let removed := old.removeCollatorsNotInList collators
  have old' : (truncated.assigned ++ split.2).Nodup := by
    have s1 : removed.assigned.Sublist old.assigned := old.removeCollatorsNotInListSublist collators
    have s2 := removed.removeContainerChainsNotInListSublist ids
    have p3 := (removed.removeContainerChainsNotInList ids).removeOrchestratorChainExcessCollatorsPerm minN
    have s4 : truncated.assigned.Sublist split.1.assigned := split.1.removeContainerChainExcessCollatorsSublist numEach
    exact (s4.append (List.Sublist.refl _)).nodup (p3.nodup_iff.mpr (s2.nodup (s1.nodup ho)))
  have fresh : ∀ x ∈ truncated.assigned ++ split.2, ∀ y ∈ newCollators, x ≠ y := by
    rintro x hx y hy rfl
    obtain ⟨-,notFound⟩ := List.mem_filter.mp hy
    simp only [Bool.and_eq_true, Bool.not_eq_eq_eq_not, Bool.not_true] at notFound
    rcases List.mem_append.mp hx with inTruncated | inSplit
    · have found := (truncated.findCollatorIff x).mpr inTruncated
      rw [notFound.1] at found
      exact Bool.false_ne_true found
    · exact absurd inSplit (by simpa using notFound.2)
  have nodup := List.nodup_append.mpr ⟨old',hc.filter _,fresh⟩
  refine (List.Perm.nodup_iff ?_).mp nodup
  simp only [List.append_assoc]
  exact List.perm_append_comm.append_left _

theorem keepOldSourcesSubset (collators : List α) (ids : List ParaId) (minN numEach : Nat)
    (old : AssignedCollators α) :
    let split := ((old.removeCollatorsNotInList collators).removeContainerChainsNotInList ids).removeOrchestratorChainExcessCollators minN
    let truncated := split.1.removeContainerChainExcessCollators numEach
    let newCollators := collators.filter (fun c => !truncated.findCollator c && !split.2.contains c)
    ∀ x ∈ truncated.assigned ++ newCollators ++ split.2, x ∈ collators := by
  intro split truncated newCollators x hx
  let removed := old.removeCollatorsNotInList collators
  have kept : ∀ y ∈ truncated.assigned ++ split.2, y ∈ removed.assigned := by
    intro y hy
    have s2 := removed.removeContainerChainsNotInListSublist ids
    have p3 := (removed.removeContainerChainsNotInList ids).removeOrchestratorChainExcessCollatorsPerm minN
    have s4 : truncated.assigned.Sublist split.1.assigned := split.1.removeContainerChainExcessCollatorsSublist numEach
    exact s2.subset (p3.subset ((s4.append (List.Sublist.refl _)).subset hy))
  simp only [List.mem_append] at hx
  rcases hx with (inTruncated | inNew) | inSplit
  · exact memRemoveCollatorsNotInList (kept x (List.mem_append_left _ inTruncated))
  · exact (List.mem_filter.mp inNew).1
  · exact memRemoveCollatorsNotInList (kept x (List.mem_append_right _ inSplit))

theorem keepOldSourcesCover (collators : List α) (ids : List ParaId) (minN numEach : Nat)
    (old : AssignedCollators α) :
    let split := ((old.removeCollatorsNotInList collators).removeContainerChainsNotInList ids).removeOrchestratorChainExcessCollators minN
    let truncated := split.1.removeContainerChainExcessCollators numEach
    let newCollators := collators.filter (fun c => !truncated.findCollator c && !split.2.contains c)
    ∀ x ∈ collators, x ∈ truncated.assigned ++ newCollators ++ split.2 := by
  intro split truncated newCollators x hx
  by_cases found : truncated.findCollator x = true
  · exact List.mem_append_left _ (List.mem_append_left _ ((truncated.findCollatorIff x).mp found))
  by_cases extra : x ∈ split.2
  · exact List.mem_append_right _ extra
  · refine List.mem_append_left _ (List.mem_append_right _ (List.mem_filter.mpr ⟨hx,?_⟩))
    simp [found, extra]

theorem assignCollatorsAlwaysKeepOldNodup (collators : List α) (ids : List ParaId) (minN maxN numEach : Nat)
    (old : AssignedCollators α) (hc : collators.Nodup) (ho : old.assigned.Nodup) :
    (assignCollatorsAlwaysKeepOld collators ids minN maxN numEach old).assigned.Nodup := by
  obtain ⟨junk,moves⟩ := keepOldMoves collators ids minN maxN numEach old
  exact (moves.nodup_iff.mpr (keepOldSourcesNodup collators ids minN numEach old hc ho)).of_append_left

theorem assignCollatorsAlwaysKeepOldSubset (collators : List α) (ids : List ParaId) (minN maxN numEach : Nat)
    (old : AssignedCollators α) {x : α} (hx : x ∈ (assignCollatorsAlwaysKeepOld collators ids minN maxN numEach old).assigned) :
    x ∈ collators := by
  obtain ⟨junk,moves⟩ := keepOldMoves collators ids minN maxN numEach old
  exact keepOldSourcesSubset collators ids minN numEach old x (moves.subset (List.mem_append_left _ hx))

/-- What `T::HostConfiguration` and `T::ContainerChains` answer for a session index. -/
structure Traits where
  sessionContainerChains : Nat → List ParaId
  minCollatorsForOrchestrator : Nat → Nat
  maxCollatorsForOrchestrator : Nat → Nat
  collatorsPerContainer : Nat → Nat

structure State (α : Type) where
  collatorContainerChain : AssignedCollators α
  pendingCollatorContainerChain : Option (AssignedCollators α)
  deriving DecidableEq

instance : Inhabited (State α) := ⟨⟨default,none⟩⟩

structure SessionChangeOutcome (α : Type) where
  activeAssignment : AssignedCollators α
  nextAssignment : AssignedCollators α
  deriving DecidableEq

def readAssignedCollators (st : State α) : AssignedCollators α :=
  match st.pendingCollatorContainerChain with
  | some assignedCollators => assignedCollators
  | none => st.collatorContainerChain

def assignCollators (t : Traits) (currentSessionIndex : Nat) (collators : List α) (st : State α) :
    SessionChangeOutcome α × State α :=
  let sessionDelay := 1
  let targetSessionIndex := currentSessionIndex + sessionDelay
  let containerChainIds := t.sessionContainerChains targetSessionIndex
  let oldAssigned := readAssignedCollators st
  let newAssigned := assignCollatorsAlwaysKeepOld collators containerChainIds
    (t.minCollatorsForOrchestrator targetSessionIndex) (t.maxCollatorsForOrchestrator targetSessionIndex)
    (t.collatorsPerContainer targetSessionIndex) oldAssigned
  let oldAssignedChanged := oldAssigned != newAssigned
  -- `pending.take()` moves a pending assignment into `CollatorContainerChain`
  let taken : AssignedCollators α × Option (AssignedCollators α) × Bool :=
    match st.pendingCollatorContainerChain with
    | some current => (current,none,true)
    | none => (st.collatorContainerChain,none,false)
  let pending := if oldAssignedChanged then some newAssigned else taken.2.1
  let pendingChanged := oldAssignedChanged || taken.2.2
  let st' : State α :=
    { collatorContainerChain := taken.1
      pendingCollatorContainerChain := if pendingChanged then pending else st.pendingCollatorContainerChain }
  -- only applies to session index 0
  if currentSessionIndex = 0 then
    (⟨newAssigned,newAssigned⟩,{ st' with collatorContainerChain := newAssigned })
  else (⟨oldAssigned,newAssigned⟩,st')

def initializerOnNewSession (t : Traits) (sessionIndex : Nat) (collators : List α) (st : State α) :
    SessionChangeOutcome α × State α :=
  assignCollators t sessionIndex collators st

/-- `GetContainerChainAuthor::author_for_slot`: the collator whose turn the slot is among
those `CollatorContainerChain` assigns to the container chain. -/
def authorForSlot (slot : Nat) (paraId : ParaId) (st : State α) : Option α := do
  let collators ← st.collatorContainerChain.containerChains.get paraId
  -- avoid division by zero below
  if collators.isEmpty then none
  else collators[slot % collators.length]?

def run (st : State α) : List (Nat × Traits × List α) → List (SessionChangeOutcome α × State α)
  | [] => []
  | (s,t,cs) :: rest =>
    let r := initializerOnNewSession t s cs st
    r :: run r.2 rest

def sessionsFrom (s : Nat) : List (Traits × List α) → List (Nat × Traits × List α)
  | [] => []
  | (t,cs) :: rest => (s,t,cs) :: sessionsFrom (s + 1) rest

theorem assignCollatorsTraits {t t' : Traits} {currentSessionIndex : Nat} {collators : List α} {st : State α}
    (chains : t.sessionContainerChains (currentSessionIndex + 1) = t'.sessionContainerChains (currentSessionIndex + 1))
    (least : t.minCollatorsForOrchestrator (currentSessionIndex + 1) =
      t'.minCollatorsForOrchestrator (currentSessionIndex + 1))
    (most : t.maxCollatorsForOrchestrator (currentSessionIndex + 1) =
      t'.maxCollatorsForOrchestrator (currentSessionIndex + 1))
    (perContainer : t.collatorsPerContainer (currentSessionIndex + 1) = t'.collatorsPerContainer (currentSessionIndex + 1)) :
    assignCollators t currentSessionIndex collators st = assignCollators t' currentSessionIndex collators st := by
  simp only [assignCollators, chains, least, most, perContainer]

/- One session change, said once: the stored assignment becomes the returned active
one, the pending slot holds the new assignment exactly when it differs from the one
read, and from session 1 on the active assignment is the one read. -/

section Step
variable (t : Traits) (s : Nat) (cs : List α) (st : State α)

theorem initializerOnNewSessionEq :
    initializerOnNewSession t s cs st =
      let old := readAssignedCollators st
      let new := assignCollatorsAlwaysKeepOld cs (t.sessionContainerChains (s + 1))
        (t.minCollatorsForOrchestrator (s + 1)) (t.maxCollatorsForOrchestrator (s + 1))
        (t.collatorsPerContainer (s + 1)) old
      let pending := if old = new then none else some new
      if s = 0 then (⟨new,new⟩,⟨new,pending⟩) else (⟨old,new⟩,⟨old,pending⟩) := by
  unfold initializerOnNewSession assignCollators readAssignedCollators
  cases h : st.pendingCollatorContainerChain <;> by_cases zero : s = 0 <;> simp [zero]

theorem nextAssignmentEq :
    (initializerOnNewSession t s cs st).1.nextAssignment =
      assignCollatorsAlwaysKeepOld cs (t.sessionContainerChains (s + 1)) (t.minCollatorsForOrchestrator (s + 1))
        (t.maxCollatorsForOrchestrator (s + 1)) (t.collatorsPerContainer (s + 1)) (readAssignedCollators st) := by
  rw [initializerOnNewSessionEq]
  split <;> rfl

theorem activeStored :
    (initializerOnNewSession t s cs st).2.collatorContainerChain = (initializerOnNewSession t s cs st).1.activeAssignment := by
  rw [initializerOnNewSessionEq]
  split <;> rfl

theorem pendingAfter :
    (initializerOnNewSession t s cs st).2.pendingCollatorContainerChain = none ∨
      (initializerOnNewSession t s cs st).2.pendingCollatorContainerChain =
        some (initializerOnNewSession t s cs st).1.nextAssignment := by
  rw [initializerOnNewSessionEq]
  split <;> dsimp only <;> split <;> simp

theorem readAfter :
    readAssignedCollators (initializerOnNewSession t s cs st).2 = (initializerOnNewSession t s cs st).1.nextAssignment := by
  rw [initializerOnNewSessionEq]
  dsimp only
  split
  · split <;> rfl
  · split
    · rename_i same
      exact same
    · rfl

theorem activeRead (positive : s ≠ 0) :
    (initializerOnNewSession t s cs st).1.activeAssignment = readAssignedCollators st := by
  rw [initializerOnNewSessionEq]
  simp [positive]

theorem activeAtZero :
    (initializerOnNewSession t 0 cs st).1.activeAssignment = (initializerOnNewSession t 0 cs st).1.nextAssignment := by
  rw [initializerOnNewSessionEq]
  rfl

theorem activeReadOrNext :
    (initializerOnNewSession t s cs st).1.activeAssignment = readAssignedCollators st ∨
      (initializerOnNewSession t s cs st).1.activeAssignment = (initializerOnNewSession t s cs st).1.nextAssignment := by
  rw [initializerOnNewSessionEq]
  split
  · exact .inr rfl
  · exact .inl rfl

end Step

/- No collator is assigned twice: the assignment read at a session change has no
duplicate, the new one is built from it and from a duplicate-free collator list, and
only these two are ever stored. -/

def NoDuplicates (st : State α) : Prop :=
  st.collatorContainerChain.assigned.Nodup ∧ ∀ p, st.pendingCollatorContainerChain = some p → p.assigned.Nodup

omit [DecidableEq α] in
theorem readNodup {st : State α} (h : NoDuplicates st) : (readAssignedCollators st).assigned.Nodup := by
  unfold readAssignedCollators
  split
  · rename_i p hp
    exact h.2 p hp
  · exact h.1

theorem nextNodup (t : Traits) (s : Nat) {cs : List α} {st : State α} (h : NoDuplicates st) (hcs : cs.Nodup) :
    (initializerOnNewSession t s cs st).1.nextAssignment.assigned.Nodup := by
  rw [nextAssignmentEq]
  exact assignCollatorsAlwaysKeepOldNodup _ _ _ _ _ _ hcs (readNodup h)

theorem stepNoDuplicates (t : Traits) (s : Nat) {cs : List α} {st : State α} (h : NoDuplicates st) (hcs : cs.Nodup) :
    NoDuplicates (initializerOnNewSession t s cs st).2 := by
  have next := nextNodup t s h hcs
  refine ⟨?_,?_⟩
  · rw [activeStored]
    rcases activeReadOrNext t s cs st with same | same <;> rw [same]
    · exact readNodup h
    · exact next
  · intro p hp
    rcases pendingAfter t s cs st with none | some
    · rw [none] at hp; cases hp
    · rw [some] at hp; cases hp; exact next

theorem nextFromCollators (t : Traits) (s : Nat) (cs : List α) (st : State α) {x : α}
    (hx : x ∈ (initializerOnNewSession t s cs st).1.nextAssignment.assigned) : x ∈ cs := by
  rw [nextAssignmentEq] at hx
  exact assignCollatorsAlwaysKeepOldSubset _ _ _ _ _ _ hx

theorem runNoDuplicates {st : State α} (h : NoDuplicates st) :
    ∀ (steps : List (Nat × Traits × List α)), (∀ step ∈ steps, step.2.2.Nodup) →
      ∀ r ∈ (run st steps).zip steps,
        NoDuplicates r.1.2 ∧ ∀ x ∈ r.1.1.nextAssignment.assigned, x ∈ r.2.2.2
  | [], _ => by simp [run]
  | (s,t,cs) :: rest, hcs => by
    have hHead : cs.Nodup := hcs (s,t,cs) List.mem_cons_self
    have after := stepNoDuplicates t s h hHead
    intro r hr
    simp only [run, List.zip_cons_cons, List.mem_cons] at hr
    rcases hr with rfl | inRest
    · exact ⟨after,fun x hx => nextFromCollators t s cs st hx⟩
    · exact runNoDuplicates after rest (fun step hs => hcs step (List.mem_cons_of_mem _ hs)) r inRest

theorem collatorAssignmentNoDuplicates (steps : List (Nat × Traits × List α))
    (hcs : ∀ step ∈ steps, step.2.2.Nodup) :
    ∀ r ∈ (run default steps).zip steps,
      (r.1.2.collatorContainerChain.assigned.Nodup ∧
        ∀ p, r.1.2.pendingCollatorContainerChain = some p → p.assigned.Nodup) ∧
      ∀ x ∈ r.1.1.nextAssignment.assigned, x ∈ r.2.2.2 :=
  runNoDuplicates (show NoDuplicates (default : State α) from ⟨List.nodup_nil,fun p hp => by cases hp⟩) steps hcs

def twoSessions : List (Nat × Traits × List Nat) :=
  [(0,⟨fun _ => [2000,2001],fun _ => 1,fun _ => 2,fun _ => 1⟩,[1,2,3,4]),
   (1,⟨fun _ => [2001],fun _ => 2,fun _ => 2,fun _ => 2⟩,[4,3,5])]

theorem collatorAssignmentNoDuplicatesTwoSessions :
    (∀ step ∈ twoSessions, step.2.2.Nodup) ∧
    ∀ r ∈ (run default twoSessions).zip twoSessions,
      (r.1.2.collatorContainerChain.assigned.Nodup ∧
        ∀ p, r.1.2.pendingCollatorContainerChain = some p → p.assigned.Nodup) ∧
      ∀ x ∈ r.1.1.nextAssignment.assigned, x ∈ r.2.2.2 :=
  ⟨by decide,collatorAssignmentNoDuplicates twoSessions (by decide)⟩

/- The one-session delay: over consecutive session changes the stored assignment is
the returned active one, and what is announced as next is what becomes active. -/

theorem runStored (st : State α) :
    ∀ (steps : List (Nat × Traits × List α)), ∀ r ∈ run st steps, r.2.collatorContainerChain = r.1.activeAssignment
  | [] => by simp [run]
  | (s,t,cs) :: rest => by
    intro r hr
    simp only [run, List.mem_cons] at hr
    rcases hr with rfl | inRest
    · exact activeStored t s cs st
    · exact runStored _ rest r inRest

theorem runAnnounced (st : State α) (s : Nat) :
    ∀ (inputs : List (Traits × List α)),
      ∀ p ∈ (run st (sessionsFrom s inputs)).zip (run st (sessionsFrom s inputs)).tail,
        p.1.1.nextAssignment = p.2.1.activeAssignment
  | [] => by simp [sessionsFrom, run]
  | (t,cs) :: rest => by
    intro p hp
    cases rest with
    | nil => simp [sessionsFrom, run] at hp
    | cons next rest =>
      obtain ⟨t',cs'⟩ := next
      simp only [sessionsFrom, run, List.tail_cons, List.zip_cons_cons, List.mem_cons] at hp
      rcases hp with rfl | later
      · rw [activeRead t' (s + 1) cs' _ (Nat.succ_ne_zero s), readAfter]
      · have ih := runAnnounced (initializerOnNewSession t s cs st).2 (s + 1) ((t',cs') :: rest)
        simp only [sessionsFrom, run, List.tail_cons] at ih
        exact ih p later

theorem oneSessionDelay (st : State α) (inputs : List (Traits × List α)) :
    (∀ r ∈ run st (sessionsFrom 0 inputs), r.2.collatorContainerChain = r.1.activeAssignment) ∧
    ∀ p ∈ (run st (sessionsFrom 0 inputs)).zip (run st (sessionsFrom 0 inputs)).tail,
      p.1.1.nextAssignment = p.2.1.activeAssignment :=
  ⟨runStored st _,runAnnounced st 0 inputs⟩

end Tanssi.CollatorAssignment
