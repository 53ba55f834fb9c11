import Tanssi.CollatorAssignment

/-! The shape of what `assign_collators_always_keep_old` returns. The container chains are
exactly the registered ones, each served by no collator or by a full set, and the
orchestrator chain holds at most its maximum; a collator is left out only when the
orchestrator chain is full. Old collators keep their place: a full chain whose collators
all stay keeps its list, and the orchestrator chain keeps its first collators up to the
minimum. Each result follows the value through the passes named by `keepOldPasses`.

Two things the doc comments promise do not hold. Running the assignment again on its own
result may move a collator ("If there are no missing collators, nothing is changed"), and
after the minimum of the orchestrator chain is raised it may stay below it, though spare
collators serve a container chain ("First, it aims at filling the necessary collators to
serve the orchestrator chain"). -/
namespace Tanssi.CollatorAssignment
open scoped List
open AssignedCollators

variable {α ι : Type} [DecidableEq α]

def ChainsAtMost (num : Nat) (a : AssignedCollators α) : Prop :=
  ∀ k v, a.containerChains.get k = some v → v.length ≤ num

omit [DecidableEq α] in
theorem truncatedAtMost (a : AssignedCollators α) (num : Nat) :
    ChainsAtMost num (a.removeContainerChainExcessCollators num) := by
  intro k v found
  rw [getRemoveContainerChainExcessCollators] at found
  obtain ⟨old,-,rfl⟩ := Option.map_eq_some_iff.mp found
  exact List.length_take_le _ _

omit [DecidableEq α] in
theorem addNewAtMost {a : AssignedCollators α} {num : Nat} (h : ChainsAtMost num a) (ids : List ParaId) :
    ChainsAtMost num (a.addNewContainerChains ids) := by
  intro k v found
  rcases getAddNewContainerChains found with old | rfl
  · exact h k v old
  · exact Nat.zero_le _

omit [DecidableEq α] in
theorem fillContainerAtMost {a : AssignedCollators α} {num : Nat} (h : ChainsAtMost num a) (it : Drain ι α) (i : ι) :
    ChainsAtMost num (a.fillContainerChainCollators num it i).1 := by
  intro k w found
  obtain ⟨v,old,rfl | ⟨j,rfl⟩⟩ := getFillContainerChainCollators found
  · exact h k _ old
  · have filled := it.fillToLength num v j
    have before := h k v old
    omega

omit [DecidableEq α] in
theorem fillContainerKeepsFull {a : AssignedCollators α} {num : Nat} {k : ParaId} {v : List α}
    (found : a.containerChains.get k = some v) (full : num ≤ v.length) (it : Drain ι α) (i : ι) :
    (a.fillContainerChainCollators num it i).1.containerChains.get k = some v := by
  have present : k ∈ (a.fillContainerChainCollators num it i).1.containerChains.keys := by
    rw [fillContainerChainCollatorsKeys, SortedMap.memKeys]
    exact ⟨v,found⟩
  obtain ⟨w,filled⟩ := SortedMap.memKeys.mp present
  obtain ⟨v',old,same | ⟨j,refilled⟩⟩ := getFillContainerChainCollators filled
  all_goals rw [found] at old; cases old
  · rw [filled, same]
  · rw [filled, ← refilled, Drain.fillToFull it full j]

/- The three parts of the shape, each followed through the passes. -/

theorem memKeysKeepOld (collators : List α) (ids : List ParaId) (minN maxN numEach : Nat)
    (old : AssignedCollators α) (p : ParaId) :
    p ∈ (assignCollatorsAlwaysKeepOld collators ids minN maxN numEach old).containerChains.keys ↔ p ∈ ids := by
  obtain ⟨split,newCollators,toMin,toChains,toMax,reorganized,hSplit,-,hMin,hChains,hMax,hReorg,final⟩ :=
    keepOldPasses collators ids minN maxN numEach old
  have splitKeys : p ∈ split.1.containerChains.keys → p ∈ ids := by
    rw [hSplit, removeOrchestratorChainExcessCollatorsChains, SortedMap.memKeys]
    rintro ⟨v,found⟩
    exact (getRemoveContainerChainsNotInList.mp found).2
  rw [final, fillOrchestratorChainCollatorsChains, hReorg, memKeysReorganize, hMax, fillOrchestratorChainCollatorsChains,
    hChains, fillContainerChainCollatorsKeys, memKeysAddNewContainerChains, hMin, fillOrchestratorChainCollatorsChains,
    removeContainerChainExcessCollatorsKeys]
  exact ⟨fun mem => mem.elim id splitKeys,.inl⟩

theorem keepOldPacked (collators : List α) (ids : List ParaId) (minN maxN numEach : Nat)
    (old : AssignedCollators α) {p : ParaId} {cs : List α}
    (found : (assignCollatorsAlwaysKeepOld collators ids minN maxN numEach old).containerChains.get p = some cs) :
    cs.length = 0 ∨ cs.length = numEach := by
  obtain ⟨split,newCollators,toMin,toChains,toMax,reorganized,-,-,hMin,hChains,hMax,hReorg,final⟩ :=
    keepOldPasses collators ids minN maxN numEach old
  have atMin : ChainsAtMost numEach toMin.1 := by
    rw [hMin]
    exact truncatedAtMost split.1 numEach
  have atMax : ChainsAtMost numEach toMax.1 := by
    rw [hMax, hChains]
    exact fillContainerAtMost (addNewAtMost atMin ids) _ _
  rw [final, fillOrchestratorChainCollatorsChains, hReorg] at found
  exact reorganizePacked atMax found

theorem keepOldOrchestratorAtMost (collators : List α) (ids : List ParaId) {minN maxN : Nat} (numEach : Nat)
    (old : AssignedCollators α) (le : minN ≤ maxN) :
    (assignCollatorsAlwaysKeepOld collators ids minN maxN numEach old).orchestratorChain.length ≤ maxN := by
  obtain ⟨split,newCollators,toMin,toChains,toMax,reorganized,hSplit,-,hMin,hChains,hMax,hReorg,final⟩ :=
    keepOldPasses collators ids minN maxN numEach old
  have atSplit : split.1.orchestratorChain.length ≤ minN := by
    rw [hSplit, removeOrchestratorChainExcessCollatorsOrchestrator]
    exact List.length_take_le _ _
  have atMin : toMin.1.orchestratorChain.length ≤ minN := by
    have filled := Drain.vec.fillToLength minN split.1.orchestratorChain newCollators
    rw [hMin, fillOrchestratorChainCollatorsOrchestrator, removeContainerChainExcessCollatorsOrchestrator]
    omega
  have atMax : toMax.1.orchestratorChain.length ≤ maxN := by
    have carried : toChains.1.orchestratorChain = toMin.1.orchestratorChain := by
      rw [hChains, fillContainerChainCollatorsOrchestrator, addNewContainerChainsOrchestrator]
    have filled := Drain.chain.fillToLength maxN toChains.1.orchestratorChain (toChains.2.2,toChains.2.1)
    rw [hMax, fillOrchestratorChainCollatorsOrchestrator]
    rw [carried] at filled ⊢
    omega
  have filled := Drain.vec.fillToLength maxN reorganized.1.orchestratorChain reorganized.2
  rw [hReorg, reorganizeIncompleteContainerChainsCollatorsOrchestrator] at filled
  rw [final, fillOrchestratorChainCollatorsOrchestrator, hReorg, reorganizeIncompleteContainerChainsCollatorsOrchestrator]
  omega

theorem assignCollatorsAlwaysKeepOldShape (collators : List α) (ids : List ParaId) (minN maxN numEach : Nat)
    (old : AssignedCollators α) (le : minN ≤ maxN) :
    (∀ p, p ∈ (assignCollatorsAlwaysKeepOld collators ids minN maxN numEach old).containerChains.keys ↔ p ∈ ids) ∧
    (∀ p cs, (assignCollatorsAlwaysKeepOld collators ids minN maxN numEach old).containerChains.get p = some cs →
      cs.length = 0 ∨ cs.length = numEach) ∧
    (assignCollatorsAlwaysKeepOld collators ids minN maxN numEach old).orchestratorChain.length ≤ maxN :=
  ⟨memKeysKeepOld collators ids minN maxN numEach old,
    fun _ _ found => keepOldPacked collators ids minN maxN numEach old found,
    keepOldOrchestratorAtMost collators ids numEach old le⟩

theorem assignCollatorsAlwaysKeepOldShapeOneChain :
    1 ≤ 2 ∧
    (∀ p, p ∈ (assignCollatorsAlwaysKeepOld [1,2,3] [1001] 1 2 3 default).containerChains.keys ↔ p ∈ [1001]) ∧
    (∀ p cs, (assignCollatorsAlwaysKeepOld [1,2,3] [1001] 1 2 3 default).containerChains.get p = some cs →
      cs.length = 0 ∨ cs.length = 3) ∧
    (assignCollatorsAlwaysKeepOld [1,2,3] [1001] 1 2 3 default).orchestratorChain.length ≤ 2 :=
  ⟨by decide,assignCollatorsAlwaysKeepOldShape [1,2,3] [1001] 1 2 3 default (by decide)⟩

/- A collator left out of the result was left in an iterator, by the last fill or by the
fill of the orchestrator chain up to its maximum, and a fill that leaves collators behind
has reached its target. -/

theorem assignCollatorsAlwaysKeepOldIdleWhenFull (collators : List α) (ids : List ParaId) {minN maxN : Nat}
    (numEach : Nat) (old : AssignedCollators α) (le : minN ≤ maxN) {x : α} (hx : x ∈ collators)
    (idle : x ∉ (assignCollatorsAlwaysKeepOld collators ids minN maxN numEach old).assigned) :
    (assignCollatorsAlwaysKeepOld collators ids minN maxN numEach old).orchestratorChain.length = maxN := by
  have atMost := keepOldOrchestratorAtMost collators ids numEach old le
  obtain ⟨split,newCollators,toMin,toChains,toMax,reorganized,hSplit,hNew,hMin,hChains,hMax,hReorg,final⟩ :=
    keepOldPasses collators ids minN maxN numEach old
  have source : x ∈ (split.1.removeContainerChainExcessCollators numEach).assigned ++ newCollators ++ split.2 := by
    subst hSplit hNew
    exact keepOldSourcesCover collators ids minN numEach old x hx
  have moves : (reorganized.1.fillOrchestratorChainCollators maxN Drain.vec reorganized.2).1.assigned ++
      ((reorganized.1.fillOrchestratorChainCollators maxN Drain.vec reorganized.2).2 ++ toMax.2.1 ++ toMax.2.2) ~
      (split.1.removeContainerChainExcessCollators numEach).assigned ++ newCollators ++ split.2 := by
    subst hSplit hNew hMin hChains hMax hReorg
    exact keepOldMovesExact collators ids minN maxN numEach old
  have reachedMax : x ∈ Drain.chain.rest toMax.2 → maxN ≤ reorganized.1.orchestratorChain.length := by
    intro mem
    rw [hReorg, reorganizeIncompleteContainerChainsCollatorsOrchestrator, hMax, fillOrchestratorChainCollatorsOrchestrator]
    rw [hMax, fillOrchestratorChainCollatorsRest] at mem
    exact Drain.chain.fillToReaches (List.ne_nil_of_mem mem)
  have grows := (Drain.vec.fillToPrefix maxN reorganized.1.orchestratorChain reorganized.2).length_le
  rw [final] at idle
  rw [final, fillOrchestratorChainCollatorsOrchestrator] at atMost ⊢
  refine le_antisymm atMost ?_
  have left := moves.symm.subset source
  simp only [List.mem_append] at left
  rcases left with kept | (lastFill | maxFill) | maxFill
  · exact absurd kept idle
  · rw [fillOrchestratorChainCollatorsRest] at lastFill
    exact Drain.vec.fillToReaches (List.ne_nil_of_mem lastFill)
  · exact (reachedMax (List.mem_append_left _ maxFill)).trans grows
  · exact (reachedMax (List.mem_append_right _ maxFill)).trans grows

theorem assignCollatorsAlwaysKeepOldIdleWhenFullNoChains :
    1 ≤ 2 ∧ 3 ∈ [1,2,3] ∧ 3 ∉ (assignCollatorsAlwaysKeepOld [1,2,3] [] 1 2 2 (default : AssignedCollators Nat)).assigned ∧
      (assignCollatorsAlwaysKeepOld [1,2,3] [] 1 2 2 (default : AssignedCollators Nat)).orchestratorChain.length = 2 :=
  have le : 1 ≤ 2 := by decide
  have mem : 3 ∈ [1,2,3] := by decide
  have idle : 3 ∉ (assignCollatorsAlwaysKeepOld [1,2,3] [] 1 2 2 (default : AssignedCollators Nat)).assigned := by
    decide +kernel
  ⟨le,mem,idle,assignCollatorsAlwaysKeepOldIdleWhenFull [1,2,3] [] 2 default le mem idle⟩

/- Old collators keep their place. -/

theorem keepOldKeepsFullChain (collators : List α) {ids : List ParaId} (minN maxN : Nat) {numEach : Nat}
    {old : AssignedCollators α} {p : ParaId} {cs : List α} (hp : p ∈ ids) (found : old.containerChains.get p = some cs)
    (full : cs.length = numEach) (staying : ∀ x ∈ cs, x ∈ collators) :
    (assignCollatorsAlwaysKeepOld collators ids minN maxN numEach old).containerChains.get p = some cs := by
  subst full
  obtain ⟨split,newCollators,toMin,toChains,toMax,reorganized,hSplit,-,hMin,hChains,hMax,hReorg,final⟩ :=
    keepOldPasses collators ids minN maxN cs.length old
  have atSplit : split.1.containerChains.get p = some cs := by
    rw [hSplit, removeOrchestratorChainExcessCollatorsChains, getRemoveContainerChainsNotInList, getRemoveCollatorsNotInList,
      found]
    exact ⟨by simpa [List.filter_eq_self] using staying,hp⟩
  have atMin : toMin.1.containerChains.get p = some cs := by
    rw [hMin, fillOrchestratorChainCollatorsChains, getRemoveContainerChainExcessCollators, atSplit]
    simp
  have atMax : toMax.1.containerChains.get p = some cs := by
    rw [hMax, fillOrchestratorChainCollatorsChains, hChains]
    exact fillContainerKeepsFull (getAddNewContainerChainsOfSome ids atMin) (le_refl _) _ _
  have notIncomplete : incomplete cs.length cs = false := by simp [incomplete]
  rw [final, fillOrchestratorChainCollatorsChains, hReorg]
  exact reorganizeKeepsFull atMax notIncomplete

theorem keepOldOrchestratorPrefix (collators : List α) (ids : List ParaId) (minN maxN numEach : Nat)
    (old : AssignedCollators α) :
    (old.orchestratorChain.filter (· ∈ collators)).take minN <+:
      (assignCollatorsAlwaysKeepOld collators ids minN maxN numEach old).orchestratorChain := by
  obtain ⟨split,newCollators,toMin,toChains,toMax,reorganized,hSplit,-,hMin,hChains,hMax,hReorg,final⟩ :=
    keepOldPasses collators ids minN maxN numEach old
  -- `split_off` keeps the first `minN`, and every later pass only appends
  have atSplit : split.1.orchestratorChain = (old.orchestratorChain.filter (· ∈ collators)).take minN := by
    rw [hSplit, removeOrchestratorChainExcessCollatorsOrchestrator]
    rfl
  have atMin : split.1.orchestratorChain <+: toMin.1.orchestratorChain := by
    rw [hMin, fillOrchestratorChainCollatorsOrchestrator, removeContainerChainExcessCollatorsOrchestrator]
    exact Drain.fillToPrefix _ _ _ _
  have atMax : toMin.1.orchestratorChain <+: toMax.1.orchestratorChain := by
    rw [hMax, fillOrchestratorChainCollatorsOrchestrator, hChains, fillContainerChainCollatorsOrchestrator,
      addNewContainerChainsOrchestrator]
    exact Drain.fillToPrefix _ _ _ _
  have atEnd : toMax.1.orchestratorChain <+: (assignCollatorsAlwaysKeepOld collators ids minN maxN numEach old).orchestratorChain := by
    rw [final, fillOrchestratorChainCollatorsOrchestrator, hReorg, reorganizeIncompleteContainerChainsCollatorsOrchestrator]
    exact Drain.fillToPrefix _ _ _ _
  rw [← atSplit]
  exact atMin.trans (atMax.trans atEnd)

theorem assignCollatorsAlwaysKeepOldKeepsPlaces (collators : List α) (ids : List ParaId) (minN maxN numEach : Nat)
    (old : AssignedCollators α) :
    (∀ p cs, p ∈ ids → old.containerChains.get p = some cs → cs.length = numEach → (∀ x ∈ cs, x ∈ collators) →
      (assignCollatorsAlwaysKeepOld collators ids minN maxN numEach old).containerChains.get p = some cs) ∧
    (old.orchestratorChain.filter (· ∈ collators)).take minN <+:
      (assignCollatorsAlwaysKeepOld collators ids minN maxN numEach old).orchestratorChain :=
  ⟨fun _ _ hp found full staying => keepOldKeepsFullChain collators minN maxN hp found full staying,
    keepOldOrchestratorPrefix collators ids minN maxN numEach old⟩

theorem assignCollatorsAlwaysKeepOldKeepsPlacesFullChain :
    (assignCollatorsAlwaysKeepOld [1,2,3,4] [1001] 1 2 2 ⟨[1],SortedMap.empty.insert 1001 [2,3]⟩).containerChains.get 1001 =
      some [2,3] ∧
    ([1].filter (· ∈ [1,2,3,4])).take 1 <+:
      (assignCollatorsAlwaysKeepOld [1,2,3,4] [1001] 1 2 2 ⟨[1],SortedMap.empty.insert 1001 [2,3]⟩).orchestratorChain :=
  have kept := assignCollatorsAlwaysKeepOldKeepsPlaces [1,2,3,4] [1001] 1 2 2 ⟨[1],SortedMap.empty.insert 1001 [2,3]⟩
  ⟨kept.1 1001 [2,3] (by decide) (by decide +kernel) rfl (by decide),kept.2⟩

/- What the doc comments promise and the code does not do. With three collators, one
container chain that needs three and an orchestrator chain between one and two, the
assignment never settles: the surplus orchestrator collator goes to the container chain,
which stays incomplete and hands its collators back in the other order. -/

theorem assignCollatorsAlwaysKeepOldOscillates :
    [1,2,3].Nodup ∧ [1001].Nodup ∧ 1 ≤ 2 ∧ (default : AssignedCollators Nat).assigned.Nodup ∧
    (assignCollatorsAlwaysKeepOld [1,2,3] [1001] 1 2 3 default).orchestratorChain = [1,2] ∧
    (assignCollatorsAlwaysKeepOld [1,2,3] [1001] 1 2 3
      (assignCollatorsAlwaysKeepOld [1,2,3] [1001] 1 2 3 default)).orchestratorChain = [1,3] ∧
    assignCollatorsAlwaysKeepOld [1,2,3] [1001] 1 2 3 (assignCollatorsAlwaysKeepOld [1,2,3] [1001] 1 2 3
      (assignCollatorsAlwaysKeepOld [1,2,3] [1001] 1 2 3 default)) = assignCollatorsAlwaysKeepOld [1,2,3] [1001] 1 2 3 default := by
  decide +kernel

/- A container chain filled while the orchestrator chain needed no collator keeps them
when its minimum is raised to one, and no collator is left for the orchestrator chain. -/

theorem assignCollatorsAlwaysKeepOldBelowMinimum :
    [1,2].Nodup ∧ [1001].Nodup ∧ 1 ≤ 1 ∧
    (assignCollatorsAlwaysKeepOld [1,2] [1001] 0 0 2 (default : AssignedCollators Nat)).containerChains.get 1001 = some [1,2] ∧
    (assignCollatorsAlwaysKeepOld [1,2] [1001] 1 1 2
      (assignCollatorsAlwaysKeepOld [1,2] [1001] 0 0 2 default)).orchestratorChain.length < min 1 [1,2].length := by
  decide +kernel

end Tanssi.CollatorAssignment
