import Tanssi.SortedMap
import Tanssi.Iterator

/-! `tp_collator_assignment::AssignedCollators`: the collators serving the
orchestrator chain and each container chain, with the helpers that the
collator-assignment pallet composes. `ParaId` is the `u32` inside the para id; the
container chains form a `BTreeMap`, iterated in key order. The lemmas say where
each helper moves collators: to or from its iterator, or out of the assignment. -/
namespace Tanssi

abbrev ParaId := Nat

structure AssignedCollators (α : Type) where
  orchestratorChain : List α
  containerChains : SortedMap ParaId (List α)
  deriving DecidableEq

namespace AssignedCollators
open scoped List
variable {α β ι : Type} [DecidableEq α]

instance : Inhabited (AssignedCollators α) := ⟨⟨[],SortedMap.empty⟩⟩

def paraIdOf (a : AssignedCollators α) (x : α) (orchestratorChainParaId : ParaId) : Option ParaId :=
  match a.containerChains.entries.find? (fun e => x ∈ e.2) with
  | some e => some e.1
  | none => if x ∈ a.orchestratorChain then some orchestratorChainParaId else none

def findCollator (a : AssignedCollators α) (x : α) : Bool := (a.paraIdOf x 0).isSome

def removeContainerChainsNotInList (a : AssignedCollators α) (containerChains : List ParaId) :
    AssignedCollators α :=
  { a with containerChains := a.containerChains.retain (fun id _ => id ∈ containerChains) }

def removeCollatorsNotInList (a : AssignedCollators α) (collators : List α) : AssignedCollators α :=
  { orchestratorChain := a.orchestratorChain.filter (· ∈ collators)
    containerChains := a.containerChains.mapVal (fun _ cs => cs.filter (· ∈ collators)) }

/-- `split_off` of the orchestrator collators past the first `numOrchestratorChain`. -/
def removeOrchestratorChainExcessCollators (a : AssignedCollators α) (numOrchestratorChain : Nat) :
    AssignedCollators α × List α :=
  if numOrchestratorChain ≤ a.orchestratorChain.length then
    ({ a with orchestratorChain := a.orchestratorChain.take numOrchestratorChain },
      a.orchestratorChain.drop numOrchestratorChain)
  else (a,[])

def removeContainerChainExcessCollators (a : AssignedCollators α) (numEachContainerChain : Nat) :
    AssignedCollators α :=
  { a with containerChains := a.containerChains.mapVal (fun _ cs => cs.take numEachContainerChain) }

def fillOrchestratorChainCollators (a : AssignedCollators α) (numOrchestratorChain : Nat)
    (it : Drain ι α) (nextCollator : ι) : AssignedCollators α × ι :=
  let r := it.fillTo numOrchestratorChain a.orchestratorChain nextCollator
  ({ a with orchestratorChain := r.1 },r.2.1)

/-- One chain of `fill_container_chain_collators`; finding the iterator dry `return`s
from the whole function, which the `false` flag passes on to the scan. -/
def fillStep (it : Drain ι α) (num : Nat) (i : ι) (_ : ParaId) (cs : List α) : List α × ι × Bool :=
  let f := it.fillTo num cs i
  (f.1,f.2.1,!f.2.2)

def fillContainerChainCollators (a : AssignedCollators α) (numEachContainerChain : Nat)
    (it : Drain ι α) (nextCollator : ι) : AssignedCollators α × ι :=
  let r := a.containerChains.scan (fillStep it numEachContainerChain) nextCollator
  ({ a with containerChains := r.1 },r.2)

def addNewContainerChains (a : AssignedCollators α) (containerChains : List ParaId) : AssignedCollators α :=
  { a with containerChains := containerChains.foldl (fun m id => m.orInsert id []) a.containerChains }

/- `reorganize_incomplete_container_chains_collators`. The deque is a list whose back
is its last element. The chain popped from the front is `collators_min_chain`; its
collators are given in `pop()` order, last first, so the inner loop recurses on them. -/

/-- The inner `while !collators_min_chain.is_empty()` loop. `.inl` is the early
`return collators_min_chain` when no chain is left at the back. -/
def moveFront (num : Nat) : List α → List (ParaId × List α) → SortedMap ParaId (List α) →
    (List α ⊕ List (ParaId × List α)) × SortedMap ParaId (List α)
  | [], dq, m => (.inr dq,m)
  | c :: popped, dq, m =>
    match dq.getLast? with
    | none => (.inl (c :: popped).reverse,m)
    | some (id,back) =>
      if (back ++ [c]).length = num then moveFront num popped dq.dropLast (m.insert id (back ++ [c]))
      else moveFront num popped (dq.dropLast ++ [(id,back ++ [c])]) m

omit [DecidableEq α] in
theorem moveFrontShrinks {num : Nat} :
    ∀ {popped : List α} {dq dq' : List (ParaId × List α)} {m m' : SortedMap ParaId (List α)},
      moveFront num popped dq m = (.inr dq',m') → dq'.length ≤ dq.length
  | [], dq, dq', m, m', h => by
    simp only [moveFront, Prod.mk.injEq, Sum.inr.injEq] at h
    rw [h.1]
  | c :: popped, dq, dq', m, m', h => by
    simp only [moveFront] at h
    split at h
    · simp at h
    · split at h
      · have := moveFrontShrinks h
        simp only [List.length_dropLast] at this
        omega
      · have := moveFrontShrinks h
        simp only [List.length_append, List.length_dropLast, List.length_singleton] at this
        have : dq ≠ [] := by rintro rfl; simp_all
        have : 0 < dq.length := List.length_pos_iff.mpr this
        omega

/-- The outer `while let Some(..) = incomplete_container_chains.pop_front()` loop. -/
def reorganizeLoop (num : Nat) (dq : List (ParaId × List α)) (m : SortedMap ParaId (List α)) :
    SortedMap ParaId (List α) × List α :=
  match dq with
  | [] => (m,[])
  | (_,front) :: rest =>
    match _h : moveFront num front.reverse rest m with
    | (.inl left,m') => (m',left)
    | (.inr dq',m') => reorganizeLoop num dq' m'
termination_by dq.length
decreasing_by simp only [List.length_cons]; have := moveFrontShrinks _h; omega

def incomplete (num : Nat) (cs : List α) : Bool := !cs.isEmpty && cs.length < num

/-- The first loop: `mem::take` every non-empty chain below `num` into the deque. -/
def takeIncomplete (num : Nat) (dq : List (ParaId × List α)) (id : ParaId) (cs : List α) :
    List α × List (ParaId × List α) × Bool :=
  if incomplete num cs then ([],dq ++ [(id,cs)],true) else (cs,dq,true)

def reorganizeIncompleteContainerChainsCollators (a : AssignedCollators α) (numEachContainerChain : Nat) :
    AssignedCollators α × List α :=
  let r := a.containerChains.scan (takeIncomplete numEachContainerChain) []
  -- `sort_by_key` on the length is stable, as `mergeSort` is
  let sorted := r.2.mergeSort (fun x y => x.2.length ≤ y.2.length)
  let out := reorganizeLoop numEachContainerChain sorted r.1
  ({ a with containerChains := out.1 },out.2)

def map (a : AssignedCollators α) (f : α → β) : AssignedCollators β :=
  { orchestratorChain := a.orchestratorChain.map f
    containerChains := a.containerChains.entries.foldl (fun m e => m.insert e.1 (e.2.map f)) SortedMap.empty }

/- Where each helper moves collators. `assigned` lists every collator of the
assignment, orchestrator chain first, container chains in key order. -/

def assigned (a : AssignedCollators α) : List α := a.orchestratorChain ++ a.containerChains.values.flatten

theorem findCollatorIff (a : AssignedCollators α) (x : α) : a.findCollator x = true ↔ x ∈ a.assigned := by
  unfold findCollator paraIdOf assigned
  cases h : a.containerChains.entries.find? (fun e => x ∈ e.2) with
  | some e =>
    have mem := List.mem_of_find?_eq_some h
    have inside : x ∈ e.2 := by simpa using List.find?_some h
    simp only [Option.isSome_some, true_iff, List.mem_append]
    exact .inr (List.mem_flatten.mpr ⟨e.2,List.mem_map.mpr ⟨e,mem,rfl⟩,inside⟩)
  | none =>
    have absent := List.find?_eq_none.mp h
    have notIn : x ∉ a.containerChains.values.flatten := by
      simp only [SortedMap.values, List.mem_flatten, List.mem_map]
      rintro ⟨_,⟨e,mem,rfl⟩,inside⟩
      exact absent e mem (by simpa using inside)
    by_cases orch : x ∈ a.orchestratorChain <;> simp [orch, notIn]

theorem paraIdOfSome {a : AssignedCollators α} {key : α} {orchestratorChainParaId paraId : ParaId}
    (h : a.paraIdOf key orchestratorChainParaId = some paraId) :
    (paraId = orchestratorChainParaId ∧ key ∈ a.orchestratorChain) ∨
      ∃ keys, a.containerChains.get paraId = some keys ∧ key ∈ keys := by
  unfold AssignedCollators.paraIdOf at h
  split at h
  · rename_i e found
    obtain rfl := Option.some.inj h
    refine .inr ⟨e.2, SortedMap.getSomeIff.2 (List.mem_of_find?_eq_some found), ?_⟩
    simpa using List.find?_some found
  · split at h
    · rename_i held
      exact .inl ⟨(Option.some.inj h).symm, held⟩
    · cases h

theorem paraIdOfContainer {a : AssignedCollators α} {x : α} {paraId : ParaId} {collators : List α}
    (orchestratorChainParaId : ParaId) (nodup : a.assigned.Nodup) (chain : a.containerChains.get paraId = some collators)
    (held : x ∈ collators) : a.paraIdOf x orchestratorChainParaId = some paraId := by
  have listed : (paraId, collators) ∈ a.containerChains.entries := SortedMap.getSomeIff.1 chain
  have disjoint : a.containerChains.entries.Pairwise fun e e' => e.2.Disjoint e'.2 :=
    List.pairwise_map.1 (List.nodup_flatten.1 (List.nodup_append.1 nodup).2.1).2
  have : Std.Symm fun e e' : ParaId × List α => e.2.Disjoint e'.2 := ⟨fun _ _ h => h.symm⟩
  unfold paraIdOf
  cases found : a.containerChains.entries.find? (fun e => x ∈ e.2) with
  | none => simpa [held] using List.find?_eq_none.1 found _ listed
  | some e =>
    have same : e = (paraId, collators) := by
      by_contra different
      exact disjoint.forall (List.mem_of_find?_eq_some found) listed different (by simpa using List.find?_some found) held
    rw [same]

theorem paraIdOfOrchestrator {a : AssignedCollators α} {x : α} (orchestratorChainParaId : ParaId)
    (nodup : a.assigned.Nodup) (held : x ∈ a.orchestratorChain) :
    a.paraIdOf x orchestratorChainParaId = some orchestratorChainParaId := by
  have elsewhere : x ∉ a.containerChains.values.flatten := fun inside =>
    (List.nodup_append.1 nodup).2.2 x held x inside rfl
  unfold paraIdOf
  cases found : a.containerChains.entries.find? (fun e => x ∈ e.2) with
  | none => simp [held]
  | some e =>
    have inside : x ∈ e.2 := by simpa using List.find?_some found
    exact absurd (List.mem_flatten.2 ⟨e.2, List.mem_map.2 ⟨e, List.mem_of_find?_eq_some found, rfl⟩, inside⟩) elsewhere

theorem removeCollatorsNotInListSublist (a : AssignedCollators α) (collators : List α) :
    (a.removeCollatorsNotInList collators).assigned.Sublist a.assigned :=
  List.filter_sublist.append
    (a.containerChains.mapValSublist _ (fun _ _ => List.filter_sublist))

theorem memRemoveCollatorsNotInList {a : AssignedCollators α} {collators : List α} {x : α}
    (h : x ∈ (a.removeCollatorsNotInList collators).assigned) : x ∈ collators := by
  simp only [assigned, removeCollatorsNotInList, SortedMap.mapValValues, List.mem_append,
    List.mem_filter, decide_eq_true_eq, List.mem_flatten, List.mem_map] at h
  rcases h with h | ⟨_,⟨e,_,rfl⟩,h⟩
  · exact h.2
  · exact (List.mem_filter.mp h).2 |> of_decide_eq_true

omit [DecidableEq α] in
theorem removeContainerChainsNotInListSublist (a : AssignedCollators α) (ids : List ParaId) :
    (a.removeContainerChainsNotInList ids).assigned.Sublist a.assigned :=
  (List.Sublist.refl _).append (a.containerChains.retainSublist _)

omit [DecidableEq α] in
theorem removeOrchestratorChainExcessCollatorsPerm (a : AssignedCollators α) (num : Nat) :
    (a.removeOrchestratorChainExcessCollators num).1.assigned ++
      (a.removeOrchestratorChainExcessCollators num).2 ~ a.assigned := by
  unfold removeOrchestratorChainExcessCollators assigned
  split
  · simp only [List.append_assoc]
    calc a.orchestratorChain.take num ++ (a.containerChains.values.flatten ++ a.orchestratorChain.drop num)
        _ ~ a.orchestratorChain.take num ++ (a.orchestratorChain.drop num ++ a.containerChains.values.flatten) :=
          List.perm_append_comm.append_left _
        _ = a.orchestratorChain ++ a.containerChains.values.flatten := by
          rw [← List.append_assoc, List.take_append_drop]
  · simp

omit [DecidableEq α] in
theorem removeContainerChainExcessCollatorsSublist (a : AssignedCollators α) (num : Nat) :
    (a.removeContainerChainExcessCollators num).assigned.Sublist a.assigned :=
  (List.Sublist.refl _).append (a.containerChains.mapValSublist _ (fun _ _ => List.take_sublist _ _))

omit [DecidableEq α] in
theorem fillOrchestratorChainCollatorsMoves (a : AssignedCollators α) (num : Nat) (it : Drain ι α) (i : ι) :
    (a.fillOrchestratorChainCollators num it i).1.assigned ++ it.rest (a.fillOrchestratorChainCollators num it i).2 ~
      a.assigned ++ it.rest i := by
  have moves := it.fillToMoves num a.orchestratorChain i
  simp only [fillOrchestratorChainCollators, assigned, List.append_assoc]
  calc (it.fillTo num a.orchestratorChain i).1 ++
        (a.containerChains.values.flatten ++ it.rest (it.fillTo num a.orchestratorChain i).2.1)
      _ ~ (it.fillTo num a.orchestratorChain i).1 ++
        (it.rest (it.fillTo num a.orchestratorChain i).2.1 ++ a.containerChains.values.flatten) :=
        List.perm_append_comm.append_left _
      _ = a.orchestratorChain ++ (it.rest i ++ a.containerChains.values.flatten) := by
        rw [← List.append_assoc, moves, List.append_assoc]
      _ ~ a.orchestratorChain ++ (a.containerChains.values.flatten ++ it.rest i) :=
        List.perm_append_comm.append_left _

omit [DecidableEq α] in
theorem fillContainerChainCollatorsMoves (a : AssignedCollators α) (num : Nat) (it : Drain ι α) (i : ι) :
    (a.fillContainerChainCollators num it i).1.assigned ++ it.rest (a.fillContainerChainCollators num it i).2 ~
      a.assigned ++ it.rest i := by
  have scanned := a.containerChains.scanPerm it.rest (fillStep it num)
    (fun j _ cs => List.Perm.of_eq (it.fillToMoves num cs j)) i
  simp only [fillContainerChainCollators, assigned, List.append_assoc]
  exact scanned.append_left _

omit [DecidableEq α] in
theorem addNewContainerChainsPerm (a : AssignedCollators α) (ids : List ParaId) :
    (a.addNewContainerChains ids).assigned ~ a.assigned := by
  unfold addNewContainerChains assigned
  refine List.Perm.append_left _ ?_
  induction ids generalizing a with
  | nil => rfl
  | cons id rest ih =>
    simp only [List.foldl_cons]
    exact (ih ⟨a.orchestratorChain,a.containerChains.orInsert id []⟩).trans
      (a.containerChains.orInsertNilPerm id)

/- The reorganisation. Every chain waiting in the deque has an empty entry in the map,
and the deque names each chain once; then a completed chain can be inserted back
without overwriting collators, and collators only move between the map, the deque,
the chain being emptied and the returned leftover. -/

def queued (dq : List (ParaId × List α)) : List α := (dq.map Prod.snd).flatten

def Waiting (m : SortedMap ParaId (List α)) (dq : List (ParaId × List α)) : Prop :=
  (dq.map Prod.fst).Nodup ∧ ∀ e ∈ dq, m.get e.1 = some []

omit [DecidableEq α] in
theorem waitingTail {m : SortedMap ParaId (List α)} {e : ParaId × List α} {dq : List (ParaId × List α)}
    (h : Waiting m (e :: dq)) : Waiting m dq :=
  ⟨(List.nodup_cons.mp h.1).2,fun x hx => h.2 x (List.mem_cons_of_mem _ hx)⟩

omit [DecidableEq α] in
theorem waitingPerm {m : SortedMap ParaId (List α)} {dq dq' : List (ParaId × List α)}
    (p : dq ~ dq') (h : Waiting m dq) : Waiting m dq' :=
  ⟨(p.map Prod.fst).nodup_iff.mp h.1,fun x hx => h.2 x (p.symm.subset hx)⟩

def held : (List α ⊕ List (ParaId × List α)) × SortedMap ParaId (List α) → List α
  | (.inl left,m) => m.values.flatten ++ left
  | (.inr dq,m) => m.values.flatten ++ queued dq

def Waits : (List α ⊕ List (ParaId × List α)) × SortedMap ParaId (List α) → Prop
  | (.inl _,_) => True
  | (.inr dq,m) => Waiting m dq

section BackChain
variable {m : SortedMap ParaId (List α)} {dq : List (ParaId × List α)} {id : ParaId} {back : List α}

omit [DecidableEq α] in
theorem backSplit (last : dq.getLast? = some (id,back)) : dq = dq.dropLast ++ [(id,back)] :=
  (List.dropLast_append_getLast? _ last).symm

omit [DecidableEq α] in
theorem queuedBack (last : dq.getLast? = some (id,back)) : queued dq = queued dq.dropLast ++ back := by
  conv_lhs => rw [backSplit last]
  simp [queued]

omit [DecidableEq α] in
theorem waitingComplete (w : Waiting m dq) (last : dq.getLast? = some (id,back)) (v : List α) :
    Waiting (m.insert id v) dq.dropLast := by
  have nodup := w.1
  rw [backSplit last, List.map_append, List.nodup_append] at nodup
  refine ⟨nodup.1,fun e he => ?_⟩
  have fresh : e.1 ≠ id := fun same => nodup.2.2 e.1 (List.mem_map.mpr ⟨e,he,rfl⟩) id (by simp) same
  rw [SortedMap.getInsertNe _ fresh]
  exact w.2 e (List.mem_of_mem_dropLast he)

omit [DecidableEq α] in
theorem waitingGrow (w : Waiting m dq) (last : dq.getLast? = some (id,back)) (v : List α) :
    Waiting m (dq.dropLast ++ [(id,v)]) := by
  have nodup := w.1
  rw [backSplit last, List.map_append] at nodup
  refine ⟨by simpa using nodup,fun e he => ?_⟩
  rcases List.mem_append.mp he with he | he
  · exact w.2 e (List.mem_of_mem_dropLast he)
  · simp only [List.mem_singleton] at he
    subst he
    exact w.2 (id,back) (by rw [backSplit last]; simp)

end BackChain

theorem moveFrontConserves (num : Nat) :
    ∀ (popped : List α) {dq : List (ParaId × List α)} {m : SortedMap ParaId (List α)}, Waiting m dq →
      Waits (moveFront num popped dq m) ∧ held (moveFront num popped dq m) ~ m.values.flatten ++ queued dq ++ popped
  | [], dq, m, w => ⟨w,by simp [moveFront, held]⟩
  | c :: popped, dq, m, w => by
    simp only [moveFront]
    split
    · -- no chain at the back: `return collators_min_chain`
      rename_i last
      rw [List.getLast?_eq_none_iff.mp last]
      refine ⟨trivial,?_⟩
      simp only [held, queued, List.map_nil, List.flatten_nil, List.append_nil]
      exact (List.reverse_perm _).append_left _
    · rename_i id back last
      have emptied : m.get id = some [] := w.2 (id,back) (by rw [backSplit last]; simp)
      split
      · obtain ⟨waits,perm⟩ := moveFrontConserves num popped (waitingComplete w last (back ++ [c]))
        refine ⟨waits,perm.trans ?_⟩
        have ins := SortedMap.insertPerm (back ++ [c]) emptied
        rw [List.append_nil] at ins
        rw [queuedBack last, List.perm_iff_count]
        intro x
        have cnt := List.perm_iff_count.mp ins x
        simp only [List.count_append, List.count_cons, List.count_nil] at cnt ⊢
        omega
      · obtain ⟨waits,perm⟩ := moveFrontConserves num popped (waitingGrow w last (back ++ [c]))
        refine ⟨waits,perm.trans ?_⟩
        rw [queuedBack last, List.perm_iff_count]
        intro x
        simp only [queued, List.map_append, List.flatten_append, List.count_append, List.map_cons,
          List.map_nil, List.flatten_cons, List.flatten_nil, List.count_cons, List.count_nil]
        omega

omit [DecidableEq α] in
theorem popFrontPerm (held : List α) (id : ParaId) (front : List α) (rest : List (ParaId × List α)) :
    held ++ queued rest ++ front.reverse ~ held ++ queued ((id,front) :: rest) := by
  simp only [queued, List.map_cons, List.flatten_cons, List.append_assoc]
  exact (((List.reverse_perm front).append_left _).trans List.perm_append_comm).append_left held

theorem reorganizeLoopConserves (num : Nat) (dq : List (ParaId × List α)) (m : SortedMap ParaId (List α))
    (w : Waiting m dq) :
    (reorganizeLoop num dq m).1.values.flatten ++ (reorganizeLoop num dq m).2 ~ m.values.flatten ++ queued dq := by
  fun_induction reorganizeLoop num dq m with
  | case1 m => simp [queued]
  | case2 m id front rest left m' h =>
    have conserved := (moveFrontConserves num front.reverse (waitingTail w)).2
    rw [h] at conserved
    refine conserved.trans ?_
    exact popFrontPerm _ _ _ _
  | case3 m id front rest dq' m' h ih =>
    have conserved := moveFrontConserves num front.reverse (waitingTail w)
    rw [h] at conserved
    refine (ih conserved.1).trans (conserved.2.trans ?_)
    exact popFrontPerm _ _ _ _

omit [DecidableEq α] in
theorem takeIncompleteScan (num : Nat) :
    ∀ (l : List (ParaId × List α)) (dq : List (ParaId × List α)),
      SortedMap.scanEntries (takeIncomplete num) l dq =
        (l.map (fun e => (e.1,if incomplete num e.2 then [] else e.2)),
          dq ++ l.filter (fun e => incomplete num e.2))
  | [], dq => by simp [SortedMap.scanEntries]
  | e :: rest, dq => by
    by_cases cut : incomplete num e.2 = true
    · simp [SortedMap.scanEntries, takeIncomplete, cut, takeIncompleteScan num rest]
    · simp [SortedMap.scanEntries, takeIncomplete, cut, takeIncompleteScan num rest]

omit [DecidableEq α] in
theorem takeIncompleteWaiting (num : Nat) (m : SortedMap ParaId (List α)) :
    Waiting (m.scan (takeIncomplete num) []).1 (m.scan (takeIncomplete num) []).2 := by
  have scanned := takeIncompleteScan num m.entries []
  simp only [SortedMap.scan, scanned, List.nil_append]
  refine ⟨(m.keysNodup).sublist (List.filter_sublist.map _),fun e he => ?_⟩
  obtain ⟨mem,cut⟩ := List.mem_filter.mp he
  apply SortedMap.getSomeIff.mpr
  show (e.1,[]) ∈ m.entries.map _
  exact List.mem_map.mpr ⟨e,mem,by simp [cut]⟩

theorem reorganizeConserves (a : AssignedCollators α) (num : Nat) :
    (a.reorganizeIncompleteContainerChainsCollators num).1.assigned ++
      (a.reorganizeIncompleteContainerChainsCollators num).2 ~ a.assigned := by
  let r := a.containerChains.scan (takeIncomplete num) []
  let sorted := r.2.mergeSort (fun x y => x.2.length ≤ y.2.length)
  have sortedPerm : sorted ~ r.2 := List.mergeSort_perm _ _
  have taken : r.1.values.flatten ++ queued r.2 ~ a.containerChains.values.flatten :=
    by simpa [queued] using a.containerChains.scanPerm queued (takeIncomplete num) (fun dq id cs => by
      unfold takeIncomplete
      split
      · simpa [queued] using List.perm_append_comm
      · rfl) []
  have loop := reorganizeLoopConserves num sorted r.1 (waitingPerm sortedPerm.symm (takeIncompleteWaiting num _))
  have queuedPerm : queued sorted ~ queued r.2 := (sortedPerm.map Prod.snd).flatten
  simp only [reorganizeIncompleteContainerChainsCollators, assigned, List.append_assoc]
  exact (loop.trans ((queuedPerm.append_left _).trans taken)).append_left _

/- What the reorganisation writes into the map: it keeps the keys, leaves every chain that
never waited in the deque alone, and writes only complete chains. -/

structure Rewrites (num : Nat) (ids : List ParaId) (m m' : SortedMap ParaId (List α)) : Prop where
  keys : ∀ k, k ∈ m'.keys ↔ k ∈ m.keys
  others : ∀ k, k ∉ ids → m'.get k = m.get k
  complete : ∀ k v, m'.get k = some v → m.get k = some v ∨ v.length = num

namespace Rewrites
variable {num : Nat} {ids : List ParaId} {m m₁ m₂ : SortedMap ParaId (List α)}

omit [DecidableEq α] in
theorem refl (num : Nat) (ids : List ParaId) (m : SortedMap ParaId (List α)) : Rewrites num ids m m :=
  ⟨fun _ => Iff.rfl,fun _ _ => rfl,fun _ _ h => .inl h⟩

omit [DecidableEq α] in
theorem mono {ids' : List ParaId} (h : Rewrites num ids m m₁) (sub : ∀ k ∈ ids, k ∈ ids') : Rewrites num ids' m m₁ :=
  ⟨h.keys,fun k out => h.others k (fun mem => out (sub k mem)),h.complete⟩

omit [DecidableEq α] in
theorem trans (first : Rewrites num ids m m₁) (second : Rewrites num ids m₁ m₂) : Rewrites num ids m m₂ :=
  ⟨fun k => (second.keys k).trans (first.keys k),fun k out => (second.others k out).trans (first.others k out),
    fun k v h => (second.complete k v h).elim (first.complete k v) .inr⟩

omit [DecidableEq α] in
theorem insert {k : ParaId} {v : List α} (present : k ∈ m.keys) (mem : k ∈ ids) (full : v.length = num) :
    Rewrites num ids m (m.insert k v) := by
  refine ⟨fun k' => ?_,fun k' out => SortedMap.getInsertNe v (fun same => out (same ▸ mem)),fun k' v' h => ?_⟩
  · rw [SortedMap.memKeysInsert]
    constructor
    · rintro (rfl | h)
      · exact present
      · exact h
    · exact .inr
  · by_cases same : k' = k
    · subst same
      rw [SortedMap.getInsertSelf] at h
      cases h
      exact .inr full
    · rw [SortedMap.getInsertNe v same] at h
      exact .inl h

end Rewrites

omit [DecidableEq α] in
theorem moveFrontRewrites (num : Nat) :
    ∀ (popped : List α) {dq : List (ParaId × List α)} {m : SortedMap ParaId (List α)}, Waiting m dq →
      Rewrites num (dq.map Prod.fst) m (moveFront num popped dq m).2 ∧
        ∀ dq', (moveFront num popped dq m).1 = .inr dq' → ∀ k ∈ dq'.map Prod.fst, k ∈ dq.map Prod.fst
  | [], dq, m, _ => ⟨.refl _ _ _,fun dq' h k mem => by simp only [moveFront, Sum.inr.injEq] at h; exact h ▸ mem⟩
  | c :: popped, dq, m, w => by
    simp only [moveFront]
    split
    · exact ⟨.refl _ _ _,fun _ h => by cases h⟩
    · rename_i id back last
      have member : id ∈ dq.map Prod.fst := by rw [backSplit last]; simp
      have present : id ∈ m.keys := SortedMap.memKeys.mpr ⟨[],w.2 (id,back) (by rw [backSplit last]; simp)⟩
      have shorter : ∀ k ∈ dq.dropLast.map Prod.fst, k ∈ dq.map Prod.fst :=
        fun k mem => (List.dropLast_sublist dq |>.map Prod.fst).subset mem
      split
      · rename_i full
        obtain ⟨rewrites,left⟩ := moveFrontRewrites num popped (waitingComplete w last (back ++ [c]))
        exact ⟨(Rewrites.insert present member full).trans (rewrites.mono shorter),
          fun dq' h k mem => shorter k (left dq' h k mem)⟩
      · have same : ∀ k ∈ (dq.dropLast ++ [(id,back ++ [c])]).map Prod.fst, k ∈ dq.map Prod.fst := by
          intro k mem
          simp only [List.map_append, List.map_cons, List.map_nil, List.mem_append, List.mem_singleton] at mem
          rcases mem with mem | rfl
          · exact shorter k mem
          · exact member
        obtain ⟨rewrites,left⟩ := moveFrontRewrites num popped (waitingGrow w last (back ++ [c]))
        exact ⟨rewrites.mono same,fun dq' h k mem => same k (left dq' h k mem)⟩

theorem reorganizeLoopRewrites (num : Nat) (dq : List (ParaId × List α)) (m : SortedMap ParaId (List α))
    (w : Waiting m dq) : Rewrites num (dq.map Prod.fst) m (reorganizeLoop num dq m).1 := by
  fun_induction reorganizeLoop num dq m with
  | case1 m => exact .refl _ _ _
  | case2 m id front rest left m' h =>
    have moved := (moveFrontRewrites num front.reverse (waitingTail w)).1
    rw [h] at moved
    exact moved.mono fun k mem => List.mem_cons_of_mem _ mem
  | case3 m id front rest dq' m' h ih =>
    have moved := moveFrontRewrites num front.reverse (waitingTail w)
    have waits := (moveFrontConserves num front.reverse (waitingTail w)).1
    rw [h] at moved waits
    have inRest : ∀ k ∈ dq'.map Prod.fst, k ∈ ((id,front) :: rest).map Prod.fst :=
      fun k mem => List.mem_cons_of_mem _ (moved.2 dq' rfl k mem)
    exact (moved.1.mono fun k mem => List.mem_cons_of_mem _ mem).trans ((ih waits).mono inRest)

/- Which chains each helper leaves, and with how many collators. -/

omit [DecidableEq α] in
@[simp] theorem fillOrchestratorChainCollatorsChains (a : AssignedCollators α) (num : Nat) (it : Drain ι α) (i : ι) :
    (a.fillOrchestratorChainCollators num it i).1.containerChains = a.containerChains := rfl

omit [DecidableEq α] in
@[simp] theorem fillOrchestratorChainCollatorsOrchestrator (a : AssignedCollators α) (num : Nat) (it : Drain ι α)
    (i : ι) : (a.fillOrchestratorChainCollators num it i).1.orchestratorChain = (it.fillTo num a.orchestratorChain i).1 :=
  rfl

omit [DecidableEq α] in
@[simp] theorem fillOrchestratorChainCollatorsRest (a : AssignedCollators α) (num : Nat) (it : Drain ι α) (i : ι) :
    (a.fillOrchestratorChainCollators num it i).2 = (it.fillTo num a.orchestratorChain i).2.1 := rfl

omit [DecidableEq α] in
@[simp] theorem removeContainerChainExcessCollatorsOrchestrator (a : AssignedCollators α) (num : Nat) :
    (a.removeContainerChainExcessCollators num).orchestratorChain = a.orchestratorChain := rfl

omit [DecidableEq α] in
@[simp] theorem removeContainerChainExcessCollatorsKeys (a : AssignedCollators α) (num : Nat) :
    (a.removeContainerChainExcessCollators num).containerChains.keys = a.containerChains.keys :=
  SortedMap.mapValKeys _ _

omit [DecidableEq α] in
@[simp] theorem addNewContainerChainsOrchestrator (a : AssignedCollators α) (ids : List ParaId) :
    (a.addNewContainerChains ids).orchestratorChain = a.orchestratorChain := rfl

omit [DecidableEq α] in
@[simp] theorem fillContainerChainCollatorsOrchestrator (a : AssignedCollators α) (num : Nat) (it : Drain ι α) (i : ι) :
    (a.fillContainerChainCollators num it i).1.orchestratorChain = a.orchestratorChain := rfl

omit [DecidableEq α] in
@[simp] theorem fillContainerChainCollatorsKeys (a : AssignedCollators α) (num : Nat) (it : Drain ι α) (i : ι) :
    (a.fillContainerChainCollators num it i).1.containerChains.keys = a.containerChains.keys :=
  SortedMap.scanKeys _ _ _

omit [DecidableEq α] in
@[simp] theorem reorganizeIncompleteContainerChainsCollatorsOrchestrator (a : AssignedCollators α) (num : Nat) :
    (a.reorganizeIncompleteContainerChainsCollators num).1.orchestratorChain = a.orchestratorChain := rfl

theorem getRemoveCollatorsNotInList (a : AssignedCollators α) (collators : List α) (k : ParaId) :
    (a.removeCollatorsNotInList collators).containerChains.get k =
      (a.containerChains.get k).map (·.filter (· ∈ collators)) :=
  SortedMap.getMapVal _ _ k

omit [DecidableEq α] in
theorem getRemoveContainerChainsNotInList {a : AssignedCollators α} {ids : List ParaId} {k : ParaId} {v : List α} :
    (a.removeContainerChainsNotInList ids).containerChains.get k = some v ↔ a.containerChains.get k = some v ∧ k ∈ ids := by
  simp only [removeContainerChainsNotInList, SortedMap.getRetainSome, decide_eq_true_eq]

omit [DecidableEq α] in
@[simp] theorem removeOrchestratorChainExcessCollatorsChains (a : AssignedCollators α) (num : Nat) :
    (a.removeOrchestratorChainExcessCollators num).1.containerChains = a.containerChains := by
  unfold removeOrchestratorChainExcessCollators
  split <;> rfl

omit [DecidableEq α] in
theorem removeOrchestratorChainExcessCollatorsOrchestrator (a : AssignedCollators α) (num : Nat) :
    (a.removeOrchestratorChainExcessCollators num).1.orchestratorChain = a.orchestratorChain.take num := by
  unfold removeOrchestratorChainExcessCollators
  split
  · rfl
  · rename_i short
    exact (List.take_of_length_le (Nat.le_of_lt (Nat.lt_of_not_le short))).symm

omit [DecidableEq α] in
theorem getRemoveContainerChainExcessCollators (a : AssignedCollators α) (num : Nat) (k : ParaId) :
    (a.removeContainerChainExcessCollators num).containerChains.get k = (a.containerChains.get k).map (·.take num) :=
  SortedMap.getMapVal _ _ k

/- `add_new_container_chains` folds `or_insert` over the ids; the three facts are proved
over the fold with the map generalized. -/

omit [DecidableEq α] in
theorem getAddNewContainerChains {a : AssignedCollators α} {ids : List ParaId} {k : ParaId} {v : List α}
    (h : (a.addNewContainerChains ids).containerChains.get k = some v) : a.containerChains.get k = some v ∨ v = [] := by
  suffices folded : ∀ (ids : List ParaId) (m : SortedMap ParaId (List α)),
      (ids.foldl (fun m id => m.orInsert id []) m).get k = some v → m.get k = some v ∨ v = [] from
    folded ids a.containerChains h
  intro ids
  induction ids with
  | nil => exact fun _ h => .inl h
  | cons id rest ih =>
    intro m h
    rcases ih _ h with found | empty
    · exact SortedMap.getOrInsertSome found
    · exact .inr empty

omit [DecidableEq α] in
theorem getAddNewContainerChainsOfSome {a : AssignedCollators α} (ids : List ParaId) {k : ParaId} {v : List α}
    (h : a.containerChains.get k = some v) : (a.addNewContainerChains ids).containerChains.get k = some v := by
  suffices folded : ∀ (ids : List ParaId) (m : SortedMap ParaId (List α)),
      m.get k = some v → (ids.foldl (fun m id => m.orInsert id []) m).get k = some v from
    folded ids a.containerChains h
  intro ids
  induction ids with
  | nil => exact fun _ h => h
  | cons id rest ih => exact fun m h => ih _ (SortedMap.getOrInsertOfSome [] h)

omit [DecidableEq α] in
theorem memKeysAddNewContainerChains {a : AssignedCollators α} {ids : List ParaId} {k : ParaId} :
    k ∈ (a.addNewContainerChains ids).containerChains.keys ↔ k ∈ ids ∨ k ∈ a.containerChains.keys := by
  suffices folded : ∀ (ids : List ParaId) (m : SortedMap ParaId (List α)),
      k ∈ (ids.foldl (fun m id => m.orInsert id []) m).keys ↔ k ∈ ids ∨ k ∈ m.keys from
    folded ids a.containerChains
  intro ids
  induction ids with
  | nil => simp
  | cons id rest ih =>
    intro m
    rw [List.foldl_cons, ih, SortedMap.memKeysOrInsert, List.mem_cons]
    tauto

omit [DecidableEq α] in
theorem getFillContainerChainCollators {a : AssignedCollators α} {num : Nat} {it : Drain ι α} {i : ι} {k : ParaId}
    {w : List α} (h : (a.fillContainerChainCollators num it i).1.containerChains.get k = some w) :
    ∃ v, a.containerChains.get k = some v ∧ (w = v ∨ ∃ j, (it.fillTo num v j).1 = w) :=
  SortedMap.getScan _ _ _ h

/- The reorganisation keeps the keys, leaves a chain that is empty or complete where it is,
and leaves every chain empty or complete. -/

omit [DecidableEq α] in
theorem getTakeIncomplete (m : SortedMap ParaId (List α)) (num : Nat) (k : ParaId) :
    (m.scan (takeIncomplete num) []).1.get k = (m.get k).map (fun v => if incomplete num v then [] else v) := by
  have scanned := takeIncompleteScan num m.entries []
  simp only [SortedMap.scan, SortedMap.get, scanned]
  exact SortedMap.lookupEntryMap (fun _ v => if incomplete num v then [] else v) k m.entries

theorem reorganizeRewrites (a : AssignedCollators α) (num : Nat) :
    Rewrites num (((a.containerChains.scan (takeIncomplete num) []).2.mergeSort
        (fun x y => x.2.length ≤ y.2.length)).map Prod.fst)
      (a.containerChains.scan (takeIncomplete num) []).1
      (a.reorganizeIncompleteContainerChainsCollators num).1.containerChains :=
  reorganizeLoopRewrites num _ _ (waitingPerm (List.mergeSort_perm _ _).symm (takeIncompleteWaiting num _))

theorem memKeysReorganize {a : AssignedCollators α} {num : Nat} {k : ParaId} :
    k ∈ (a.reorganizeIncompleteContainerChainsCollators num).1.containerChains.keys ↔ k ∈ a.containerChains.keys := by
  rw [(reorganizeRewrites a num).keys k, SortedMap.scanKeys]

theorem reorganizePacked {a : AssignedCollators α} {num : Nat} (bounded : ∀ k v, a.containerChains.get k = some v → v.length ≤ num)
    {k : ParaId} {v : List α} (h : (a.reorganizeIncompleteContainerChainsCollators num).1.containerChains.get k = some v) :
    v.length = 0 ∨ v.length = num := by
  rcases (reorganizeRewrites a num).complete k v h with scanned | full
  · rw [getTakeIncomplete] at scanned
    obtain ⟨old,found,rfl⟩ := Option.map_eq_some_iff.mp scanned
    have small := bounded k old found
    unfold incomplete
    split
    · exact .inl rfl
    · rename_i kept
      simp only [Bool.and_eq_true, Bool.not_eq_eq_eq_not, Bool.not_true, decide_eq_true_eq, not_and, not_lt] at kept
      by_cases empty : old.isEmpty
      · exact .inl (List.isEmpty_iff_length_eq_zero.mp empty)
      · exact .inr (by have := kept (by simpa using empty); omega)
  · exact .inr full

theorem reorganizeKeepsFull {a : AssignedCollators α} {num : Nat} {k : ParaId} {v : List α}
    (found : a.containerChains.get k = some v) (full : incomplete num v = false) :
    (a.reorganizeIncompleteContainerChainsCollators num).1.containerChains.get k = some v := by
  have notWaiting : k ∉ ((a.containerChains.scan (takeIncomplete num) []).2.mergeSort
      (fun x y => x.2.length ≤ y.2.length)).map Prod.fst := by
    intro mem
    obtain ⟨e,inDeque,rfl⟩ := List.mem_map.mp mem
    have inScan := (List.mergeSort_perm _ _).subset inDeque
    have scanned := takeIncompleteScan num a.containerChains.entries []
    simp only [SortedMap.scan, scanned, List.nil_append, List.mem_filter] at inScan
    have same : a.containerChains.get e.1 = some e.2 := SortedMap.getSomeIff.mpr inScan.1
    rw [found] at same
    cases same
    rw [full] at inScan
    exact Bool.false_ne_true inScan.2
  rw [(reorganizeRewrites a num).others k notWaiting, getTakeIncomplete, found]
  simp [full]

/- How many collators the reorganisation returns, and how many chains it completes. Over
the chains `ids` that wait in the deque, `load` counts what the map holds of them: a
completed chain adds `num`. When the loop ends every collator of the deque is in a
completed chain or in what it returns, and what it returns is what is left of one chain
of the deque, fewer than `num`. -/

def load (ids : Finset ParaId) (m : SortedMap ParaId (List α)) : Nat := ∑ k ∈ ids, ((m.get k).getD []).length

def carried : List α ⊕ List (ParaId × List α) → List α
  | .inl left => left
  | .inr dq => queued dq

def Short (num : Nat) (dq : List (ParaId × List α)) : Prop := ∀ e ∈ dq, e.2.length < num

omit [DecidableEq α] in
theorem loadInsert {ids : Finset ParaId} {m : SortedMap ParaId (List α)} {id : ParaId} (v : List α)
    (mem : id ∈ ids) (waiting : m.get id = some []) : load ids (m.insert id v) = load ids m + v.length := by
  have updated : (fun k => (((m.insert id v).get k).getD []).length) =
      Function.update (fun k => ((m.get k).getD []).length) id v.length := by
    funext k
    by_cases same : k = id
    · subst same
      simp [SortedMap.getInsertSelf]
    · simp [SortedMap.getInsertNe v same, same]
  have split := Finset.add_sum_erase ids (fun k => ((m.get k).getD []).length) mem
  unfold load
  rw [updated, Finset.sum_update_of_mem mem, Finset.sdiff_singleton_eq_erase, ← split, waiting]
  simp [Nat.add_comm]

omit [DecidableEq α] in
theorem moveFrontCounts (num : Nat) (ids : Finset ParaId) :
    ∀ (popped : List α) {dq : List (ParaId × List α)} {m : SortedMap ParaId (List α)}, Waiting m dq →
      (∀ k ∈ dq.map Prod.fst, k ∈ ids) →
      load ids (moveFront num popped dq m).2 + (carried (moveFront num popped dq m).1).length =
        load ids m + (queued dq).length + popped.length
  | [], dq, m, _, _ => by simp [moveFront, carried]
  | c :: popped, dq, m, w, sub => by
    simp only [moveFront]
    split
    · -- no chain at the back: what is left of the popped chain is returned
      rename_i last
      rw [List.getLast?_eq_none_iff.mp last]
      simp [carried, queued]
    · rename_i id back last
      have emptied : m.get id = some [] := w.2 (id,back) (by rw [backSplit last]; simp)
      have member : id ∈ ids := sub id (by rw [backSplit last]; simp)
      have shorter : ∀ k ∈ dq.dropLast.map Prod.fst, k ∈ ids :=
        fun k mem => sub k ((List.dropLast_sublist dq |>.map Prod.fst).subset mem)
      split
      · rw [moveFrontCounts num ids popped (waitingComplete w last (back ++ [c])) shorter,
          loadInsert _ member emptied, queuedBack last]
        simp only [List.length_append, List.length_cons, List.length_nil]
        omega
      · have grown : ∀ k ∈ (dq.dropLast ++ [(id,back ++ [c])]).map Prod.fst, k ∈ ids := by
          intro k mem
          simp only [List.map_append, List.map_cons, List.map_nil, List.mem_append, List.mem_singleton] at mem
          rcases mem with mem | rfl
          · exact shorter k mem
          · exact member
        rw [moveFrontCounts num ids popped (waitingGrow w last (back ++ [c])) grown, queuedBack last]
        simp only [queued, List.map_append, List.map_cons, List.map_nil, List.flatten_append, List.flatten_cons,
          List.flatten_nil, List.length_append, List.length_cons, List.length_nil]
        omega

omit [DecidableEq α] in
theorem moveFrontShort (num : Nat) :
    ∀ (popped : List α) (dq : List (ParaId × List α)) (m : SortedMap ParaId (List α)), Short num dq →
      (∀ left, (moveFront num popped dq m).1 = .inl left → left.length ≤ popped.length) ∧
        ∀ dq', (moveFront num popped dq m).1 = .inr dq' → Short num dq'
  | [], dq, m, short => ⟨fun _ h => (by cases h), fun dq' h => (by cases h; exact short)⟩
  | c :: popped, dq, m, short => by
    simp only [moveFront]
    split
    · refine ⟨fun left h => ?_, fun _ h => (by cases h)⟩
      cases h
      simp
    · rename_i id back last
      have backShort : back.length < num := short (id,back) (by rw [backSplit last]; simp)
      have restShort : Short num dq.dropLast := fun e he => short e (List.mem_of_mem_dropLast he)
      split
      · obtain ⟨left,rest⟩ := moveFrontShort num popped dq.dropLast _ restShort
        exact ⟨fun l h => Nat.le_succ_of_le (left l h),rest⟩
      · rename_i notFull
        have grown : Short num (dq.dropLast ++ [(id,back ++ [c])]) := by
          intro e he
          rcases List.mem_append.mp he with he | he
          · exact restShort e he
          · rw [List.mem_singleton.mp he]
            simp only [List.length_append, List.length_singleton] at notFull ⊢
            omega
        obtain ⟨left,rest⟩ := moveFrontShort num popped _ m grown
        exact ⟨fun l h => Nat.le_succ_of_le (left l h),rest⟩

theorem reorganizeLoopCounts (num : Nat) (ids : Finset ParaId) (dq : List (ParaId × List α))
    (m : SortedMap ParaId (List α)) (w : Waiting m dq) (sub : ∀ k ∈ dq.map Prod.fst, k ∈ ids) :
    load ids (reorganizeLoop num dq m).1 + (reorganizeLoop num dq m).2.length = load ids m + (queued dq).length := by
  fun_induction reorganizeLoop num dq m with
  | case1 m => simp [queued]
  | case2 m id front rest left m' h =>
    have counted := moveFrontCounts num ids front.reverse (waitingTail w)
      fun k mem => sub k (List.mem_cons_of_mem _ mem)
    rw [h] at counted
    simp only [carried, List.length_reverse] at counted
    simp only [queued, List.map_cons, List.flatten_cons, List.length_append] at counted ⊢
    omega
  | case3 m id front rest dq' m' h ih =>
    have counted := moveFrontCounts num ids front.reverse (waitingTail w)
      fun k mem => sub k (List.mem_cons_of_mem _ mem)
    have waits := (moveFrontConserves num front.reverse (waitingTail w)).1
    have inRest := (moveFrontRewrites num front.reverse (waitingTail w)).2
    rw [h] at counted waits inRest
    simp only [carried, List.length_reverse] at counted
    rw [ih waits fun k mem => sub k (List.mem_cons_of_mem _ (inRest dq' rfl k mem)), counted]
    simp only [queued, List.map_cons, List.flatten_cons, List.length_append]
    omega

omit [DecidableEq α] in
theorem reorganizeLoopShort {num : Nat} (positive : 0 < num) (dq : List (ParaId × List α))
    (m : SortedMap ParaId (List α)) (short : Short num dq) : (reorganizeLoop num dq m).2.length < num := by
  fun_induction reorganizeLoop num dq m with
  | case1 m => simpa using positive
  | case2 m id front rest left m' h =>
    have fits := (moveFrontShort num front.reverse rest m fun e he => short e (List.mem_cons_of_mem _ he)).1 left
      (by rw [h])
    have frontShort := short (id,front) List.mem_cons_self
    rw [List.length_reverse] at fits
    exact lt_of_le_of_lt fits frontShort
  | case3 m id front rest dq' m' h ih =>
    exact ih ((moveFrontShort num front.reverse rest m fun e he => short e (List.mem_cons_of_mem _ he)).2 dq'
      (by rw [h]))

omit [DecidableEq α] in
theorem incompleteIff {num : Nat} {cs : List α} : incomplete num cs = true ↔ 0 < cs.length ∧ cs.length < num := by
  simp [incomplete, List.length_pos_iff]

omit [DecidableEq α] in
theorem takeIncompleteDeque (m : SortedMap ParaId (List α)) (num : Nat) :
    (m.scan (takeIncomplete num) []).2 = m.entries.filter fun e => incomplete num e.2 := by
  simp [SortedMap.scan, takeIncompleteScan]

omit [DecidableEq α] in
theorem loadPacked {ids : Finset ParaId} {m : SortedMap ParaId (List α)} {num : Nat}
    (packed : ∀ k ∈ ids, ((m.get k).getD []).length = 0 ∨ ((m.get k).getD []).length = num) :
    load ids m = num * (ids.filter fun k => ((m.get k).getD []).length = num).card := by
  have each : ∀ k ∈ ids, ((m.get k).getD []).length = if ((m.get k).getD []).length = num then num else 0 := by
    intro k mem
    rcases packed k mem with zero | full
    · rw [zero]
      split <;> omega
    · simp [full]
  unfold load
  rw [Finset.sum_congr rfl each, ← Finset.sum_filter, Finset.sum_const, smul_eq_mul, Nat.mul_comm]

theorem reorganizeCounts (a : AssignedCollators α) {num : Nat} (positive : 0 < num) :
    let waiting := a.containerChains.entries.filter fun e => incomplete num e.2
    let out := (a.reorganizeIncompleteContainerChainsCollators num).1.containerChains
    ((waiting.map Prod.fst).toFinset.filter fun k => ((out.get k).getD []).length = num).card =
        (waiting.map (·.2.length)).sum / num ∧
      (a.reorganizeIncompleteContainerChainsCollators num).2.length = (waiting.map (·.2.length)).sum % num := by
  intro waiting out
  set r := a.containerChains.scan (takeIncomplete num) [] with scanned
  have deque : r.2 = waiting := takeIncompleteDeque a.containerChains num
  set sorted := r.2.mergeSort fun x y => x.2.length ≤ y.2.length
  have sortedPerm : sorted ~ r.2 := List.mergeSort_perm _ _
  have unfolded : a.reorganizeIncompleteContainerChainsCollators num =
      ({ a with containerChains := (reorganizeLoop num sorted r.1).1 }, (reorganizeLoop num sorted r.1).2) := rfl
  set ids := (waiting.map Prod.fst).toFinset
  have taken := takeIncompleteWaiting num a.containerChains
  rw [← scanned] at taken
  have emptied : ∀ k ∈ ids, r.1.get k = some [] := by
    intro k mem
    obtain ⟨e, he, rfl⟩ := List.mem_map.mp (List.mem_toFinset.mp mem)
    exact taken.2 e (deque ▸ he)
  have sub : ∀ k ∈ sorted.map Prod.fst, k ∈ ids := by
    intro k mem
    rw [List.mem_toFinset, ← deque]
    exact (sortedPerm.map Prod.fst).subset mem
  have start : load ids r.1 = 0 := Finset.sum_eq_zero fun k mem => by rw [emptied k mem]; rfl
  have total : (queued sorted).length = (waiting.map (·.2.length)).sum := by
    rw [queued, ((sortedPerm.map Prod.snd).flatten).length_eq, deque, List.length_flatten, List.map_map]
    rfl
  have packed : ∀ k ∈ ids, ((out.get k).getD []).length = 0 ∨ ((out.get k).getD []).length = num := by
    intro k mem
    cases found : out.get k with
    | none => exact .inl rfl
    | some v =>
      rcases (reorganizeRewrites a num).complete k v found with before | full
      · rw [emptied k mem] at before
        cases before
        exact .inl rfl
      · exact .inr full
  have short : Short num sorted := by
    intro e he
    have waited := sortedPerm.subset he
    rw [deque] at waited
    exact (incompleteIff.mp (List.mem_filter.mp waited).2).2
  have counted := reorganizeLoopCounts num ids sorted r.1 (waitingPerm sortedPerm.symm taken) sub
  have left := reorganizeLoopShort positive sorted r.1 short
  have loaded : load ids (reorganizeLoop num sorted r.1).1 =
      num * (ids.filter fun k => ((out.get k).getD []).length = num).card := loadPacked packed
  rw [start, total, Nat.zero_add, loaded] at counted
  show _ ∧ (reorganizeLoop num sorted r.1).2.length = _
  rw [← counted]
  constructor
  · rw [Nat.add_comm, Nat.add_mul_div_left _ _ positive, Nat.div_eq_of_lt left, Nat.zero_add]
  · rw [Nat.add_comm, Nat.add_mul_mod_self_left, Nat.mod_eq_of_lt left]

theorem reorganizePacksPartialChains (a : AssignedCollators α) {num : Nat} (positive : 1 ≤ num)
    (bounded : ∀ k v, a.containerChains.get k = some v → v.length ≤ num) :
    let out := a.reorganizeIncompleteContainerChainsCollators num
    let partialChains := a.containerChains.entries.filter fun e => 1 ≤ e.2.length ∧ e.2.length ≤ num - 1
    let total := (partialChains.map (·.2.length)).sum
    (∀ k, k ∈ out.1.containerChains.keys ↔ k ∈ a.containerChains.keys) ∧
      (∀ k v, out.1.containerChains.get k = some v → v.length = 0 ∨ v.length = num) ∧
      (∀ k v, a.containerChains.get k = some v → v.length = 0 ∨ v.length = num →
        out.1.containerChains.get k = some v) ∧
      ((partialChains.map Prod.fst).filter fun k => (out.1.containerChains.get k).map List.length = some num).length =
        total / num ∧
      out.2.length = total % num ∧
      out.1.containerChains.values.flatten ++ out.2 ~ a.containerChains.values.flatten := by
  intro out partialChains total
  have taken : partialChains = a.containerChains.entries.filter fun e => incomplete num e.2 := by
    refine List.filter_congr fun e _ => ?_
    rw [Bool.eq_iff_iff, decide_eq_true_iff, incompleteIff]
    omega
  obtain ⟨quotient, remainder⟩ := reorganizeCounts a positive
  have nodup : (partialChains.map Prod.fst).Nodup :=
    a.containerChains.keysNodup.sublist (List.filter_sublist.map _)
  have full : ∀ k, (out.1.containerChains.get k).map List.length = some num ↔
      ((out.1.containerChains.get k).getD []).length = num := by
    intro k
    cases out.1.containerChains.get k with
    | none => simp only [Option.map_none, reduceCtorEq, Option.getD_none, List.length_nil, false_iff]; omega
    | some v => simp
  have completed : ((partialChains.map Prod.fst).filter fun k =>
      (out.1.containerChains.get k).map List.length = some num).length =
      (((a.containerChains.entries.filter fun e => incomplete num e.2).map Prod.fst).toFinset.filter
        fun k => ((out.1.containerChains.get k).getD []).length = num).card := by
    rw [← List.toFinset_card_of_nodup (nodup.filter _), List.toFinset_filter, taken]
    exact congrArg Finset.card (Finset.filter_congr fun k _ => by simpa using full k)
  have conserved := a.reorganizeConserves num
  simp only [assigned, reorganizeIncompleteContainerChainsCollatorsOrchestrator, List.append_assoc] at conserved
  refine ⟨fun k => memKeysReorganize, fun k v found => reorganizePacked bounded found,
    fun k v found packed => reorganizeKeepsFull found ?_, ?_, ?_, (List.perm_append_left_iff _).mp conserved⟩
  · rcases packed with empty | complete
    · simp [incomplete, List.eq_nil_of_length_eq_zero empty]
    · simp [incomplete, complete]
  · rw [completed, quotient]
    simp only [total, taken]
  · rw [remainder]
    simp only [total, taken]

theorem reorganizePacksPartialChainsTwoPartial :
    let a : AssignedCollators Nat := ⟨[], ⟨[(1001,[1]),(1002,[2,3]),(1003,[]),(1004,[4,5,6])], by decide⟩⟩
    1 ≤ 3 ∧ (∀ k v, a.containerChains.get k = some v → v.length ≤ 3) ∧
      let out := a.reorganizeIncompleteContainerChainsCollators 3
      let partialChains := a.containerChains.entries.filter fun e => 1 ≤ e.2.length ∧ e.2.length ≤ 3 - 1
      let total := (partialChains.map (·.2.length)).sum
      (∀ k, k ∈ out.1.containerChains.keys ↔ k ∈ a.containerChains.keys) ∧
        (∀ k v, out.1.containerChains.get k = some v → v.length = 0 ∨ v.length = 3) ∧
        (∀ k v, a.containerChains.get k = some v → v.length = 0 ∨ v.length = 3 →
          out.1.containerChains.get k = some v) ∧
        ((partialChains.map Prod.fst).filter fun k => (out.1.containerChains.get k).map List.length = some 3).length =
          total / 3 ∧
        out.2.length = total % 3 ∧
        out.1.containerChains.values.flatten ++ out.2 ~ a.containerChains.values.flatten :=
  have bounded : ∀ k v, (⟨[], ⟨[(1001,[1]),(1002,[2,3]),(1003,[]),(1004,[4,5,6])], by decide⟩⟩ :
      AssignedCollators Nat).containerChains.get k = some v → v.length ≤ 3 := by
    intro k v found
    have listed := SortedMap.getSomeIff.mp found
    simp only [List.mem_cons, Prod.mk.injEq, List.not_mem_nil, or_false] at listed
    rcases listed with ⟨-, rfl⟩ | ⟨-, rfl⟩ | ⟨-, rfl⟩ | ⟨-, rfl⟩ <;> decide
  ⟨by decide, bounded, reorganizePacksPartialChains _ (by decide) bounded⟩

end AssignedCollators
end Tanssi
