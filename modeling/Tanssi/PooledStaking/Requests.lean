import Tanssi.FiniteSum
import Tanssi.PooledStaking.Holds

/-! A request is recorded twice: as shares of the `Joining` or the `Leaving` pool, and as a
pending operation under the instant it was made at, which `execute_pending_operations`
takes off one key at a time. Over all instants, a delegator's pending operations on a
candidate add up to its shares in that pool (`RequestsMatchShares`), and no delegators
hold more of a pool than its supply (`SharesWithinSupply`); so the `sub_shares` that
executes a non-zero operation always succeeds. -/
namespace Tanssi.PooledStaking
open Frame FiniteSum

variable {α ι σ : Type}

def PendingOperationKey.pool : PendingOperationKey α ι → AllTargetPool
  | .joiningAutoCompounding .. | .joiningManualRewards .. => .joining
  | .leaving .. => .leaving

def PendingOperationKey.candidate : PendingOperationKey α ι → α
  | .joiningAutoCompounding c _ | .joiningManualRewards c _ | .leaving c _ => c

def PendingOperationKey.instant : PendingOperationKey α ι → ι
  | .joiningAutoCompounding _ i | .joiningManualRewards _ i | .leaving _ i => i

theorem PendingOperationKey.poolHoldsRequests (k : PendingOperationKey α ι) : k.pool.holdsRequests := by
  cases k <;> rfl

@[simp] theorem joiningOperationKeyPool (pool : TargetPool) (candidate : α) (now : ι) :
    (Calls.joiningOperationKey pool candidate now).pool = .joining := by
  cases pool <;> rfl

@[simp] theorem joiningOperationKeyCandidate (pool : TargetPool) (candidate : α) (now : ι) :
    (Calls.joiningOperationKey pool candidate now).candidate = candidate := by
  cases pool <;> rfl

def requestedAt (operations : PendingOperationKey α ι → Nat) (candidate : α) (instant : ι) : AllTargetPool → Nat
  | .joining => operations (.joiningAutoCompounding candidate instant) + operations (.joiningManualRewards candidate instant)
  | .leaving => operations (.leaving candidate instant)
  | .autoCompounding | .manualRewards => 0

noncomputable def requestedShares (operations : PendingOperationKey α ι → Nat) (candidate : α)
    (pool : AllTargetPool) : Nat :=
  ∑ᶠ instant, requestedAt operations candidate instant pool

def PoolsKey.requestShares : PoolsKey α → Bool
  | .shares p _ => p.holdsRequests
  | _ => false

def PoolsKey.sharesOrSupply : PoolsKey α → Bool
  | .shares _ _ | .sharesSupply _ => true
  | _ => false

section Requested
variable {operations : PendingOperationKey α ι → Nat}

theorem requestedAtFinite (finite : operations.HasFiniteSupport) (candidate : α) (pool : AllTargetPool) :
    (fun instant => requestedAt operations candidate instant pool).HasFiniteSupport := by
  cases pool with
  | joining =>
    exact (finite.fun_comp_of_injective fun _ _ same => by injection same).add
      (finite.fun_comp_of_injective fun _ _ same => by injection same)
  | leaving => exact finite.fun_comp_of_injective fun _ _ same => by injection same
  | autoCompounding | manualRewards => simp [requestedAt, Function.HasFiniteSupport]

theorem operationLeRequested (finite : operations.HasFiniteSupport) (k : PendingOperationKey α ι) :
    operations k ≤ requestedShares operations k.candidate k.pool := by
  have atInstant : operations k ≤ requestedAt operations k.candidate k.instant k.pool := by
    cases k <;> simp [requestedAt, PendingOperationKey.candidate, PendingOperationKey.instant, PendingOperationKey.pool]
  exact atInstant.trans (single_le_finsum k.instant (requestedAtFinite finite _ _) fun _ => Nat.zero_le _)

variable [DecidableEq α] [DecidableEq ι]

theorem requestedAtUpdate (operations : PendingOperationKey α ι → Nat) (k : PendingOperationKey α ι) (v : Nat)
    (candidate : α) (instant : ι) (pool : AllTargetPool) :
    requestedAt (Function.update operations k v) candidate instant pool +
        (if candidate = k.candidate ∧ instant = k.instant ∧ pool = k.pool then operations k else 0) =
      requestedAt operations candidate instant pool +
        (if candidate = k.candidate ∧ instant = k.instant ∧ pool = k.pool then v else 0) := by
  cases pool <;> cases k <;>
    simp only [requestedAt, Function.update_apply, PendingOperationKey.candidate, PendingOperationKey.instant,
      PendingOperationKey.pool, PendingOperationKey.joiningAutoCompounding.injEq,
      PendingOperationKey.joiningManualRewards.injEq, PendingOperationKey.leaving.injEq, reduceCtorEq, and_false,
      if_false, and_true, add_zero] <;>
    split_ifs <;> grind

theorem requestedSharesUpdate (finite : operations.HasFiniteSupport) (k : PendingOperationKey α ι) (v : Nat)
    (candidate : α) (pool : AllTargetPool) :
    requestedShares (Function.update operations k v) candidate pool +
        (if candidate = k.candidate ∧ pool = k.pool then operations k else 0) =
      requestedShares operations candidate pool + (if candidate = k.candidate ∧ pool = k.pool then v else 0) := by
  have outside : ∀ instant, instant ≠ k.instant →
      requestedAt (Function.update operations k v) candidate instant pool = requestedAt operations candidate instant pool := by
    intro instant other
    have moved := requestedAtUpdate operations k v candidate instant pool
    simp only [other, false_and, and_false, if_false, add_zero] at moved
    exact moved
  have sum := finsumChangeAt (requestedAtFinite finite candidate pool) k.instant outside
  have atInstant := requestedAtUpdate operations k v candidate k.instant pool
  simp only [true_and] at atInstant
  unfold requestedShares
  omega

end Requested

structure RequestsMatchShares (st : State α ι σ) : Prop where
  finite : ∀ d, (st.pendingOperations d).HasFiniteSupport
  bounded : ∀ d k, st.pendingOperations d k < balanceBound
  exact : ∀ d c p, p.holdsRequests → requestedShares (st.pendingOperations d) c p = st.pools c (.shares p d)

namespace RequestsMatchShares
variable {cfg : Config α σ} {st st' : State α ι σ} {delegator : α}

theorem empty (currency : σ) : RequestsMatchShares (State.empty currency : State α ι σ) where
  finite _ := by simp [State.empty, Function.HasFiniteSupport]
  bounded _ _ := balanceBoundPos
  exact _ _ p _ := by cases p <;> simp [requestedShares, requestedAt, State.empty]

theorem ofKeeps (inv : RequestsMatchShares st) (kept : Keeps PoolsKey.requestShares st st') : RequestsMatchShares st' where
  finite := by rw [kept.pending]; exact inv.finite
  bounded := by rw [kept.pending]; exact inv.bounded
  exact d c p req := by
    rw [kept.pending, kept.pools c (.shares p d) req]
    exact inv.exact d c p req

section Writes
variable [DecidableEq α] [DecidableEq ι]

theorem ofWrite {st₁ : State α ι σ} {k : PendingOperationKey α ι} {v : Nat} (inv : RequestsMatchShares st)
    (fits : v < balanceBound) (pending : st₁.pendingOperations = st.pendingOperations)
    (moved : ∀ c p d, p.holdsRequests →
      st₁.pools c (.shares p d) + (if d = delegator ∧ c = k.candidate ∧ p = k.pool then st.pendingOperations delegator k else 0) =
        st.pools c (.shares p d) + (if d = delegator ∧ c = k.candidate ∧ p = k.pool then v else 0)) :
    RequestsMatchShares (st₁.setPending delegator k v) where
  finite d := by
    by_cases here : d = delegator
    · subst here
      rw [State.setPendingSelf, pending]
      exact hasFiniteSupportOfChangeAt (inv.finite d) k fun x other => Function.update_of_ne other _ _
    · rw [State.setPendingOther _ here, pending]
      exact inv.finite d
  bounded d k' := by
    simp only [State.setPendingPending, pending]
    split
    · exact fits
    · exact inv.bounded d k'
  exact d c p req := by
    have before := inv.exact d c p req
    have shares := moved c p d req
    by_cases here : d = delegator
    · subst here
      have update := requestedSharesUpdate (inv.finite d) k v c p
      simp only [true_and] at shares
      rw [State.setPendingSelf, pending, State.setPendingPools]
      omega
    · simp only [here, false_and, if_false, add_zero] at shares
      rw [State.setPendingOther _ here, pending, State.setPendingPools, shares]
      exact before

theorem request {st₁ st₂ : State α ι σ} {k : PendingOperationKey α ι} {pool : AllTargetPool} {candidate : α}
    {shares stake : Nat} (inv : RequestsMatchShares st) (key : k.pool = pool ∧ k.candidate = candidate)
    (added : Pool.addShares cfg pool candidate delegator shares st = .ok (stake, st₁))
    (kept : Keeps PoolsKey.requestShares st₁ st₂) (fits : st₂.pendingOperations delegator k + shares < balanceBound) :
    RequestsMatchShares (st₂.setPending delegator k (st₂.pendingOperations delegator k + shares)) := by
  obtain ⟨-, -, -, -, -, rfl⟩ := Pool.addSharesOk added
  obtain ⟨rfl, rfl⟩ := key
  have pending := kept.pending
  simp only [State.setPoolPending] at pending
  refine inv.ofWrite fits pending fun c p d req => ?_
  rw [kept.pools c (.shares p d) req, pending]
  by_cases here : d = delegator ∧ c = k.candidate ∧ p = k.pool
  · obtain ⟨rfl, rfl, rfl⟩ := here
    simp
    omega
  · have other : ¬(c = k.candidate ∧ p = k.pool ∧ d = delegator) := by tauto
    simp [here, other]

theorem execute {st₁ st₂ : State α ι σ} {k : PendingOperationKey α ι} {pool : AllTargetPool} {candidate : α}
    {stake : Nat} (inv : RequestsMatchShares st) (key : k.pool = pool ∧ k.candidate = candidate)
    (subtracted : Pool.subShares pool candidate delegator (st.pendingOperations delegator k) st = .ok (stake, st₁))
    (kept : Keeps PoolsKey.requestShares st₁ st₂) : RequestsMatchShares (st₂.setPending delegator k 0) := by
  obtain ⟨-, -, -, owned, -, rfl⟩ := Pool.subSharesOk subtracted
  obtain ⟨rfl, rfl⟩ := key
  have pending := kept.pending
  simp only [State.setPoolPending] at pending
  refine inv.ofWrite balanceBoundPos pending fun c p d req => ?_
  rw [kept.pools c (.shares p d) req]
  by_cases here : d = delegator ∧ c = k.candidate ∧ p = k.pool
  · obtain ⟨rfl, rfl, rfl⟩ := here
    simp only [Pool.shares] at owned
    simp
    omega
  · have other : ¬(c = k.candidate ∧ p = k.pool ∧ d = delegator) := by tauto
    simp [here, other]

end Writes
end RequestsMatchShares

def SharesWithinSupply (st : State α ι σ) : Prop :=
  ∀ c p (delegators : Finset α), ∑ d ∈ delegators, st.pools c (.shares p d) ≤ st.pools c (.sharesSupply p)

namespace SharesWithinSupply
variable {cfg : Config α σ} {st st' : State α ι σ} {pool : AllTargetPool} {candidate delegator : α}

theorem empty (currency : σ) : SharesWithinSupply (State.empty currency : State α ι σ) := by
  intro c p delegators
  simp [State.empty]

theorem ofPools (inv : SharesWithinSupply st) (same : st'.pools = st.pools) : SharesWithinSupply st' := by
  rw [SharesWithinSupply, same]
  exact inv

theorem ofKeeps (inv : SharesWithinSupply st) (kept : Keeps PoolsKey.sharesOrSupply st st') : SharesWithinSupply st' := by
  intro c p delegators
  rw [Finset.sum_congr rfl fun d _ => kept.pools c (.shares p d) rfl, kept.pools c (.sharesSupply p) rfl]
  exact inv c p delegators

section Writes
variable [DecidableEq α]

theorem ofShareWrite (inv : SharesWithinSupply st) {supply shares total : Nat}
    (moved : supply + st.pools candidate (.shares pool delegator) = st.pools candidate (.sharesSupply pool) + shares) :
    SharesWithinSupply (((st.setPool candidate (.sharesSupply pool) supply).setPool candidate
      (.shares pool delegator) shares).setPool candidate (.sharesTotalStaked pool) total) := by
  intro c p delegators
  by_cases here : c = candidate ∧ p = pool
  · obtain ⟨rfl, rfl⟩ := here
    set written := ((st.setPool c (.sharesSupply p) supply).setPool c (.shares p delegator) shares).setPool c
      (.sharesTotalStaked p) total with writes
    have others : ∀ d, d ≠ delegator → written.pools c (.shares p d) = st.pools c (.shares p d) := by
      intro d other
      simp [writes, other]
    have own : written.pools c (.shares p delegator) = shares := by simp [writes]
    have newSupply : written.pools c (.sharesSupply p) = supply := by simp [writes]
    rw [newSupply]
    by_cases mem : delegator ∈ delegators
    · have before := inv c p delegators
      rw [← Finset.add_sum_erase _ _ mem] at before ⊢
      rw [Finset.sum_congr rfl fun d hd => others d (Finset.ne_of_mem_erase hd), own]
      omega
    · have before := inv c p (insert delegator delegators)
      rw [Finset.sum_insert mem] at before
      rw [Finset.sum_congr rfl fun d hd => others d fun same => mem (same ▸ hd)]
      omega
  · have sameShares : ∀ d, (((st.setPool candidate (.sharesSupply pool) supply).setPool candidate
        (.shares pool delegator) shares).setPool candidate (.sharesTotalStaked pool) total).pools c (.shares p d) =
          st.pools c (.shares p d) := by
      intro d
      simp only [State.setPoolPools, PoolsKey.shares.injEq, reduceCtorEq, and_false, if_false]
      rw [if_neg fun same => here ⟨same.1, same.2.1⟩]
    have sameSupply : (((st.setPool candidate (.sharesSupply pool) supply).setPool candidate
        (.shares pool delegator) shares).setPool candidate (.sharesTotalStaked pool) total).pools c (.sharesSupply p) =
          st.pools c (.sharesSupply p) := by
      simp only [State.setPoolPools, PoolsKey.sharesSupply.injEq, reduceCtorEq, and_false, if_false]
      rw [if_neg here]
    rw [Finset.sum_congr rfl fun d _ => sameShares d, sameSupply]
    exact inv c p delegators

theorem addShares {shares stake : Nat} (inv : SharesWithinSupply st)
    (h : Pool.addShares cfg pool candidate delegator shares st = .ok (stake, st')) : SharesWithinSupply st' := by
  obtain ⟨-, -, -, -, -, rfl⟩ := Pool.addSharesOk h
  refine inv.ofShareWrite ?_
  simp only [Pool.sharesSupply, Pool.shares]
  omega

theorem subShares {shares stake : Nat} (inv : SharesWithinSupply st)
    (h : Pool.subShares pool candidate delegator shares st = .ok (stake, st')) : SharesWithinSupply st' := by
  obtain ⟨-, -, supplied, owned, -, rfl⟩ := Pool.subSharesOk h
  refine inv.ofShareWrite ?_
  simp only [Pool.sharesSupply, Pool.shares] at supplied owned ⊢
  omega

end Writes
end SharesWithinSupply

/- Each call keeps both invariants. -/

section Calls
variable [LinearOrder α] {cfg : Config α σ} {env : Env α ι} {st st' : State α ι σ}
  {candidate delegator : α}

theorem Calls.executeJoiningRequests {pool : TargetPool} {joiningShares : Nat}
    (h : Calls.executeJoining cfg env candidate delegator pool joiningShares st = .ok st') :
    ∃ stake subtracted, Pool.subShares .joining candidate delegator joiningShares st = .ok (stake, subtracted) ∧
      Keeps PoolsKey.requestShares subtracted st' := by
  obtain ⟨stake, subtracted, released, claimed, shares, hsub, hreleased, hclaimed, -, rest, -⟩ :=
    Calls.executeJoiningOk h
  refine ⟨stake, subtracted, hsub, ?_⟩
  have claimedKept : Keeps PoolsKey.requestShares subtracted claimed :=
    (Keeps.decreaseHold rfl hreleased).trans (Keeps.ofClaim (Calls.claimIfManualOk hclaimed) fun _ => rfl)
  rcases rest with ⟨-, currency, -, final⟩ | ⟨-, actuallyStaked, added, held, currency, hadded, hheld, -, -, final⟩
  · exact claimedKept.trans ((Keeps.setCurrency currency).trans (Keeps.subTotalStake rfl final))
  · have joined : Keeps PoolsKey.requestShares claimed held :=
      (Keeps.addShares ⟨rfl, by simp [PoolsKey.requestShares], rfl⟩ hadded).trans (Keeps.increaseHold rfl hheld)
    exact (claimedKept.trans joined).trans ((Keeps.setCurrency currency).trans (Keeps.subTotalStake rfl final))

namespace RequestsMatchShares
variable [DecidableEq ι]

theorem requestDelegate {pool : TargetPool} {amount : Nat} (inv : RequestsMatchShares st)
    (h : Calls.requestDelegate cfg env candidate delegator pool amount st = .ok st') : RequestsMatchShares st' := by
  obtain ⟨shares, stake, added, currency, held, updated, hadded, -, hheld, hupdated, fits, rfl, -⟩ :=
    Calls.requestDelegateOk h
  have kept : Keeps PoolsKey.requestShares added updated :=
    ((Keeps.setCurrency currency).trans (Keeps.increaseHold rfl hheld)).trans (Keeps.addTotalStake rfl hupdated)
  exact inv.request (by simp) hadded kept fits

theorem requestUndelegate {pool : TargetPool} {amount : SharesOrStake} (inv : RequestsMatchShares st)
    (h : Calls.requestUndelegate cfg env candidate delegator pool amount st = .ok st') : RequestsMatchShares st' := by
  obtain ⟨shares, claimed, rebalanced, removed, subtracted, released, updated, leavingShares, leavingStake, added,
    held, queued, hclaimed, hrebalanced, hsub, hreleased, hupdated, hadded, hheld, fits, hqueued, -, final, -⟩ :=
    Calls.requestUndelegateOk h
  have rebalancedKept : Keeps PoolsKey.requestShares claimed rebalanced := by
    rcases hrebalanced with rfl | hrebalanced
    · exact .refl _
    · exact Keeps.rebalanceHold rfl hrebalanced
  have updatedKept : Keeps PoolsKey.requestShares st updated :=
    ((Keeps.ofClaim (Calls.claimIfManualOk hclaimed) fun _ => rfl).trans rebalancedKept).trans
      (((Keeps.subShares ⟨rfl, by simp [PoolsKey.requestShares], rfl⟩ hsub).trans (Keeps.decreaseHold rfl hreleased)).trans
        (Keeps.subTotalStake rfl hupdated))
  have queuedInv : RequestsMatchShares queued := by
    rw [hqueued]
    exact (inv.ofKeeps updatedKept).request ⟨rfl, rfl⟩ hadded (Keeps.increaseHold rfl hheld) fits
  rcases final with ⟨-, rfl⟩ | ⟨-, currency, -, rfl⟩
  · exact queuedInv
  · exact queuedInv.ofKeeps (.setCurrency currency)

theorem executeOperation {index : Nat} {operation : PendingOperationKey α ι} (inv : RequestsMatchShares st)
    (h : Calls.executeOperation cfg env index delegator (st.pendingOperations delegator operation) operation st = .ok st') :
    RequestsMatchShares (st'.setPending delegator operation 0) := by
  rcases Calls.executeOperationOk h with ⟨candidate, instant, pool, rfl, joined⟩ | ⟨candidate, instant, rfl, left⟩
  · obtain ⟨stake, subtracted, hsub, kept⟩ := Calls.executeJoiningRequests joined
    exact inv.execute (by simp) hsub kept
  · obtain ⟨stake, subtracted, released, currency, hsub, hreleased, -, rfl⟩ := Calls.executeLeavingOk left
    exact inv.execute ⟨rfl, rfl⟩ hsub ((Keeps.decreaseHold rfl hreleased).trans (Keeps.setCurrency currency))

theorem executePendingOperations {index : Nat} {queries : List (PendingOperationQuery α ι)}
    (inv : RequestsMatchShares st) (h : Calls.executePendingOperations cfg env index queries st = .ok st') :
    RequestsMatchShares st' :=
  Calls.executePendingOperationsInduct RequestsMatchShares (fun _ _ _ _ _ inv _ executed => inv.executeOperation executed)
    inv h

theorem dispatch {origin : RawOrigin α} {call : Call α ι} (inv : RequestsMatchShares st)
    (h : PooledStaking.dispatch cfg env origin call st = .ok st') : RequestsMatchShares st' := by
  unfold PooledStaking.dispatch at h
  split at h
  · cases h
  · cases call with
    | rebalanceHold => exact inv.ofKeeps (Keeps.rebalanceHold rfl h)
    | requestDelegate => exact inv.requestDelegate h
    | executePendingOperations => exact inv.executePendingOperations h
    | requestUndelegate => exact inv.requestUndelegate h
    | claimManualRewards => exact inv.ofKeeps (Keeps.ofClaim (Calls.claimManualRewardsOk h) fun _ => rfl)
    | updateCandidatePosition => exact inv.ofKeeps (Keeps.updateCandidatePosition rfl h)

theorem reachable (reach : Reachable cfg st) : RequestsMatchShares st := by
  induction reach with
  | empty => exact empty _
  | call env origin call _ dispatched inv => exact inv.dispatch dispatched

end RequestsMatchShares

namespace SharesWithinSupply

theorem executeJoining {pool : TargetPool} {joiningShares : Nat} (inv : SharesWithinSupply st)
    (h : Calls.executeJoining cfg env candidate delegator pool joiningShares st = .ok st') : SharesWithinSupply st' := by
  obtain ⟨stake, subtracted, released, claimed, shares, hsub, hreleased, hclaimed, -, rest, -⟩ :=
    Calls.executeJoiningOk h
  have claimedInv := (inv.subShares hsub).ofKeeps
    ((Keeps.decreaseHold rfl hreleased).trans (Keeps.ofClaim (Calls.claimIfManualOk hclaimed) fun _ => rfl))
  rcases rest with ⟨-, currency, -, final⟩ | ⟨-, actuallyStaked, added, held, currency, hadded, hheld, -, -, final⟩
  · exact claimedInv.ofKeeps ((Keeps.setCurrency currency).trans (Keeps.subTotalStake rfl final))
  · exact (claimedInv.addShares hadded).ofKeeps
      (((Keeps.increaseHold rfl hheld).trans (Keeps.setCurrency currency)).trans (Keeps.subTotalStake rfl final))

variable [DecidableEq ι]

theorem requestDelegate {pool : TargetPool} {amount : Nat} (inv : SharesWithinSupply st)
    (h : Calls.requestDelegate cfg env candidate delegator pool amount st = .ok st') : SharesWithinSupply st' := by
  obtain ⟨shares, stake, added, currency, held, updated, hadded, -, hheld, hupdated, -, rfl, -⟩ :=
    Calls.requestDelegateOk h
  have kept : Keeps PoolsKey.sharesOrSupply added updated :=
    ((Keeps.setCurrency currency).trans (Keeps.increaseHold rfl hheld)).trans (Keeps.addTotalStake rfl hupdated)
  exact ((inv.addShares hadded).ofKeeps kept).ofPools (State.setPendingPools _ _ _ _)

theorem requestUndelegate {pool : TargetPool} {amount : SharesOrStake} (inv : SharesWithinSupply st)
    (h : Calls.requestUndelegate cfg env candidate delegator pool amount st = .ok st') : SharesWithinSupply st' := by
  obtain ⟨shares, claimed, rebalanced, removed, subtracted, released, updated, leavingShares, leavingStake, added,
    held, queued, hclaimed, hrebalanced, hsub, hreleased, hupdated, hadded, hheld, -, hqueued, -, final, -⟩ :=
    Calls.requestUndelegateOk h
  have rebalancedKept : Keeps PoolsKey.sharesOrSupply claimed rebalanced := by
    rcases hrebalanced with rfl | hrebalanced
    · exact .refl _
    · exact Keeps.rebalanceHold rfl hrebalanced
  have subtractedInv := (inv.ofKeeps ((Keeps.ofClaim (Calls.claimIfManualOk hclaimed) fun _ => rfl).trans
    rebalancedKept)).subShares hsub
  have updatedInv := subtractedInv.ofKeeps ((Keeps.decreaseHold rfl hreleased).trans (Keeps.subTotalStake rfl hupdated))
  have queuedInv : SharesWithinSupply queued := by
    rw [hqueued]
    exact ((updatedInv.addShares hadded).ofKeeps (Keeps.increaseHold rfl hheld)).ofPools (State.setPendingPools _ _ _ _)
  rcases final with ⟨-, rfl⟩ | ⟨-, currency, -, rfl⟩
  · exact queuedInv
  · exact queuedInv.ofKeeps (.setCurrency currency)

theorem executePendingOperations {index : Nat} {queries : List (PendingOperationQuery α ι)}
    (inv : SharesWithinSupply st) (h : Calls.executePendingOperations cfg env index queries st = .ok st') :
    SharesWithinSupply st' := by
  refine Calls.executePendingOperationsInduct SharesWithinSupply
    (fun index delegator operation st st' inv _ executed => ?_) inv h
  refine SharesWithinSupply.ofPools ?_ (State.setPendingPools _ _ _ _)
  rcases Calls.executeOperationOk executed with ⟨_, _, _, -, joined⟩ | ⟨_, _, -, left⟩
  · exact inv.executeJoining joined
  · obtain ⟨stake, subtracted, released, currency, hsub, hreleased, -, rfl⟩ := Calls.executeLeavingOk left
    exact (inv.subShares hsub).ofKeeps ((Keeps.decreaseHold rfl hreleased).trans (Keeps.setCurrency currency))

theorem dispatch {origin : RawOrigin α} {call : Call α ι} (inv : SharesWithinSupply st)
    (h : PooledStaking.dispatch cfg env origin call st = .ok st') : SharesWithinSupply st' := by
  unfold PooledStaking.dispatch at h
  split at h
  · cases h
  · cases call with
    | rebalanceHold => exact inv.ofKeeps (Keeps.rebalanceHold rfl h)
    | requestDelegate => exact inv.requestDelegate h
    | executePendingOperations => exact inv.executePendingOperations h
    | requestUndelegate => exact inv.requestUndelegate h
    | claimManualRewards => exact inv.ofKeeps (Keeps.ofClaim (Calls.claimManualRewardsOk h) fun _ => rfl)
    | updateCandidatePosition => exact inv.ofKeeps (Keeps.updateCandidatePosition rfl h)

theorem reachable (reach : Reachable cfg st) : SharesWithinSupply st := by
  induction reach with
  | empty => exact empty _
  | call env origin call _ dispatched inv => exact inv.dispatch dispatched

end SharesWithinSupply

theorem subSharesOfPending (requests : RequestsMatchShares st) (within : SharesWithinSupply st)
    (priced : RequestPoolsExact cfg st) {k : PendingOperationKey α ι} (nonzero : st.pendingOperations delegator k ≠ 0) :
    ∃ st', Pool.subShares k.pool k.candidate delegator (st.pendingOperations delegator k) st =
      .ok (st.pendingOperations delegator k, st') := by
  have req := k.poolHoldsRequests
  have owned : st.pendingOperations delegator k ≤ Pool.shares k.pool k.candidate delegator st := by
    have requested := operationLeRequested (requests.finite delegator) k
    rwa [requests.exact delegator k.candidate k.pool req] at requested
  have supplied : Pool.shares k.pool k.candidate delegator st ≤ Pool.sharesSupply k.pool k.candidate st := by
    simpa using within k.candidate k.pool {delegator}
  have one : Pool.initialShareValue cfg k.pool = 1 := by cases k <;> rfl
  have price : Pool.totalStaked k.pool k.candidate st = Pool.sharesSupply k.pool k.candidate st := by
    rw [priced.price k.pool k.candidate req, one, Nat.one_mul]
  have positive : 0 < Pool.sharesSupply k.pool k.candidate st := by omega
  have converted : st.pendingOperations delegator k * Pool.totalStaked k.pool k.candidate st /
      Pool.sharesSupply k.pool k.candidate st = st.pendingOperations delegator k := by
    rw [price, Nat.mul_div_cancel _ positive]
  obtain ⟨st', subtracted⟩ := Pool.subSharesOfLe nonzero (owned.trans supplied) owned
    (by rw [converted, price]; omega) (by rw [converted]; exact requests.bounded delegator k)
  rw [converted] at subtracted
  exact ⟨st', subtracted⟩

end Calls

theorem pendingOperationsMatchShares [LinearOrder α] [DecidableEq ι] {cfg : Config α σ} {st : State α ι σ}
    (reach : Reachable cfg st) (delegator candidate : α) :
    ∑ᶠ instant, (st.pendingOperations delegator (.joiningAutoCompounding candidate instant) +
        st.pendingOperations delegator (.joiningManualRewards candidate instant)) =
      st.pools candidate (.shares .joining delegator) ∧
    ∑ᶠ instant, st.pendingOperations delegator (.leaving candidate instant) =
      st.pools candidate (.shares .leaving delegator) ∧
    ∀ (env : Env α ι) (executed : List (PendingOperationQuery α ι)) (st₁ : State α ι σ)
      (operation : PendingOperationKey α ι),
      Calls.executePendingOperations cfg env 0 executed st = .ok st₁ → st₁.pendingOperations delegator operation ≠ 0 →
      ∃ st₂, Pool.subShares operation.pool operation.candidate delegator (st₁.pendingOperations delegator operation) st₁ =
        .ok (st₁.pendingOperations delegator operation, st₂) := by
  have requests := RequestsMatchShares.reachable reach
  refine ⟨requests.exact delegator candidate .joining rfl, requests.exact delegator candidate .leaving rfl, ?_⟩
  intro env executed st₁ operation ran nonzero
  -- the operations executed so far are one call of their own, so `st₁` is reachable too
  have reach₁ : Reachable cfg st₁ := .call env (.signed delegator) (.executePendingOperations executed) reach ran
  exact subSharesOfPending (RequestsMatchShares.reachable reach₁) (SharesWithinSupply.reachable reach₁)
    (RequestPoolsExact.reachable reach₁) nonzero

theorem pendingOperationsMatchSharesAfterDelegation :
    ∃ st : State (Fin 2) Unit (Fin 2 → Account),
      dispatch sampleConfig sampleEnv (.signed 1) (.requestDelegate 1 .autoCompounding 3) (State.empty sampleAccounts) =
        .ok st ∧ st.pools 1 (.shares .joining 1) = 3 ∧
      ∑ᶠ instant, (st.pendingOperations 1 (.joiningAutoCompounding 1 instant) +
          st.pendingOperations 1 (.joiningManualRewards 1 instant)) = st.pools 1 (.shares .joining 1) ∧
      ∑ᶠ instant, st.pendingOperations 1 (.leaving 1 instant) = st.pools 1 (.shares .leaving 1) ∧
      ∀ (env : Env (Fin 2) Unit) (executed : List (PendingOperationQuery (Fin 2) Unit))
        (st₁ : State (Fin 2) Unit (Fin 2 → Account)) (operation : PendingOperationKey (Fin 2) Unit),
        Calls.executePendingOperations sampleConfig env 0 executed st = .ok st₁ → st₁.pendingOperations 1 operation ≠ 0 →
        ∃ st₂, Pool.subShares operation.pool operation.candidate 1 (st₁.pendingOperations 1 operation) st₁ =
          .ok (st₁.pendingOperations 1 operation, st₂) := by
  obtain ⟨st, delegated, reach, -, joining, -⟩ := sampleDelegation
  exact ⟨st, delegated, joining, pendingOperationsMatchShares reach 1 1⟩

end Tanssi.PooledStaking
