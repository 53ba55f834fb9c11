import Tanssi.PooledStaking.Calls

/-! What a successful run of each call did, one inversion lemma per call: the
intermediate states in the order the source writes them. The invariants of the
pallet are all derived from these lemmas and from those of the pool methods, never by
unfolding a call again. The three loops get one lemma each that carries a property
through the loop from one that each round keeps. -/
namespace Tanssi.PooledStaking
open Frame

variable {α ι σ : Type} {cfg : Config α σ} {st st' : State α ι σ}

structure ClaimEffect (cfg : Config α σ) (st st' : State α ι σ) : Prop where
  pools : ∀ c k, (∀ d, k ≠ .manualRewardsCheckpoint d) → st'.pools c k = st.pools c k
  checkpoints : ∀ c d, st'.pools c (.manualRewardsCheckpoint d) = st.pools c (.manualRewardsCheckpoint d) ∨
    st'.pools c (.manualRewardsCheckpoint d) = st.pools c .manualRewardsCounter
  pending : st'.pendingOperations = st.pendingOperations
  sorted : st'.sortedEligibleCandidates = st.sortedEligibleCandidates
  transfers : Relation.ReflTransGen (fun s s' => ∃ a b x, cfg.currency.transfer a b x s = some s')
    st.currency st'.currency

namespace ClaimEffect

theorem refl (st : State α ι σ) : ClaimEffect cfg st st :=
  ⟨fun _ _ _ => rfl, fun _ _ => .inl rfl, rfl, rfl, .refl⟩

theorem trans {st₁ st₂ st₃ : State α ι σ} (first : ClaimEffect cfg st₁ st₂) (second : ClaimEffect cfg st₂ st₃) :
    ClaimEffect cfg st₁ st₃ where
  pools c k other := (second.pools c k other).trans (first.pools c k other)
  checkpoints c d := by
    have counter := first.pools c .manualRewardsCounter (fun _ => by simp)
    rcases second.checkpoints c d with same | moved
    · rw [same]; exact first.checkpoints c d
    · rw [moved, counter]; exact .inr rfl
  pending := second.pending.trans first.pending
  sorted := second.sorted.trans first.sorted
  transfers := first.transfers.trans second.transfers

theorem ofClaimRewards [DecidableEq α] {candidate delegator : α} {rewards : Nat}
    (h : claimRewards candidate delegator st = .ok (rewards, st')) : ClaimEffect cfg st st' := by
  rcases claimRewardsOk h with rfl | rfl
  · exact refl _
  · refine ⟨fun c k other => ?_, fun c d => ?_, rfl, rfl, .refl⟩
    · simp [other delegator]
    · by_cases same : c = candidate ∧ d = delegator
      · obtain ⟨rfl, rfl⟩ := same; simp
      · left; simp only [State.setPoolPools, PoolsKey.manualRewardsCheckpoint.injEq]; grind

theorem ofTransfer {a b : α} {x : Nat} {currency : σ} (h : cfg.currency.transfer a b x st.currency = some currency) :
    ClaimEffect cfg st (st.setCurrency currency) :=
  ⟨fun _ _ _ => rfl, fun _ _ => .inl rfl, rfl, rfl, .single ⟨a, b, x, h⟩⟩

theorem ofDeposit (event : Event α) : ClaimEffect cfg st (st.depositEvent event) :=
  ⟨fun _ _ _ => rfl, fun _ _ => .inl rfl, rfl, rfl, .refl⟩

end ClaimEffect

structure Keeps (keys : PoolsKey α → Bool) (st st' : State α ι σ) : Prop where
  pools : ∀ c k, keys k → st'.pools c k = st.pools c k
  pending : st'.pendingOperations = st.pendingOperations

namespace Keeps
variable {keys : PoolsKey α → Bool} {st₁ : State α ι σ}

theorem refl (st : State α ι σ) : Keeps keys st st := ⟨fun _ _ _ => rfl, rfl⟩

theorem trans (first : Keeps keys st st₁) (second : Keeps keys st₁ st') : Keeps keys st st' :=
  ⟨fun c k picked => (second.pools c k picked).trans (first.pools c k picked), second.pending.trans first.pending⟩

theorem ofPools (pools : st'.pools = st.pools) (pending : st'.pendingOperations = st.pendingOperations) :
    Keeps keys st st' :=
  ⟨fun _ _ _ => by rw [pools], pending⟩

theorem setCurrency (currency : σ) : Keeps keys st (st.setCurrency currency) := ofPools rfl rfl

theorem ofClaim (h : ClaimEffect cfg st st') (other : ∀ d, keys (.manualRewardsCheckpoint d) = false) :
    Keeps keys st st' :=
  ⟨fun c k picked => h.pools c k fun d same => (by rw [same, other] at picked; cases picked), h.pending⟩

section Writes
variable [DecidableEq α] {pool : AllTargetPool} {candidate delegator : α}

theorem setPool {c : α} {k : PoolsKey α} {v : Nat} (other : keys k = false) : Keeps keys st (st.setPool c k v) := by
  refine ⟨fun c' k' picked => ?_, rfl⟩
  have differ : k' ≠ k := by rintro rfl; rw [other] at picked; cases picked
  simp [differ]

theorem increaseHold {stake : Nat} (other : keys (.sharesHeldStake pool delegator) = false)
    (h : Pool.increaseHold pool candidate delegator stake st = .ok st') : Keeps keys st st' := by
  obtain ⟨-, rfl⟩ := Pool.increaseHoldOk h
  exact setPool other

theorem decreaseHold {stake : Nat} (other : keys (.sharesHeldStake pool delegator) = false)
    (h : Pool.decreaseHold pool candidate delegator stake st = .ok st') : Keeps keys st st' := by
  obtain ⟨-, rfl⟩ := Pool.decreaseHoldOk h
  exact setPool other

theorem addShares {shares stake : Nat}
    (other : keys (.sharesSupply pool) = false ∧ keys (.shares pool delegator) = false ∧
      keys (.sharesTotalStaked pool) = false)
    (h : Pool.addShares cfg pool candidate delegator shares st = .ok (stake, st')) : Keeps keys st st' := by
  obtain ⟨-, -, -, -, -, rfl⟩ := Pool.addSharesOk h
  exact ((setPool other.1).trans (setPool other.2.1)).trans (setPool other.2.2)

theorem subShares {shares stake : Nat}
    (other : keys (.sharesSupply pool) = false ∧ keys (.shares pool delegator) = false ∧
      keys (.sharesTotalStaked pool) = false)
    (h : Pool.subShares pool candidate delegator shares st = .ok (stake, st')) : Keeps keys st st' := by
  obtain ⟨-, -, -, -, -, rfl⟩ := Pool.subSharesOk h
  exact ((setPool other.1).trans (setPool other.2.1)).trans (setPool other.2.2)

end Writes
end Keeps

variable [LinearOrder α]

namespace Calls

theorem rebalanceHoldOk {candidate delegator : α} {pool : AllTargetPool}
    (h : rebalanceHold cfg candidate delegator pool st = .ok st') :
    ∃ stake currency,
      Pool.sharesToStake pool candidate (Pool.shares pool candidate delegator st) st = .ok stake ∧
      st' = (st.setPool candidate (.sharesHeldStake pool delegator) stake).setCurrency currency ∧
      (stake = Pool.hold pool candidate delegator st ∧ currency = st.currency ∨
        (Pool.hold pool candidate delegator st < stake ∧ ∃ moved,
          cfg.currency.transfer cfg.stakingAccount delegator (stake - Pool.hold pool candidate delegator st)
            st.currency = some moved ∧
          cfg.currency.hold delegator (stake - Pool.hold pool candidate delegator st) moved = some currency) ∨
        (stake < Pool.hold pool candidate delegator st ∧ ∃ released,
          cfg.currency.release delegator (Pool.hold pool candidate delegator st - stake) st.currency = some released ∧
          cfg.currency.transfer delegator cfg.stakingAccount (Pool.hold pool candidate delegator st - stake)
            released = some currency)) := by
  simp only [rebalanceHold, bindEqOk] at h
  obtain ⟨stake, converted, rest⟩ := h
  refine ⟨stake, ?_⟩
  split at rest
  · rename_i same
    refine ⟨st.currency, converted, ?_, .inl ⟨same, rfl⟩⟩
    rw [← pureEqOk.1 rest]; rfl
  · rename_i differ
    split at rest
    · rename_i below
      simp only [bindEqOk, liftCurrencyOk, pureEqOk] at rest
      obtain ⟨moved, transferred, currency, held, rfl⟩ := rest
      exact ⟨currency, converted, by simp, .inr (.inl ⟨lt_of_le_of_ne below (Ne.symm differ), moved,
        transferred, held⟩)⟩
    · rename_i above
      split at rest
      · simp only [bindEqOk, liftCurrencyOk, pureEqOk] at rest
        obtain ⟨released, releasedOk, currency, transferred, rfl⟩ := rest
        exact ⟨currency, converted, by simp, .inr (.inr ⟨Nat.lt_of_not_le above, released, releasedOk,
          transferred⟩)⟩
      · rename_i notBelow
        exact absurd (Nat.le_of_lt (Nat.lt_of_not_le above)) notBelow

theorem claimManualRewardsOk {pairs : List (α × α)} (h : claimManualRewards cfg pairs st = .ok st') :
    ClaimEffect cfg st st' := by
  induction pairs generalizing st with
  | nil => rw [← pureEqOk.1 h]; exact .refl _
  | cons pair pairs ih =>
    obtain ⟨candidate, delegator⟩ := pair
    simp only [claimManualRewards, bindEqOk] at h
    obtain ⟨⟨rewards, claimed⟩, hclaim, rest⟩ := h
    have first : ClaimEffect cfg st claimed := .ofClaimRewards hclaim
    split at rest
    · exact first.trans (ih rest)
    · simp only [bindEqOk, liftCurrencyOk] at rest
      obtain ⟨currency, transferred, rest⟩ := rest
      exact ((first.trans (.ofTransfer transferred)).trans (.ofDeposit _)).trans (ih rest)

theorem claimIfManualOk {pool : TargetPool} {candidate delegator : α}
    (h : (if pool = .manualRewards then claimManualRewards cfg [(candidate, delegator)] st else pure st) = .ok st') :
    ClaimEffect cfg st st' := by
  split at h
  · exact claimManualRewardsOk h
  · rw [← pureEqOk.1 h]; exact .refl _

variable {env : Env α ι}

theorem executeJoiningOk {candidate delegator : α} {pool : TargetPool} {joiningShares : Nat}
    (h : executeJoining cfg env candidate delegator pool joiningShares st = .ok st') :
    ∃ stake subtracted released claimed shares,
      Pool.subShares .joining candidate delegator joiningShares st = .ok (stake, subtracted) ∧
      Pool.decreaseHold .joining candidate delegator stake subtracted = .ok released ∧
      (if pool = .manualRewards then claimManualRewards cfg [(candidate, delegator)] released else pure released) =
        .ok claimed ∧
      Pool.stakeToSharesOrInit cfg pool.toAll candidate stake claimed = .ok shares ∧
      ((shares = 0 ∧ ∃ currency,
          cfg.currency.release delegator stake claimed.currency = some currency ∧
          Candidates.subTotalStake cfg env candidate stake (claimed.setCurrency currency) = .ok st') ∨
        (shares ≠ 0 ∧ ∃ actuallyStaked added held currency,
          Pool.addShares cfg pool.toAll candidate delegator shares claimed = .ok (actuallyStaked, added) ∧
          Pool.increaseHold pool.toAll candidate delegator actuallyStaked added = .ok held ∧
          actuallyStaked ≤ stake ∧
          cfg.currency.release delegator (stake - actuallyStaked) held.currency = some currency ∧
          Candidates.subTotalStake cfg env candidate (stake - actuallyStaked) (held.setCurrency currency) = .ok st')) ∧
      checkCandidateConsistency candidate st' = .ok () := by
  simp only [executeJoining, bindEqOk] at h
  obtain ⟨⟨stake, subtracted⟩, hsub, released, hreleased, claimed, hclaimed, shares, hshares, rest⟩ := h
  refine ⟨stake, subtracted, released, claimed, shares, hsub, hreleased, hclaimed, hshares, ?_⟩
  split at rest
  · rename_i none
    simp only [bindEqOk, liftCurrencyOk, pureEqOk] at rest
    obtain ⟨currency, hcurrency, final, hfinal, ⟨⟩, checked, rfl⟩ := rest
    exact ⟨.inl ⟨none, currency, hcurrency, hfinal⟩, checked⟩
  · rename_i some
    simp only [bindEqOk, liftCurrencyOk, errSubOk, pureEqOk] at rest
    obtain ⟨⟨actuallyStaked, added⟩, hadded, held, hheld, release, ⟨le, rfl⟩, currency, hcurrency, final, hfinal,
      ⟨⟩, checked, rfl⟩ := rest
    exact ⟨.inr ⟨some, actuallyStaked, added, held, currency, hadded, hheld, le, hcurrency, hfinal⟩, checked⟩

theorem executeLeavingOk {candidate delegator : α} {leavingShares : Nat}
    (h : executeLeaving cfg candidate delegator leavingShares st = .ok st') :
    ∃ stake subtracted released currency,
      Pool.subShares .leaving candidate delegator leavingShares st = .ok (stake, subtracted) ∧
      Pool.decreaseHold .leaving candidate delegator stake subtracted = .ok released ∧
      cfg.currency.release delegator stake released.currency = some currency ∧
      st' = released.setCurrency currency := by
  simp only [executeLeaving, bindEqOk, liftCurrencyOk, pureEqOk] at h
  obtain ⟨⟨stake, subtracted⟩, hsub, released, hreleased, currency, hcurrency, rfl⟩ := h
  exact ⟨stake, subtracted, released, currency, hsub, hreleased, hcurrency, rfl⟩

theorem executeOperationOk {index value : Nat} {delegator : α} {operation : PendingOperationKey α ι}
    (h : executeOperation cfg env index delegator value operation st = .ok st') :
    (∃ candidate instant pool, operation = joiningOperationKey pool candidate instant ∧
      executeJoining cfg env candidate delegator pool value st = .ok st') ∨
    ∃ candidate instant, operation = .leaving candidate instant ∧
      executeLeaving cfg candidate delegator value st = .ok st' := by
  cases operation with
  | joiningAutoCompounding candidate instant =>
    simp only [executeOperation, bindEqOk, ensureOk] at h
    obtain ⟨⟨⟩, -, joined⟩ := h
    exact .inl ⟨candidate, instant, .autoCompounding, rfl, joined⟩
  | joiningManualRewards candidate instant =>
    simp only [executeOperation, bindEqOk, ensureOk] at h
    obtain ⟨⟨⟩, -, joined⟩ := h
    exact .inl ⟨candidate, instant, .manualRewards, rfl, joined⟩
  | leaving candidate instant =>
    simp only [executeOperation, bindEqOk, ensureOk] at h
    obtain ⟨⟨⟩, -, left⟩ := h
    exact .inr ⟨candidate, instant, rfl, left⟩

theorem updateCandidatePositionInduct (P : State α ι σ → Prop)
    (round : ∀ candidate (st st' : State α ι σ), P st →
      Candidates.updateTotalStake cfg env candidate (Candidates.totalStake candidate st) st = .ok st' → P st')
    {candidates : List α} (start : P st) (h : updateCandidatePosition cfg env candidates st = .ok st') : P st' := by
  induction candidates generalizing st with
  | nil => rwa [← pureEqOk.1 h]
  | cons candidate candidates ih =>
    simp only [updateCandidatePosition, bindEqOk] at h
    obtain ⟨updated, hupdated, rest⟩ := h
    exact ih (round candidate st updated start hupdated) rest

variable [DecidableEq ι]

theorem requestDelegateOk {candidate delegator : α} {pool : TargetPool} {amount : Nat}
    (h : requestDelegate cfg env candidate delegator pool amount st = .ok st') :
    ∃ shares stake added currency held updated,
      Pool.addShares cfg .joining candidate delegator shares st = .ok (stake, added) ∧
      cfg.currency.hold delegator stake added.currency = some currency ∧
      Pool.increaseHold .joining candidate delegator stake (added.setCurrency currency) = .ok held ∧
      Candidates.addTotalStake cfg env candidate stake held = .ok updated ∧
      updated.pendingOperations delegator (joiningOperationKey pool candidate env.joiningNow) + shares < balanceBound ∧
      st' = updated.setPending delegator (joiningOperationKey pool candidate env.joiningNow)
        (updated.pendingOperations delegator (joiningOperationKey pool candidate env.joiningNow) + shares) ∧
      checkCandidateConsistency candidate st' = .ok () := by
  simp only [requestDelegate, bindEqOk, ensureOk, errAddOk, liftCurrencyOk, pureEqOk] at h
  obtain ⟨-, -, shares, -, -, -, ⟨stake, added⟩, hadd, currency, hhold, held, hheld, updated, hupdated,
    operation, ⟨bound, rfl⟩, ⟨⟩, checked, rfl⟩ := h
  exact ⟨shares, stake, added, currency, held, updated, hadd, hhold, hheld, hupdated, bound, rfl, checked⟩

theorem requestUndelegateOk {candidate delegator : α} {pool : TargetPool} {amount : SharesOrStake}
    (h : requestUndelegate cfg env candidate delegator pool amount st = .ok st') :
    ∃ shares claimed rebalanced removed subtracted released updated leavingShares leavingStake added held queued,
      (if pool = .manualRewards then claimManualRewards cfg [(candidate, delegator)] st else pure st) = .ok claimed ∧
      (rebalanced = claimed ∨ rebalanceHold cfg candidate delegator pool.toAll claimed = .ok rebalanced) ∧
      Pool.subShares pool.toAll candidate delegator shares rebalanced = .ok (removed, subtracted) ∧
      Pool.decreaseHold pool.toAll candidate delegator removed subtracted = .ok released ∧
      Candidates.subTotalStake cfg env candidate removed released = .ok updated ∧
      Pool.addShares cfg .leaving candidate delegator leavingShares updated = .ok (leavingStake, added) ∧
      Pool.increaseHold .leaving candidate delegator leavingStake added = .ok held ∧
      held.pendingOperations delegator (.leaving candidate env.leavingNow) + leavingShares < balanceBound ∧
      queued = held.setPending delegator (.leaving candidate env.leavingNow)
        (held.pendingOperations delegator (.leaving candidate env.leavingNow) + leavingShares) ∧
      leavingStake ≤ removed ∧
      (removed - leavingStake = 0 ∧ st' = queued ∨
        (removed - leavingStake ≠ 0 ∧ ∃ currency,
          cfg.currency.release delegator (removed - leavingStake) queued.currency = some currency ∧
          st' = queued.setCurrency currency)) ∧
      checkCandidateConsistency candidate st' = .ok () := by
  simp only [requestUndelegate, bindEqOk, errAddOk, errSubOk, pureEqOk] at h
  obtain ⟨shares, -, claimed, hclaimed, stake, -, rebalanced, hrebalanced, ⟨removed, subtracted⟩, hsub,
    released, hreleased, updated, hupdated, leavingShares, -, ⟨leavingStake, added⟩, hadded, held, hheld,
    operation, ⟨bound, rfl⟩, dust, ⟨le, rfl⟩, final, hfinal, ⟨⟩, checked, rfl⟩ := h
  refine ⟨shares, claimed, rebalanced, removed, subtracted, released, updated, leavingShares, leavingStake, added,
    held, _, hclaimed, ?_, hsub, hreleased, hupdated, hadded, hheld, bound, rfl, le, ?_, checked⟩
  · split at hrebalanced
    · exact .inr hrebalanced
    · exact .inl (pureEqOk.1 hrebalanced).symm
  · split at hfinal
    · rename_i dust
      simp only [bindEqOk, liftCurrencyOk, pureEqOk] at hfinal
      obtain ⟨currency, hcurrency, rfl⟩ := hfinal
      exact .inr ⟨dust, currency, hcurrency, rfl⟩
    · rename_i noDust
      exact .inl ⟨not_not.1 noDust, (pureEqOk.1 hfinal).symm⟩

theorem executePendingOperationsInduct (P : State α ι σ → Prop)
    (round : ∀ index delegator operation (st st' : State α ι σ), P st →
      st.pendingOperations delegator operation ≠ 0 →
      executeOperation cfg env index delegator (st.pendingOperations delegator operation) operation st = .ok st' →
      P (st'.setPending delegator operation 0))
    {index : Nat} {queries : List (PendingOperationQuery α ι)} (start : P st)
    (h : executePendingOperations cfg env index queries st = .ok st') : P st' := by
  induction queries generalizing index st with
  | nil => rwa [← pureEqOk.1 h]
  | cons query queries ih =>
    simp only [executePendingOperations] at h
    split at h
    · exact ih start h
    · rename_i nonzero
      simp only [bindEqOk] at h
      obtain ⟨executed, hexecuted, rest⟩ := h
      exact ih (round index query.delegator query.operation st executed start nonzero hexecuted) rest

end Calls

namespace Keeps
variable {keys : PoolsKey α → Bool} {env : Env α ι} {candidate delegator : α}

theorem rebalanceHold {pool : AllTargetPool} (other : keys (.sharesHeldStake pool delegator) = false)
    (h : Calls.rebalanceHold cfg candidate delegator pool st = .ok st') : Keeps keys st st' := by
  obtain ⟨stake, currency, -, rfl, -⟩ := Calls.rebalanceHoldOk h
  exact (setPool other).trans (setCurrency currency)

theorem ofTotalWrite {total : Nat} {list : List (Entry α)} (other : keys .candidateTotalStake = false) :
    Keeps keys st ((st.setPool candidate .candidateTotalStake total).setSorted list) :=
  (setPool other).trans (ofPools rfl rfl)

theorem addTotalStake {stake : Nat} (other : keys .candidateTotalStake = false)
    (h : Candidates.addTotalStake cfg env candidate stake st = .ok st') : Keeps keys st st' := by
  rw [(Candidates.addTotalStakeFrame h).2]
  exact ofTotalWrite other

theorem subTotalStake {stake : Nat} (other : keys .candidateTotalStake = false)
    (h : Candidates.subTotalStake cfg env candidate stake st = .ok st') : Keeps keys st st' := by
  rw [(Candidates.subTotalStakeFrame h).2]
  exact ofTotalWrite other

theorem updateCandidatePosition {candidates : List α} (other : keys .candidateTotalStake = false)
    (h : Calls.updateCandidatePosition cfg env candidates st = .ok st') : Keeps keys st st' := by
  refine Calls.updateCandidatePositionInduct (Keeps keys st) (fun _ st₁ st₂ kept updated => ?_) (refl st) h
  rw [Candidates.updateTotalStakeFrame updated]
  exact kept.trans (ofTotalWrite other)

end Keeps
end Tanssi.PooledStaking
