import Tanssi.PooledStaking.Pallet

/-! `pools.rs`: the methods of the `Pool` trait, which `impl_pool!` gives each of the
four pools over that pool's own keys, `check_candidate_consistency`, and the claim of
manual rewards. Reads take the state, writes return the new one. Rewards and slashes
reach a pool through `share_stake_among_holders` and `slash_stake_among_holders`, which
no modelled call uses; `computed_stake` is left out. -/
namespace Tanssi.PooledStaking
open Frame

variable {α ι σ : Type} [DecidableEq α]

theorem mulPriceDiv {a b s : Nat} (nonzero : s ≠ 0) : a * (b * s) / s = a * b := by
  rw [← Nat.mul_assoc, Nat.mul_div_cancel _ (Nat.pos_of_ne_zero nonzero)]

namespace Pool

/-- `initial_share_value` of each pool, as built outside `cfg(test)`. -/
def initialShareValue (cfg : Config α σ) : AllTargetPool → Nat
  | .joining => 1
  | .autoCompounding => cfg.initialAutoCompoundingShareValue
  | .manualRewards => cfg.initialManualClaimShareValue
  | .leaving => 1

def shares (pool : AllTargetPool) (candidate delegator : α) (st : State α ι σ) : Nat :=
  st.pools candidate (.shares pool delegator)

def sharesSupply (pool : AllTargetPool) (candidate : α) (st : State α ι σ) : Nat :=
  st.pools candidate (.sharesSupply pool)

def totalStaked (pool : AllTargetPool) (candidate : α) (st : State α ι σ) : Nat :=
  st.pools candidate (.sharesTotalStaked pool)

def hold (pool : AllTargetPool) (candidate delegator : α) (st : State α ι σ) : Nat :=
  st.pools candidate (.sharesHeldStake pool delegator)

/- Reads are plain storage reads; they are unfolded by `simp`. -/
attribute [simp] shares sharesSupply totalStaked hold

def sharesToStake (pool : AllTargetPool) (candidate : α) (shares : Nat) (st : State α ι σ) :
    Except DispatchError Nat := do
  let totalStaked := totalStaked pool candidate st
  let supply := sharesSupply pool candidate st
  ensure (supply ≠ 0) .noOneIsStaking
  mulDiv shares totalStaked supply

def sharesToStakeOrInit (cfg : Config α σ) (pool : AllTargetPool) (candidate : α) (shares : Nat)
    (st : State α ι σ) : Except DispatchError Nat :=
  if totalStaked pool candidate st = 0 then errMul shares (initialShareValue cfg pool)
  else sharesToStake pool candidate shares st

def stakeToShares (pool : AllTargetPool) (candidate : α) (stake : Nat) (st : State α ι σ) :
    Except DispatchError Nat := do
  let totalStaked := totalStaked pool candidate st
  let supply := sharesSupply pool candidate st
  ensure (supply ≠ 0) .noOneIsStaking
  mulDiv stake supply totalStaked

/-- The first branch is `checked_div(..).ok_or(InvalidPalletSetting)`. -/
def stakeToSharesOrInit (cfg : Config α σ) (pool : AllTargetPool) (candidate : α) (stake : Nat)
    (st : State α ι σ) : Except DispatchError Nat :=
  if totalStaked pool candidate st = 0 then
    if initialShareValue cfg pool = 0 then throw (.module .invalidPalletSetting)
    else pure (stake / initialShareValue cfg pool)
  else stakeToShares pool candidate stake st

def addShares (cfg : Config α σ) (pool : AllTargetPool) (candidate delegator : α) (shares : Nat)
    (st : State α ι σ) : Except DispatchError (Nat × State α ι σ) := do
  ensure (shares ≠ 0) .stakeMustBeNonZero
  let stake ← sharesToStakeOrInit cfg pool candidate shares st
  let newSharesSupply ← errAdd (sharesSupply pool candidate st) shares
  let newShares ← errAdd (Pool.shares pool candidate delegator st) shares
  let newTotalStake ← errAdd (totalStaked pool candidate st) stake
  pure (stake, ((st.setPool candidate (.sharesSupply pool) newSharesSupply).setPool candidate
    (.shares pool delegator) newShares).setPool candidate (.sharesTotalStaked pool) newTotalStake)

def subShares (pool : AllTargetPool) (candidate delegator : α) (shares : Nat) (st : State α ι σ) :
    Except DispatchError (Nat × State α ι σ) := do
  ensure (shares ≠ 0) .stakeMustBeNonZero
  let stake ← sharesToStake pool candidate shares st
  let newSharesSupply ← errSub (sharesSupply pool candidate st) shares
  let newShares ← errSub (Pool.shares pool candidate delegator st) shares
  let newTotalStake ← errSub (totalStaked pool candidate st) stake
  pure (stake, ((st.setPool candidate (.sharesSupply pool) newSharesSupply).setPool candidate
    (.shares pool delegator) newShares).setPool candidate (.sharesTotalStaked pool) newTotalStake)

def shareStakeAmongHolders (pool : AllTargetPool) (candidate : α) (stake : Nat) (st : State α ι σ) :
    Except DispatchError (State α ι σ) := do
  let totalStaked ← errAdd (totalStaked pool candidate st) stake
  pure (st.setPool candidate (.sharesTotalStaked pool) totalStaked)

def slashStakeAmongHolders (pool : AllTargetPool) (candidate : α) (stake : Nat) (st : State α ι σ) :
    Except DispatchError (State α ι σ) := do
  let totalStaked ← errSub (totalStaked pool candidate st) stake
  pure (st.setPool candidate (.sharesTotalStaked pool) totalStaked)

def increaseHold (pool : AllTargetPool) (candidate delegator : α) (stake : Nat) (st : State α ι σ) :
    Except DispatchError (State α ι σ) := do
  let hold ← errAdd (hold pool candidate delegator st) stake
  pure (st.setPool candidate (.sharesHeldStake pool delegator) hold)

def decreaseHold (pool : AllTargetPool) (candidate delegator : α) (stake : Nat) (st : State α ι σ) :
    Except DispatchError (State α ι σ) := do
  let hold ← errSub (hold pool candidate delegator st) stake
  pure (st.setPool candidate (.sharesHeldStake pool delegator) hold)

end Pool

/-- `checked_add`. -/
def checkedAdd (a b : Nat) : Option Nat := if a + b < balanceBound then some (a + b) else none

/-- `ok_or`. -/
def okOr {β : Type} (x : Option β) (e : Error) : Except DispatchError β :=
  match x with
  | some b => pure b
  | none => throw (.module e)

def checkCandidateConsistency (candidate : α) (st : State α ι σ) : Except DispatchError Unit := do
  let total0 := st.pools candidate .candidateTotalStake
  let joining := Pool.totalStaked .joining candidate st
  let auto := Pool.totalStaked .autoCompounding candidate st
  let manual := Pool.totalStaked .manualRewards candidate st
  let partialSum ← okOr (checkedAdd joining auto) .inconsistentState
  let total1 ← okOr (checkedAdd partialSum manual) .inconsistentState
  ensure (total0 = total1) .inconsistentState

/-- `ManualRewards::claim_rewards`: the rewards owed since the checkpoint, and the
checkpoint moved up to the counter. -/
def claimRewards (candidate delegator : α) (st : State α ι σ) : Except DispatchError (Nat × State α ι σ) := do
  let shares := Pool.shares .manualRewards candidate delegator st
  let counter := st.pools candidate .manualRewardsCounter
  let checkpoint := st.pools candidate (.manualRewardsCheckpoint delegator)
  let diff ← errSub counter checkpoint
  if diff = 0 then return (0, st)
  let rewards ← errMul diff shares
  pure (rewards, st.setPool candidate (.manualRewardsCheckpoint delegator) counter)

/-- `ManualRewards::pending_rewards`: what `claim_rewards` would pay now. -/
def pendingRewards (candidate delegator : α) (st : State α ι σ) : Except DispatchError Nat := do
  let shares := Pool.shares .manualRewards candidate delegator st
  if shares = 0 then return 0
  let counter := st.pools candidate .manualRewardsCounter
  let checkpoint := st.pools candidate (.manualRewardsCheckpoint delegator)
  let diff ← errSub counter checkpoint
  errMul diff shares

/- What a successful call of each function did, in terms of the storage it read. -/

namespace Pool
variable {cfg : Config α σ} {pool : AllTargetPool} {candidate delegator : α} {st st' : State α ι σ}

omit [DecidableEq α] in
theorem sharesToStakeOk {shares r : Nat} (h : sharesToStake pool candidate shares st = .ok r) :
    sharesSupply pool candidate st ≠ 0 ∧ r = shares * totalStaked pool candidate st / sharesSupply pool candidate st ∧
      r < balanceBound := by
  simp only [sharesToStake, bindEqOk, ensureOk] at h
  obtain ⟨-, nonzero, ok⟩ := h
  obtain ⟨-, rfl, bound⟩ := mulDivOk ok
  exact ⟨nonzero, rfl, bound⟩

omit [DecidableEq α] in
theorem sharesToStakeOrInitOk {shares r : Nat} (h : sharesToStakeOrInit cfg pool candidate shares st = .ok r) :
    r < balanceBound ∧
      (totalStaked pool candidate st = 0 ∧ r = shares * initialShareValue cfg pool ∨
        totalStaked pool candidate st ≠ 0 ∧ sharesSupply pool candidate st ≠ 0 ∧
          r = shares * totalStaked pool candidate st / sharesSupply pool candidate st) := by
  unfold sharesToStakeOrInit at h
  split at h
  · rename_i empty
    obtain ⟨bound, rfl⟩ := errMulOk.1 h
    exact ⟨bound, .inl ⟨empty, rfl⟩⟩
  · rename_i staked
    obtain ⟨nonzero, rfl, bound⟩ := sharesToStakeOk h
    exact ⟨bound, .inr ⟨staked, nonzero, rfl⟩⟩

omit [DecidableEq α] in
theorem sharesToStakeAtPrice {shares stake : Nat}
    (price : totalStaked pool candidate st = initialShareValue cfg pool * sharesSupply pool candidate st)
    (h : sharesToStake pool candidate shares st = .ok stake) : stake = shares * initialShareValue cfg pool := by
  obtain ⟨nonzero, rfl, -⟩ := sharesToStakeOk h
  rw [price, mulPriceDiv nonzero]

omit [DecidableEq α] in
theorem sharesToStakeOrInitAtPrice {shares stake : Nat}
    (price : totalStaked pool candidate st = initialShareValue cfg pool * sharesSupply pool candidate st)
    (h : sharesToStakeOrInit cfg pool candidate shares st = .ok stake) : stake = shares * initialShareValue cfg pool := by
  obtain ⟨-, ⟨-, rfl⟩ | ⟨-, nonzero, rfl⟩⟩ := sharesToStakeOrInitOk h
  · rfl
  · rw [price, mulPriceDiv nonzero]

omit [DecidableEq α] in
theorem stakeToSharesOk {stake r : Nat} (h : stakeToShares pool candidate stake st = .ok r) :
    sharesSupply pool candidate st ≠ 0 ∧ totalStaked pool candidate st ≠ 0 ∧
      r = stake * sharesSupply pool candidate st / totalStaked pool candidate st := by
  simp only [stakeToShares, bindEqOk, ensureOk] at h
  obtain ⟨-, nonzero, ok⟩ := h
  obtain ⟨staked, rfl, -⟩ := mulDivOk ok
  exact ⟨nonzero, staked, rfl⟩

omit [DecidableEq α] in
theorem stakeToSharesOrInitOk {stake r : Nat} (h : stakeToSharesOrInit cfg pool candidate stake st = .ok r) :
    totalStaked pool candidate st = 0 ∧ initialShareValue cfg pool ≠ 0 ∧ r = stake / initialShareValue cfg pool ∨
      totalStaked pool candidate st ≠ 0 ∧ sharesSupply pool candidate st ≠ 0 ∧
        r = stake * sharesSupply pool candidate st / totalStaked pool candidate st := by
  unfold stakeToSharesOrInit at h
  split at h
  · rename_i empty
    split at h
    · cases h
    · rename_i init
      exact .inl ⟨empty, init, (pureEqOk.1 h).symm⟩
  · rename_i staked
    obtain ⟨nonzero, -, rfl⟩ := stakeToSharesOk h
    exact .inr ⟨staked, nonzero, rfl⟩

theorem addSharesOk {shares stake : Nat} (h : addShares cfg pool candidate delegator shares st = .ok (stake, st')) :
    shares ≠ 0 ∧ sharesToStakeOrInit cfg pool candidate shares st = .ok stake ∧
      sharesSupply pool candidate st + shares < balanceBound ∧
      Pool.shares pool candidate delegator st + shares < balanceBound ∧
      totalStaked pool candidate st + stake < balanceBound ∧
      st' = ((st.setPool candidate (.sharesSupply pool) (sharesSupply pool candidate st + shares)).setPool candidate
        (.shares pool delegator) (Pool.shares pool candidate delegator st + shares)).setPool candidate
          (.sharesTotalStaked pool) (totalStaked pool candidate st + stake) := by
  simp only [addShares, bindEqOk, ensureOk, errAddOk, pureEqOk, Prod.mk.injEq] at h
  obtain ⟨-, nonzero, value, converted, _, ⟨supplyBound, rfl⟩, _, ⟨sharesBound, rfl⟩, _, ⟨totalBound, rfl⟩,
    rfl, rfl⟩ := h
  exact ⟨nonzero, converted, supplyBound, sharesBound, totalBound, rfl⟩

theorem subSharesOk {shares stake : Nat} (h : subShares pool candidate delegator shares st = .ok (stake, st')) :
    shares ≠ 0 ∧ sharesToStake pool candidate shares st = .ok stake ∧
      shares ≤ sharesSupply pool candidate st ∧ shares ≤ Pool.shares pool candidate delegator st ∧
      stake ≤ totalStaked pool candidate st ∧
      st' = ((st.setPool candidate (.sharesSupply pool) (sharesSupply pool candidate st - shares)).setPool candidate
        (.shares pool delegator) (Pool.shares pool candidate delegator st - shares)).setPool candidate
          (.sharesTotalStaked pool) (totalStaked pool candidate st - stake) := by
  simp only [subShares, bindEqOk, ensureOk, errSubOk, pureEqOk, Prod.mk.injEq] at h
  obtain ⟨-, nonzero, value, converted, _, ⟨supplyLe, rfl⟩, _, ⟨sharesLe, rfl⟩, _, ⟨totalLe, rfl⟩,
    rfl, rfl⟩ := h
  exact ⟨nonzero, converted, supplyLe, sharesLe, totalLe, rfl⟩

theorem subSharesOfLe {shares : Nat} (nonzero : shares ≠ 0) (supplied : shares ≤ sharesSupply pool candidate st)
    (owned : shares ≤ Pool.shares pool candidate delegator st)
    (staked : shares * totalStaked pool candidate st / sharesSupply pool candidate st ≤ totalStaked pool candidate st)
    (fits : shares * totalStaked pool candidate st / sharesSupply pool candidate st < balanceBound) :
    ∃ st', subShares pool candidate delegator shares st =
      .ok (shares * totalStaked pool candidate st / sharesSupply pool candidate st, st') := by
  have positive : sharesSupply pool candidate st ≠ 0 := by omega
  have converted : sharesToStake pool candidate shares st =
      .ok (shares * totalStaked pool candidate st / sharesSupply pool candidate st) := by
    simp only [sharesToStake, bindEqOk, ensureOk]
    exact ⟨(), positive, mulDivOfLe positive fits⟩
  simp only [subShares, bindEqOk, ensureOk, errSubOk, pureEqOk, Prod.mk.injEq, converted, Except.ok.injEq]
  exact ⟨_, (), nonzero, _, rfl, _, ⟨supplied, rfl⟩, _, ⟨owned, rfl⟩, _, ⟨staked, rfl⟩, rfl, rfl⟩

theorem increaseHoldOk {stake : Nat} (h : increaseHold pool candidate delegator stake st = .ok st') :
    hold pool candidate delegator st + stake < balanceBound ∧
      st' = st.setPool candidate (.sharesHeldStake pool delegator) (hold pool candidate delegator st + stake) := by
  simp only [increaseHold, bindEqOk, errAddOk, pureEqOk] at h
  obtain ⟨_, ⟨bound, rfl⟩, rfl⟩ := h
  exact ⟨bound, rfl⟩

theorem decreaseHoldOk {stake : Nat} (h : decreaseHold pool candidate delegator stake st = .ok st') :
    stake ≤ hold pool candidate delegator st ∧
      st' = st.setPool candidate (.sharesHeldStake pool delegator) (hold pool candidate delegator st - stake) := by
  simp only [decreaseHold, bindEqOk, errSubOk, pureEqOk] at h
  obtain ⟨_, ⟨le, rfl⟩, rfl⟩ := h
  exact ⟨le, rfl⟩

theorem decreaseHoldOfLe {stake : Nat} (le : stake ≤ hold pool candidate delegator st) :
    ∃ st', decreaseHold pool candidate delegator stake st = .ok st' := by
  refine ⟨st.setPool candidate (.sharesHeldStake pool delegator) (hold pool candidate delegator st - stake), ?_⟩
  simp only [decreaseHold, bindEqOk, errSubOk, pureEqOk]
  exact ⟨_, ⟨le, rfl⟩, rfl⟩

end Pool

omit [DecidableEq α] in
theorem checkCandidateConsistencyOk {candidate : α} {st : State α ι σ} :
    checkCandidateConsistency candidate st = .ok () ↔
      st.pools candidate .candidateTotalStake = Pool.totalStaked .joining candidate st +
        Pool.totalStaked .autoCompounding candidate st + Pool.totalStaked .manualRewards candidate st ∧
      Pool.totalStaked .joining candidate st + Pool.totalStaked .autoCompounding candidate st +
        Pool.totalStaked .manualRewards candidate st < balanceBound := by
  simp only [checkCandidateConsistency, checkedAdd, okOr, Pool.totalStaked]
  by_cases first : st.pools candidate (.sharesTotalStaked .joining) +
      st.pools candidate (.sharesTotalStaked .autoCompounding) < balanceBound
  · by_cases second : st.pools candidate (.sharesTotalStaked .joining) +
        st.pools candidate (.sharesTotalStaked .autoCompounding) +
        st.pools candidate (.sharesTotalStaked .manualRewards) < balanceBound
    · simp [first, second]
    · simp [first, second]
  · have : ¬ st.pools candidate (.sharesTotalStaked .joining) +
        st.pools candidate (.sharesTotalStaked .autoCompounding) +
        st.pools candidate (.sharesTotalStaked .manualRewards) < balanceBound := by omega
    simp [first, this]

theorem claimRewardsOk {candidate delegator : α} {st st' : State α ι σ} {rewards : Nat}
    (h : claimRewards candidate delegator st = .ok (rewards, st')) :
    st' = st ∨ st' = st.setPool candidate (.manualRewardsCheckpoint delegator) (st.pools candidate .manualRewardsCounter) := by
  simp only [claimRewards, bindEqOk, errSubOk] at h
  obtain ⟨diff, -, rest⟩ := h
  split at rest
  · simp only [pureEqOk, Prod.mk.injEq] at rest
    exact .inl rest.2.symm
  · simp only [bindEqOk, errMulOk, pureEqOk, Prod.mk.injEq] at rest
    obtain ⟨_, -, -, rfl⟩ := rest
    exact .inr rfl

theorem claimRewardsPaid {candidate delegator : α} {st st' : State α ι σ} {rewards : Nat}
    (h : claimRewards candidate delegator st = .ok (rewards, st')) :
    st.pools candidate (.manualRewardsCheckpoint delegator) ≤ st.pools candidate .manualRewardsCounter ∧
    rewards = (st.pools candidate .manualRewardsCounter - st.pools candidate (.manualRewardsCheckpoint delegator)) *
      Pool.shares .manualRewards candidate delegator st ∧
    st' = st.setPool candidate (.manualRewardsCheckpoint delegator) (st.pools candidate .manualRewardsCounter) := by
  simp only [claimRewards, bindEqOk, errSubOk] at h
  obtain ⟨diff, ⟨le, rfl⟩, rest⟩ := h
  split at rest
  · rename_i noRise
    simp only [pureEqOk, Prod.mk.injEq] at rest
    obtain ⟨rfl, rfl⟩ := rest
    have same : st.pools candidate .manualRewardsCounter = st.pools candidate (.manualRewardsCheckpoint delegator) := by
      omega
    refine ⟨le, by rw [noRise, Nat.zero_mul], ?_⟩
    rw [same, State.setPoolSame]
  · simp only [bindEqOk, errMulOk, pureEqOk, Prod.mk.injEq] at rest
    obtain ⟨_, ⟨-, rfl⟩, rfl, rfl⟩ := rest
    exact ⟨le, rfl, rfl⟩

omit [DecidableEq α] in
theorem pendingRewardsEq {candidate delegator : α} {st : State α ι σ}
    (le : st.pools candidate (.manualRewardsCheckpoint delegator) ≤ st.pools candidate .manualRewardsCounter) :
    pendingRewards candidate delegator st =
      errMul (st.pools candidate .manualRewardsCounter - st.pools candidate (.manualRewardsCheckpoint delegator))
        (Pool.shares .manualRewards candidate delegator st) := by
  simp only [pendingRewards]
  split
  · rename_i noShares
    rw [noShares, errMul, if_pos (by simpa using balanceBoundPos)]
    rfl
  · simp only [errSub, if_pos le]
    rfl

end Tanssi.PooledStaking
