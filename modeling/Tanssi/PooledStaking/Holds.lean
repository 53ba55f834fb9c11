import Tanssi.PooledStaking.Steps
import Tanssi.PooledStaking.Balances

/-! The `Joining` and `Leaving` pools never receive rewards nor slashes from the calls, so
they stay at their initial share value: a pool's stake is its supply at that value, and
each delegator's hold in it is their shares at that value. Shares and stake convert
exactly both ways at that price, so the hold a request puts on is the hold its execution
takes off, and `decrease_hold` after `sub_shares` never underflows ("there should always
be enough hold"). The other two pools are not covered: their hold is rebalanced lazily. -/
namespace Tanssi.PooledStaking
open Frame

variable {α ι σ : Type}

def AllTargetPool.holdsRequests : AllTargetPool → Bool
  | .joining | .leaving => true
  | .autoCompounding | .manualRewards => false

@[simp] theorem TargetPool.toAllHoldsRequests (pool : TargetPool) : pool.toAll.holdsRequests = false := by
  cases pool <;> rfl

def PoolsKey.ofRequests : PoolsKey α → Bool
  | .shares p _ | .sharesSupply p | .sharesTotalStaked p | .sharesHeldStake p _ => p.holdsRequests
  | _ => false

structure RequestPoolsExact (cfg : Config α σ) (st : State α ι σ) : Prop where
  price : ∀ p c, p.holdsRequests → Pool.totalStaked p c st = Pool.initialShareValue cfg p * Pool.sharesSupply p c st
  held : ∀ p c d, p.holdsRequests → Pool.hold p c d st = Pool.initialShareValue cfg p * Pool.shares p c d st

namespace RequestPoolsExact
variable {cfg : Config α σ} {st st' : State α ι σ}

theorem ofSame (inv : RequestPoolsExact cfg st) (keep : ∀ c k, k.ofRequests → st'.pools c k = st.pools c k) :
    RequestPoolsExact cfg st' := by
  refine ⟨fun p c req => ?_, fun p c d req => ?_⟩
  · simp only [Pool.totalStaked, Pool.sharesSupply]
    rw [keep c (.sharesTotalStaked p) req, keep c (.sharesSupply p) req]
    exact inv.price p c req
  · simp only [Pool.hold, Pool.shares]
    rw [keep c (.sharesHeldStake p d) req, keep c (.shares p d) req]
    exact inv.held p c d req

theorem empty (currency : σ) : RequestPoolsExact cfg (State.empty currency : State α ι σ) :=
  ⟨fun _ _ _ => by simp [State.empty], fun _ _ _ _ => by simp [State.empty]⟩

theorem ofPools (inv : RequestPoolsExact cfg st) (same : st'.pools = st.pools) : RequestPoolsExact cfg st' :=
  inv.ofSame fun c k _ => by rw [same]

theorem ofClaim (inv : RequestPoolsExact cfg st) (h : ClaimEffect cfg st st') : RequestPoolsExact cfg st' :=
  inv.ofSame fun c k req => h.pools c k fun d same => by rw [same] at req; cases req

theorem stakeOfShares {shares stake : Nat} {p : AllTargetPool} {candidate : α} (inv : RequestPoolsExact cfg st)
    (req : p.holdsRequests) (h : Pool.sharesToStakeOrInit cfg p candidate shares st = .ok stake) :
    stake = shares * Pool.initialShareValue cfg p :=
  Pool.sharesToStakeOrInitAtPrice (inv.price p candidate req) h

theorem stakeOfSharesSub {shares stake : Nat} {p : AllTargetPool} {candidate : α} (inv : RequestPoolsExact cfg st)
    (req : p.holdsRequests) (h : Pool.sharesToStake p candidate shares st = .ok stake) :
    stake = shares * Pool.initialShareValue cfg p :=
  Pool.sharesToStakeAtPrice (inv.price p candidate req) h

section Writes
variable [DecidableEq α] {p : AllTargetPool} {candidate delegator : α}

theorem setPool {k : PoolsKey α} {v : Nat} (inv : RequestPoolsExact cfg st) (other : k.ofRequests = false) :
    RequestPoolsExact cfg (st.setPool candidate k v) := by
  refine inv.ofSame fun c k' req => ?_
  have differ : k' ≠ k := by rintro rfl; rw [other] at req; cases req
  simp [differ]

theorem ofRequestWrite {supply shares total hold : Nat} {st₁ : State α ι σ} (inv : RequestPoolsExact cfg st)
    (req : p.holdsRequests)
    (written : st₁.pools = (((st.setPool candidate (.sharesSupply p) supply).setPool candidate (.shares p delegator)
      shares).setPool candidate (.sharesTotalStaked p) total).pools)
    (priced : total = Pool.initialShareValue cfg p * supply) (exact : hold = Pool.initialShareValue cfg p * shares) :
    RequestPoolsExact cfg (st₁.setPool candidate (.sharesHeldStake p delegator) hold) := by
  refine ⟨fun p' c req' => ?_, fun p' c d req' => ?_⟩
  · by_cases here : c = candidate ∧ p' = p
    · obtain ⟨rfl, rfl⟩ := here
      simpa [written] using priced
    · simp only [Pool.totalStaked, Pool.sharesSupply, State.setPoolPools, written, PoolsKey.sharesTotalStaked.injEq,
        PoolsKey.sharesSupply.injEq, reduceCtorEq, and_false, if_false, if_neg here]
      exact inv.price p' c req'
  · by_cases here : c = candidate ∧ p' = p ∧ d = delegator
    · obtain ⟨rfl, rfl, rfl⟩ := here
      simpa [written] using exact
    · simp only [Pool.hold, Pool.shares, State.setPoolPools, written, PoolsKey.sharesHeldStake.injEq,
        PoolsKey.shares.injEq, reduceCtorEq, and_false, if_false, if_neg here]
      exact inv.held p' c d req'

theorem join {shares stake : Nat} {st₁ st₁' : State α ι σ} (inv : RequestPoolsExact cfg st) (req : p.holdsRequests)
    (added : Pool.addShares cfg p candidate delegator shares st = .ok (stake, st₁)) (same : st₁'.pools = st₁.pools)
    (held : Pool.increaseHold p candidate delegator stake st₁' = .ok st') : RequestPoolsExact cfg st' := by
  obtain ⟨-, converted, -, -, -, rfl⟩ := Pool.addSharesOk added
  obtain ⟨-, rfl⟩ := Pool.increaseHoldOk held
  have value := inv.stakeOfShares req converted
  have oldHold := inv.held p candidate delegator req
  have oldPrice := inv.price p candidate req
  refine inv.ofRequestWrite req same ?_ ?_
  · rw [oldPrice, value]; ring
  · simp only [Pool.hold, same, State.setPoolPools, reduceCtorEq, and_false, if_false] at oldHold ⊢
    rw [oldHold, value]; ring

theorem subSharesHold {shares stake : Nat} {st₁ : State α ι σ} (inv : RequestPoolsExact cfg st) (req : p.holdsRequests)
    (subtracted : Pool.subShares p candidate delegator shares st = .ok (stake, st₁)) :
    stake ≤ Pool.hold p candidate delegator st₁ := by
  obtain ⟨-, converted, -, owned, -, rfl⟩ := Pool.subSharesOk subtracted
  have value := inv.stakeOfSharesSub req converted
  have oldHold := inv.held p candidate delegator req
  simp only [Pool.hold, Pool.shares, State.setPoolPools, reduceCtorEq, and_false, if_false] at oldHold owned ⊢
  rw [oldHold, value, Nat.mul_comm]
  exact Nat.mul_le_mul_left _ owned

theorem leave {shares stake : Nat} {st₁ : State α ι σ} (inv : RequestPoolsExact cfg st) (req : p.holdsRequests)
    (subtracted : Pool.subShares p candidate delegator shares st = .ok (stake, st₁))
    (released : Pool.decreaseHold p candidate delegator stake st₁ = .ok st') : RequestPoolsExact cfg st' := by
  obtain ⟨-, converted, -, -, -, rfl⟩ := Pool.subSharesOk subtracted
  obtain ⟨-, rfl⟩ := Pool.decreaseHoldOk released
  have value := inv.stakeOfSharesSub req converted
  have oldHold := inv.held p candidate delegator req
  have oldPrice := inv.price p candidate req
  refine inv.ofRequestWrite req rfl ?_ ?_
  · rw [oldPrice, value, Nat.mul_sub, Nat.mul_comm shares]
  · simp only [Pool.hold, State.setPoolPools, reduceCtorEq, and_false, if_false] at oldHold ⊢
    rw [oldHold, value, Nat.mul_sub, Nat.mul_comm shares]

/- Writes to the other two pools leave the request pools alone. -/

theorem addSharesOther {shares stake : Nat} (inv : RequestPoolsExact cfg st) (other : p.holdsRequests = false)
    (h : Pool.addShares cfg p candidate delegator shares st = .ok (stake, st')) : RequestPoolsExact cfg st' := by
  obtain ⟨-, -, -, -, -, rfl⟩ := Pool.addSharesOk h
  refine ((inv.setPool ?_).setPool ?_).setPool ?_ <;> exact other

theorem subSharesOther {shares stake : Nat} (inv : RequestPoolsExact cfg st) (other : p.holdsRequests = false)
    (h : Pool.subShares p candidate delegator shares st = .ok (stake, st')) : RequestPoolsExact cfg st' := by
  obtain ⟨-, -, -, -, -, rfl⟩ := Pool.subSharesOk h
  refine ((inv.setPool ?_).setPool ?_).setPool ?_ <;> exact other

theorem increaseHoldOther {stake : Nat} (inv : RequestPoolsExact cfg st) (other : p.holdsRequests = false)
    (h : Pool.increaseHold p candidate delegator stake st = .ok st') : RequestPoolsExact cfg st' := by
  obtain ⟨-, rfl⟩ := Pool.increaseHoldOk h
  exact inv.setPool other

theorem decreaseHoldOther {stake : Nat} (inv : RequestPoolsExact cfg st) (other : p.holdsRequests = false)
    (h : Pool.decreaseHold p candidate delegator stake st = .ok st') : RequestPoolsExact cfg st' := by
  obtain ⟨-, rfl⟩ := Pool.decreaseHoldOk h
  exact inv.setPool other

end Writes

/- Each call keeps the invariant. -/

section Calls
variable [LinearOrder α] {env : Env α ι} {candidate delegator : α}

theorem totalWrite {stake : Nat} {list : List (Entry α)} (inv : RequestPoolsExact cfg st) :
    RequestPoolsExact cfg ((st.setPool candidate .candidateTotalStake stake).setSorted list) :=
  (inv.setPool rfl).ofPools (State.setSortedPools _ _)

theorem addTotalStake {stake : Nat} (inv : RequestPoolsExact cfg st)
    (h : Candidates.addTotalStake cfg env candidate stake st = .ok st') : RequestPoolsExact cfg st' := by
  rw [(Candidates.addTotalStakeFrame h).2]
  exact inv.totalWrite

theorem subTotalStake {stake : Nat} (inv : RequestPoolsExact cfg st)
    (h : Candidates.subTotalStake cfg env candidate stake st = .ok st') : RequestPoolsExact cfg st' := by
  rw [(Candidates.subTotalStakeFrame h).2]
  exact inv.totalWrite

theorem rebalanceHold {pool : AllTargetPool} (inv : RequestPoolsExact cfg st)
    (h : Calls.rebalanceHold cfg candidate delegator pool st = .ok st') : RequestPoolsExact cfg st' := by
  obtain ⟨stake, currency, converted, rfl, -⟩ := Calls.rebalanceHoldOk h
  refine RequestPoolsExact.ofPools ?_ (State.setCurrencyPools _ _)
  cases req : pool.holdsRequests
  · exact inv.setPool req
  · have value := inv.stakeOfSharesSub req converted
    have held := inv.held pool candidate delegator req
    rw [value, Nat.mul_comm, ← held]
    simp only [Pool.hold, State.setPoolSame]
    exact inv

theorem executeJoining {pool : TargetPool} {joiningShares : Nat} (inv : RequestPoolsExact cfg st)
    (h : Calls.executeJoining cfg env candidate delegator pool joiningShares st = .ok st') : RequestPoolsExact cfg st' := by
  obtain ⟨stake, subtracted, released, claimed, shares, hsub, hreleased, hclaimed, -, rest, -⟩ :=
    Calls.executeJoiningOk h
  have claimedInv := (inv.leave rfl hsub hreleased).ofClaim (Calls.claimIfManualOk hclaimed)
  rcases rest with ⟨-, currency, -, final⟩ | ⟨-, actuallyStaked, added, held, currency, hadded, hheld, -, -, final⟩
  · exact (claimedInv.ofPools (State.setCurrencyPools _ _)).subTotalStake final
  · have other := TargetPool.toAllHoldsRequests pool
    have heldInv := (claimedInv.addSharesOther other hadded).increaseHoldOther other hheld
    exact (heldInv.ofPools (State.setCurrencyPools _ _)).subTotalStake final

theorem executeLeaving {leavingShares : Nat} (inv : RequestPoolsExact cfg st)
    (h : Calls.executeLeaving cfg candidate delegator leavingShares st = .ok st') : RequestPoolsExact cfg st' := by
  obtain ⟨stake, subtracted, released, currency, hsub, hreleased, -, rfl⟩ := Calls.executeLeavingOk h
  exact (inv.leave rfl hsub hreleased).ofPools (State.setCurrencyPools _ _)

theorem updateCandidatePosition {candidates : List α} (inv : RequestPoolsExact cfg st)
    (h : Calls.updateCandidatePosition cfg env candidates st = .ok st') : RequestPoolsExact cfg st' := by
  refine Calls.updateCandidatePositionInduct (RequestPoolsExact cfg) (fun candidate st st' inv updated => ?_) inv h
  rw [Candidates.updateTotalStakeFrame updated]
  exact inv.totalWrite

variable [DecidableEq ι]

theorem requestDelegate {pool : TargetPool} {amount : Nat} (inv : RequestPoolsExact cfg st)
    (h : Calls.requestDelegate cfg env candidate delegator pool amount st = .ok st') : RequestPoolsExact cfg st' := by
  obtain ⟨shares, stake, added, currency, held, updated, hadded, -, hheld, hupdated, -, rfl, -⟩ :=
    Calls.requestDelegateOk h
  have heldInv := inv.join rfl hadded (State.setCurrencyPools _ _) hheld
  exact (heldInv.addTotalStake hupdated).ofPools (State.setPendingPools _ _ _ _)

theorem requestUndelegate {pool : TargetPool} {amount : SharesOrStake} (inv : RequestPoolsExact cfg st)
    (h : Calls.requestUndelegate cfg env candidate delegator pool amount st = .ok st') : RequestPoolsExact cfg st' := by
  obtain ⟨shares, claimed, rebalanced, removed, subtracted, released, updated, leavingShares, leavingStake, added,
    held, queued, hclaimed, hrebalanced, hsub, hreleased, hupdated, hadded, hheld, -, hqueued, -, final, -⟩ :=
    Calls.requestUndelegateOk h
  have claimedInv := inv.ofClaim (Calls.claimIfManualOk hclaimed)
  have rebalancedInv : RequestPoolsExact cfg rebalanced := by
    rcases hrebalanced with rfl | hrebalanced
    · exact claimedInv
    · exact claimedInv.rebalanceHold hrebalanced
  have other := TargetPool.toAllHoldsRequests pool
  have releasedInv := ((rebalancedInv.subSharesOther other hsub).decreaseHoldOther other hreleased).subTotalStake
    hupdated
  have queuedInv : RequestPoolsExact cfg queued := by
    rw [hqueued]
    exact (releasedInv.join rfl hadded rfl hheld).ofPools (State.setPendingPools _ _ _ _)
  rcases final with ⟨-, rfl⟩ | ⟨-, currency, -, rfl⟩
  · exact queuedInv
  · exact queuedInv.ofPools (State.setCurrencyPools _ _)

theorem executeOperation {index value : Nat} {operation : PendingOperationKey α ι} (inv : RequestPoolsExact cfg st)
    (h : Calls.executeOperation cfg env index delegator value operation st = .ok st') :
    RequestPoolsExact cfg (st'.setPending delegator operation 0) := by
  refine RequestPoolsExact.ofPools ?_ (State.setPendingPools _ _ _ _)
  rcases Calls.executeOperationOk h with ⟨_, _, _, -, joined⟩ | ⟨_, _, -, left⟩
  · exact inv.executeJoining joined
  · exact inv.executeLeaving left

theorem executePendingOperations {index : Nat} {queries : List (PendingOperationQuery α ι)}
    (inv : RequestPoolsExact cfg st) (h : Calls.executePendingOperations cfg env index queries st = .ok st') :
    RequestPoolsExact cfg st' :=
  Calls.executePendingOperationsInduct (RequestPoolsExact cfg)
    (fun _ _ _ _ _ inv _ executed => inv.executeOperation executed) inv h

theorem dispatch {origin : RawOrigin α} {call : Call α ι} (inv : RequestPoolsExact cfg st)
    (h : PooledStaking.dispatch cfg env origin call st = .ok st') : RequestPoolsExact cfg st' := by
  unfold PooledStaking.dispatch at h
  split at h
  · cases h
  · cases call with
    | rebalanceHold => exact inv.rebalanceHold h
    | requestDelegate => exact inv.requestDelegate h
    | executePendingOperations => exact inv.executePendingOperations h
    | requestUndelegate => exact inv.requestUndelegate h
    | claimManualRewards => exact inv.ofClaim (Calls.claimManualRewardsOk h)
    | updateCandidatePosition => exact inv.updateCandidatePosition h

theorem reachable (reach : Reachable cfg st) : RequestPoolsExact cfg st := by
  induction reach with
  | empty => exact empty _
  | call env origin call _ dispatched inv => exact inv.dispatch dispatched

end Calls

end RequestPoolsExact

theorem requestPoolsCarryNoDrift [LinearOrder α] [DecidableEq ι] (cfg : Config α σ) :
    (∀ st : State α ι σ, Reachable cfg st → RequestPoolsExact cfg st) ∧
    (∀ (env : Env α ι) index delegator operation (st st' : State α ι σ), RequestPoolsExact cfg st →
      Calls.executeOperation cfg env index delegator (st.pendingOperations delegator operation) operation st = .ok st' →
      RequestPoolsExact cfg (st'.setPending delegator operation 0)) ∧
    (∀ (st st₁ : State α ι σ) p c d shares stake, RequestPoolsExact cfg st → p.holdsRequests →
      Pool.subShares p c d shares st = .ok (stake, st₁) → ∃ st₂, Pool.decreaseHold p c d stake st₁ = .ok st₂) :=
  ⟨fun _ reach => RequestPoolsExact.reachable reach,
    fun _ _ _ _ _ _ inv executed => inv.executeOperation executed,
    fun _ _ _ _ _ _ _ inv req subtracted => Pool.decreaseHoldOfLe (inv.subSharesHold req subtracted)⟩

/- Account 1 delegates 3 to candidate 1 from empty storage, and its joining request is then
executed. -/

theorem requestPoolsCarryNoDriftAfterJoining :
    ∃ st st' : State (Fin 2) Unit (Fin 2 → Account),
      dispatch sampleConfig sampleEnv (.signed 1) (.requestDelegate 1 .autoCompounding 3) (State.empty sampleAccounts) =
        .ok st ∧
      Calls.executeOperation sampleConfig sampleEnv 0 1 (st.pendingOperations 1 (.joiningAutoCompounding 1 ()))
        (.joiningAutoCompounding 1 ()) st = .ok st' ∧
      RequestPoolsExact sampleConfig st ∧
      RequestPoolsExact sampleConfig (st'.setPending 1 (.joiningAutoCompounding 1 ()) 0) := by
  obtain ⟨st, delegated, executes⟩ := toOptionAny.1 (show (dispatch sampleConfig sampleEnv (.signed 1)
    (.requestDelegate 1 .autoCompounding 3) (State.empty sampleAccounts : State (Fin 2) Unit (Fin 2 → Account))).toOption.any
      (fun st => (Calls.executeOperation sampleConfig sampleEnv 0 1 (st.pendingOperations 1 (.joiningAutoCompounding 1 ()))
        (.joiningAutoCompounding 1 ()) st).toOption.any fun _ => true) = true by decide +kernel)
  obtain ⟨st', executed, -⟩ := toOptionAny.1 executes
  have reach : Reachable sampleConfig st := .call sampleEnv (.signed 1) _ (.empty fun _ => rfl) delegated
  have exact : RequestPoolsExact sampleConfig st := (requestPoolsCarryNoDrift sampleConfig).1 st reach
  exact ⟨st, st', delegated, executed, exact, (requestPoolsCarryNoDrift sampleConfig).2.1 sampleEnv 0 1 _ st st' exact executed⟩

end Tanssi.PooledStaking
