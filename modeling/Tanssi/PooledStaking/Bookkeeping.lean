import Tanssi.PooledStaking.Steps
import Tanssi.PooledStaking.Balances

/-! The pools' bookkeeping over every reachable state. Every write to `Pools` keeps
three facts at once (`PoolInvariant`): stored values fit in a `u128`, a pool's share
supply is the sum of its delegators' shares, and a pool's stake is its supply at the
initial share value, since no reward or slash is among the calls. A candidate's total
stake and the stake of its three staking pools move together (`TotalsMatch`), write by
write, so `check_candidate_consistency` passes in every reachable state. -/
namespace Tanssi.PooledStaking
open Frame

variable {α ι σ : Type}

theorem sumIteEq {β : Type} [Fintype β] [DecidableEq β] (f : β → Nat) (a : β) (v : Nat) :
    (∑ x, if x = a then v else f x) + f a = (∑ x, f x) + v := by
  rw [← Finset.add_sum_erase _ _ (Finset.mem_univ a), ← Finset.add_sum_erase _ f (Finset.mem_univ a)]
  have rest : ∑ x ∈ Finset.univ.erase a, (if x = a then v else f x) = ∑ x ∈ Finset.univ.erase a, f x :=
    Finset.sum_congr rfl fun x hx => by simp [Finset.ne_of_mem_erase hx]
  simp only [if_pos, rest]
  omega

def PoolsKey.ofShares : PoolsKey α → Bool
  | .shares _ _ | .sharesSupply _ | .sharesTotalStaked _ => true
  | _ => false

def PoolsKey.checked : PoolsKey α → Bool
  | .candidateTotalStake | .sharesTotalStaked .joining | .sharesTotalStaked .autoCompounding
  | .sharesTotalStaked .manualRewards => true
  | _ => false

/- A candidate's total and the stake of its three staking pools move together. Each write
moves the total, the staked sum, or neither, by an amount its own lemma names; each call
that moves stake into or out of a staking pool moves the total by the same amount. -/

@[simp] theorem TargetPool.toAllNeLeaving (pool : TargetPool) : pool.toAll ≠ .leaving := by
  cases pool <;> decide

def stakedTotal (c : α) (st : State α ι σ) : Nat :=
  Pool.totalStaked .joining c st + Pool.totalStaked .autoCompounding c st + Pool.totalStaked .manualRewards c st

def TotalsMatch (st : State α ι σ) : Prop := ∀ c, st.pools c .candidateTotalStake = stakedTotal c st

section Moves
variable {cfg : Config α σ} {st st' : State α ι σ} {candidate delegator : α}

theorem movesNeither (kept : ∀ c k, k.checked → st'.pools c k = st.pools c k) (c : α) :
    st'.pools c .candidateTotalStake = st.pools c .candidateTotalStake ∧ stakedTotal c st' = stakedTotal c st := by
  refine ⟨kept c _ rfl, ?_⟩
  simp only [stakedTotal, Pool.totalStaked, kept c (.sharesTotalStaked .joining) rfl,
    kept c (.sharesTotalStaked .autoCompounding) rfl, kept c (.sharesTotalStaked .manualRewards) rfl]

variable [DecidableEq α]

theorem movesAddShares {pool : AllTargetPool} {shares stake : Nat} (staked : pool ≠ .leaving)
    (h : Pool.addShares cfg pool candidate delegator shares st = .ok (stake, st')) (c : α) :
    st'.pools c .candidateTotalStake = st.pools c .candidateTotalStake ∧
      stakedTotal c st' = stakedTotal c st + if c = candidate then stake else 0 := by
  obtain ⟨-, -, -, -, -, rfl⟩ := Pool.addSharesOk h
  by_cases here : c = candidate
  · subst here
    cases pool <;> simp_all [stakedTotal, Pool.totalStaked] <;> omega
  · simp [stakedTotal, Pool.totalStaked, here]

theorem movesSubShares {pool : AllTargetPool} {shares stake : Nat} (staked : pool ≠ .leaving)
    (h : Pool.subShares pool candidate delegator shares st = .ok (stake, st')) (c : α) :
    st'.pools c .candidateTotalStake = st.pools c .candidateTotalStake ∧
      stakedTotal c st' + (if c = candidate then stake else 0) = stakedTotal c st := by
  obtain ⟨-, -, -, -, within, rfl⟩ := Pool.subSharesOk h
  by_cases here : c = candidate
  · subst here
    cases pool <;> simp_all [stakedTotal, Pool.totalStaked] <;> omega
  · simp [stakedTotal, Pool.totalStaked, here]

end Moves

section CallMoves
variable [LinearOrder α] {cfg : Config α σ} {env : Env α ι} {st st' : State α ι σ} {candidate : α}

theorem movesAddTotalStake {stake : Nat} (h : Candidates.addTotalStake cfg env candidate stake st = .ok st') (c : α) :
    st'.pools c .candidateTotalStake = st.pools c .candidateTotalStake + (if c = candidate then stake else 0) ∧
      stakedTotal c st' = stakedTotal c st := by
  rw [(Candidates.addTotalStakeFrame h).2]
  by_cases here : c = candidate
  · subst here
    simp [stakedTotal, Pool.totalStaked, Candidates.totalStake]
  · simp [stakedTotal, Pool.totalStaked, here]

theorem movesSubTotalStake {stake : Nat} (h : Candidates.subTotalStake cfg env candidate stake st = .ok st') (c : α) :
    st'.pools c .candidateTotalStake + (if c = candidate then stake else 0) = st.pools c .candidateTotalStake ∧
      stakedTotal c st' = stakedTotal c st := by
  obtain ⟨within, written⟩ := Candidates.subTotalStakeFrame h
  rw [written]
  by_cases here : c = candidate
  · subst here
    simp only [Candidates.totalStake] at within
    simp [stakedTotal, Pool.totalStaked, Candidates.totalStake, Nat.sub_add_cancel within]
  · simp [stakedTotal, Pool.totalStaked, here]

end CallMoves

namespace TotalsMatch
variable {cfg : Config α σ} {env : Env α ι} {st st' : State α ι σ} {candidate delegator : α}

theorem empty (currency : σ) : TotalsMatch (State.empty currency : State α ι σ) := fun _ => rfl

theorem ofKept (inv : TotalsMatch st) (kept : ∀ c k, k.checked → st'.pools c k = st.pools c k) : TotalsMatch st' := by
  intro c
  obtain ⟨total, staked⟩ := movesNeither kept c
  rw [total, staked]
  exact inv c

variable [LinearOrder α]

theorem executeJoining {pool : TargetPool} {joiningShares : Nat} (inv : TotalsMatch st)
    (h : Calls.executeJoining cfg env candidate delegator pool joiningShares st = .ok st') : TotalsMatch st' := by
  obtain ⟨stake, subtracted, released, claimed, shares, hsub, hreleased, hclaimed, -, rest, -⟩ :=
    Calls.executeJoiningOk h
  intro c
  have before := inv c
  obtain ⟨total₁, staked₁⟩ := movesSubShares (by decide) hsub c
  obtain ⟨total₂, staked₂⟩ := movesNeither ((Keeps.decreaseHold rfl hreleased).trans
    (Keeps.ofClaim (Calls.claimIfManualOk hclaimed) fun _ => rfl)).pools c
  rcases rest with ⟨-, currency, -, final⟩ | ⟨-, actuallyStaked, added, held, currency, hadded, hheld, le, -, final⟩
  · have released : ∀ c k, PoolsKey.checked k → (claimed.setCurrency currency).pools c k = claimed.pools c k :=
      fun _ _ _ => rfl
    obtain ⟨total₃, staked₃⟩ := movesNeither released c
    obtain ⟨total₄, staked₄⟩ := movesSubTotalStake final c
    split_ifs at staked₁ total₄ <;> omega
  · obtain ⟨total₃, staked₃⟩ := movesAddShares (TargetPool.toAllNeLeaving pool) hadded c
    obtain ⟨total₄, staked₄⟩ := movesNeither ((Keeps.increaseHold rfl hheld).trans (Keeps.setCurrency currency)).pools c
    obtain ⟨total₅, staked₅⟩ := movesSubTotalStake final c
    split_ifs at staked₁ staked₃ total₅ <;> omega

theorem executeLeaving {leavingShares : Nat} (inv : TotalsMatch st)
    (h : Calls.executeLeaving cfg candidate delegator leavingShares st = .ok st') : TotalsMatch st' := by
  obtain ⟨stake, subtracted, released, currency, hsub, hreleased, -, rfl⟩ := Calls.executeLeavingOk h
  exact inv.ofKept (((Keeps.subShares ⟨rfl, rfl, rfl⟩ hsub).trans (Keeps.decreaseHold rfl hreleased)).trans
    (Keeps.setCurrency currency)).pools

theorem updateCandidatePosition {candidates : List α} (inv : TotalsMatch st)
    (h : Calls.updateCandidatePosition cfg env candidates st = .ok st') : TotalsMatch st' := by
  refine Calls.updateCandidatePositionInduct TotalsMatch (fun candidate st st' inv updated => ?_) inv h
  rw [Candidates.updateTotalStakeFrame updated, Candidates.totalStake, State.setPoolSame]
  exact inv.ofKept fun _ _ _ => rfl

variable [DecidableEq ι]

theorem requestDelegate {pool : TargetPool} {amount : Nat} (inv : TotalsMatch st)
    (h : Calls.requestDelegate cfg env candidate delegator pool amount st = .ok st') : TotalsMatch st' := by
  obtain ⟨shares, stake, added, currency, held, updated, hadded, -, hheld, hupdated, -, rfl, -⟩ :=
    Calls.requestDelegateOk h
  have matched : TotalsMatch updated := by
    intro c
    have before := inv c
    obtain ⟨total₁, staked₁⟩ := movesAddShares (by decide) hadded c
    obtain ⟨total₂, staked₂⟩ := movesNeither ((Keeps.setCurrency currency).trans (Keeps.increaseHold rfl hheld)).pools c
    obtain ⟨total₃, staked₃⟩ := movesAddTotalStake hupdated c
    split_ifs at staked₁ total₃ <;> omega
  exact matched.ofKept fun _ _ _ => rfl

theorem requestUndelegate {pool : TargetPool} {amount : SharesOrStake} (inv : TotalsMatch st)
    (h : Calls.requestUndelegate cfg env candidate delegator pool amount st = .ok st') : TotalsMatch st' := by
  obtain ⟨shares, claimed, rebalanced, removed, subtracted, released, updated, leavingShares, leavingStake, added,
    held, queued, hclaimed, hrebalanced, hsub, hreleased, hupdated, hadded, hheld, -, hqueued, -, final, -⟩ :=
    Calls.requestUndelegateOk h
  have kept : Keeps PoolsKey.checked st rebalanced := by
    refine (Keeps.ofClaim (Calls.claimIfManualOk hclaimed) fun _ => rfl).trans ?_
    rcases hrebalanced with rfl | hrebalanced
    · exact .refl _
    · exact Keeps.rebalanceHold rfl hrebalanced
  have matched : TotalsMatch updated := by
    intro c
    have before := inv c
    obtain ⟨total₁, staked₁⟩ := movesNeither kept.pools c
    obtain ⟨total₂, staked₂⟩ := movesSubShares (TargetPool.toAllNeLeaving pool) hsub c
    obtain ⟨total₃, staked₃⟩ := movesNeither (Keeps.decreaseHold rfl hreleased).pools c
    obtain ⟨total₄, staked₄⟩ := movesSubTotalStake hupdated c
    split_ifs at staked₂ total₄ <;> omega
  have matchedQueued : TotalsMatch queued := by
    rw [hqueued]
    exact matched.ofKept ((Keeps.addShares ⟨rfl, rfl, rfl⟩ hadded).trans (Keeps.increaseHold rfl hheld)).pools
  rcases final with ⟨-, rfl⟩ | ⟨-, currency, -, rfl⟩
  · exact matchedQueued
  · exact matchedQueued.ofKept fun _ _ _ => rfl

theorem executePendingOperations {index : Nat} {queries : List (PendingOperationQuery α ι)}
    (inv : TotalsMatch st) (h : Calls.executePendingOperations cfg env index queries st = .ok st') :
    TotalsMatch st' := by
  refine Calls.executePendingOperationsInduct TotalsMatch (fun _ _ _ st st' inv _ executed => ?_) inv h
  rcases Calls.executeOperationOk executed with ⟨_, _, _, -, joined⟩ | ⟨_, _, -, left⟩
  · exact (inv.executeJoining joined).ofKept fun _ _ _ => rfl
  · exact (inv.executeLeaving left).ofKept fun _ _ _ => rfl

theorem dispatch {origin : RawOrigin α} {call : Call α ι} (inv : TotalsMatch st)
    (h : PooledStaking.dispatch cfg env origin call st = .ok st') : TotalsMatch st' := by
  unfold PooledStaking.dispatch at h
  split at h
  · cases h
  · cases call with
    | rebalanceHold => exact inv.ofKept (Keeps.rebalanceHold rfl h).pools
    | requestDelegate => exact inv.requestDelegate h
    | executePendingOperations => exact inv.executePendingOperations h
    | requestUndelegate => exact inv.requestUndelegate h
    | claimManualRewards => exact inv.ofKept (Keeps.ofClaim (Calls.claimManualRewardsOk h) fun _ => rfl).pools
    | updateCandidatePosition => exact inv.updateCandidatePosition h

theorem reachable (reach : Reachable cfg st) : TotalsMatch st := by
  induction reach with
  | empty => exact empty _
  | call env origin call _ dispatched inv => exact inv.dispatch dispatched

end TotalsMatch

section Sums
variable [DecidableEq α] [Fintype α]

theorem sumSharesSetShares (st : State α ι σ) (c c' : α) (p p' : AllTargetPool) (d : α) (v : Nat) :
    (∑ x, (st.setPool c (.shares p d) v).pools c' (.shares p' x)) +
        (if c' = c ∧ p' = p then st.pools c (.shares p d) else 0) =
      (∑ x, st.pools c' (.shares p' x)) + (if c' = c ∧ p' = p then v else 0) := by
  by_cases here : c' = c ∧ p' = p
  · obtain ⟨rfl, rfl⟩ := here
    have sum := sumIteEq (fun x => st.pools c' (.shares p' x)) d v
    simp only [State.setPoolPools, PoolsKey.shares.injEq, true_and, and_self, if_true]
    exact sum
  · have unchanged : ∀ x, (st.setPool c (.shares p d) v).pools c' (.shares p' x) = st.pools c' (.shares p' x) := by
      intro x
      simp only [State.setPoolPools, PoolsKey.shares.injEq]
      rw [if_neg (fun h => here ⟨h.1, h.2.1⟩)]
    simp only [unchanged, if_neg here]

theorem sumSharesSetOther (st : State α ι σ) (c c' : α) (k : PoolsKey α) (v : Nat) (p' : AllTargetPool)
    (other : ∀ p d, k ≠ .shares p d) :
    ∑ x, (st.setPool c k v).pools c' (.shares p' x) = ∑ x, st.pools c' (.shares p' x) := by
  refine Finset.sum_congr rfl fun x _ => ?_
  simp only [State.setPoolPools]
  rw [if_neg (fun h => other p' x h.2.symm)]

end Sums

variable [Fintype α]

structure PoolInvariant (cfg : Config α σ) (st : State α ι σ) : Prop where
  bounded : ∀ c k, st.pools c k < balanceBound
  supply : ∀ c p, st.pools c (.sharesSupply p) = ∑ d, st.pools c (.shares p d)
  price : ∀ c p, st.pools c (.sharesTotalStaked p) = Pool.initialShareValue cfg p * st.pools c (.sharesSupply p)

namespace PoolInvariant
variable {cfg : Config α σ} {st st' : State α ι σ}

theorem ofPools (same : st'.pools = st.pools) (inv : PoolInvariant cfg st) : PoolInvariant cfg st' := by
  obtain ⟨bounded, supply, price⟩ := inv
  exact ⟨by rw [same]; exact bounded, by rw [same]; exact supply, by rw [same]; exact price⟩

theorem stakeOfShares {pool : AllTargetPool} {candidate : α} {shares stake : Nat} (inv : PoolInvariant cfg st)
    (h : Pool.sharesToStakeOrInit cfg pool candidate shares st = .ok stake) :
    stake = shares * Pool.initialShareValue cfg pool :=
  Pool.sharesToStakeOrInitAtPrice (inv.price candidate pool) h

theorem stakeOfSharesSub {pool : AllTargetPool} {candidate : α} {shares stake : Nat} (inv : PoolInvariant cfg st)
    (h : Pool.sharesToStake pool candidate shares st = .ok stake) :
    stake = shares * Pool.initialShareValue cfg pool :=
  Pool.sharesToStakeAtPrice (inv.price candidate pool) h

theorem empty (currency : σ) : PoolInvariant cfg (State.empty currency : State α ι σ) :=
  ⟨fun _ _ => balanceBoundPos, fun _ _ => by simp [State.empty], fun _ _ => by simp [State.empty]⟩

theorem ofClaim (inv : PoolInvariant cfg st) (h : ClaimEffect cfg st st') : PoolInvariant cfg st' := by
  have keep : ∀ c k, k.ofShares = true → st'.pools c k = st.pools c k := fun c k share =>
    h.pools c k (fun d same => by rw [same] at share; cases share)
  refine ⟨fun c k => ?_, fun c p => ?_, fun c p => ?_⟩
  · cases k with
    | manualRewardsCheckpoint d =>
      rcases h.checkpoints c d with same | moved
      · rw [same]; exact inv.bounded c _
      · rw [moved]; exact inv.bounded c _
    | _ => rw [h.pools c _ (by simp)]; exact inv.bounded c _
  · rw [keep c (.sharesSupply p) rfl, Finset.sum_congr rfl (fun d _ => keep c (.shares p d) rfl)]
    exact inv.supply c p
  · rw [keep c (.sharesTotalStaked p) rfl, keep c (.sharesSupply p) rfl]
    exact inv.price c p

variable [LinearOrder α]

theorem setPool {c : α} {k : PoolsKey α} {v : Nat} (inv : PoolInvariant cfg st) (other : k.ofShares = false)
    (fits : v < balanceBound) : PoolInvariant cfg (st.setPool c k v) := by
  obtain ⟨bounded, supply, price⟩ := inv
  have keep : ∀ c' k', k'.ofShares = true → (st.setPool c k v).pools c' k' = st.pools c' k' := by
    intro c' k' share
    have : ¬ (c' = c ∧ k' = k) := by rintro ⟨-, rfl⟩; simp_all
    simp [this]
  refine ⟨fun c' k' => ?_, fun c' p => ?_, fun c' p => ?_⟩
  · simp only [State.setPoolPools]
    split
    · exact fits
    · exact bounded c' k'
  · rw [keep c' (.sharesSupply p) rfl, Finset.sum_congr rfl (fun d _ => keep c' (.shares p d) rfl)]
    exact supply c' p
  · rw [keep c' (.sharesTotalStaked p) rfl, keep c' (.sharesSupply p) rfl]
    exact price c' p

theorem ofShareWrite {pool : AllTargetPool} {candidate delegator : α} {supply shares total : Nat}
    (inv : PoolInvariant cfg st)
    (fits : supply < balanceBound ∧ shares < balanceBound ∧ total < balanceBound)
    (moved : supply + st.pools candidate (.shares pool delegator) = st.pools candidate (.sharesSupply pool) + shares)
    (priced : total = Pool.initialShareValue cfg pool * supply) :
    PoolInvariant cfg (((st.setPool candidate (.sharesSupply pool) supply).setPool candidate
      (.shares pool delegator) shares).setPool candidate (.sharesTotalStaked pool) total) := by
  obtain ⟨bounded, sums, price⟩ := inv
  refine ⟨fun c k => ?_, fun c p => ?_, fun c p => ?_⟩
  · simp only [State.setPoolPools]
    split_ifs
    · exact fits.2.2
    · exact fits.2.1
    · exact fits.1
    · exact bounded c k
  · have total := sumSharesSetOther ((st.setPool candidate (.sharesSupply pool) supply).setPool candidate
      (.shares pool delegator) shares) candidate c (.sharesTotalStaked pool) total p (by simp)
    have written := sumSharesSetShares (st.setPool candidate (.sharesSupply pool) supply) candidate c pool p
      delegator shares
    have first := sumSharesSetOther st candidate c (.sharesSupply pool) supply p (by simp)
    have before := sums c p
    simp only [State.setPoolPools, PoolsKey.sharesSupply.injEq, reduceCtorEq, and_false, if_false] at written ⊢
    by_cases here : c = candidate ∧ p = pool
    · obtain ⟨rfl, rfl⟩ := here
      simp only [and_self, if_true] at written ⊢
      omega
    · simp only [if_neg here] at written ⊢
      omega
  · by_cases here : c = candidate ∧ p = pool
    · obtain ⟨rfl, rfl⟩ := here
      simpa using priced
    · simp only [State.setPoolPools, PoolsKey.sharesTotalStaked.injEq, PoolsKey.sharesSupply.injEq, reduceCtorEq,
        and_false, if_false, if_neg here]
      exact price c p

theorem addShares {pool : AllTargetPool} {candidate delegator : α} {shares stake : Nat}
    (inv : PoolInvariant cfg st) (h : Pool.addShares cfg pool candidate delegator shares st = .ok (stake, st')) :
    PoolInvariant cfg st' := by
  obtain ⟨-, converted, supplyFits, sharesFit, totalFits, rfl⟩ := Pool.addSharesOk h
  have value := inv.stakeOfShares converted
  simp only [Pool.sharesSupply, Pool.shares, Pool.totalStaked] at supplyFits sharesFit totalFits ⊢
  refine inv.ofShareWrite ⟨supplyFits, sharesFit, totalFits⟩ (by omega) ?_
  rw [inv.price, value]
  ring

theorem subShares {pool : AllTargetPool} {candidate delegator : α} {shares stake : Nat}
    (inv : PoolInvariant cfg st) (h : Pool.subShares pool candidate delegator shares st = .ok (stake, st')) :
    PoolInvariant cfg st' := by
  obtain ⟨-, converted, supplyLe, sharesLe, totalLe, rfl⟩ := Pool.subSharesOk h
  have value := inv.stakeOfSharesSub converted
  simp only [Pool.sharesSupply, Pool.shares, Pool.totalStaked] at supplyLe sharesLe totalLe ⊢
  have fits : ∀ k, st.pools candidate k < balanceBound := inv.bounded candidate
  refine inv.ofShareWrite ⟨by have := fits (.sharesSupply pool); omega, by have := fits (.shares pool delegator); omega,
    by have := fits (.sharesTotalStaked pool); omega⟩ (by omega) ?_
  rw [inv.price, value, Nat.mul_sub, Nat.mul_comm shares]

theorem increaseHold {pool : AllTargetPool} {candidate delegator : α} {stake : Nat}
    (inv : PoolInvariant cfg st) (h : Pool.increaseHold pool candidate delegator stake st = .ok st') :
    PoolInvariant cfg st' := by
  obtain ⟨fits, rfl⟩ := Pool.increaseHoldOk h
  exact inv.setPool rfl fits

theorem decreaseHold {pool : AllTargetPool} {candidate delegator : α} {stake : Nat}
    (inv : PoolInvariant cfg st) (h : Pool.decreaseHold pool candidate delegator stake st = .ok st') :
    PoolInvariant cfg st' := by
  obtain ⟨-, rfl⟩ := Pool.decreaseHoldOk h
  exact inv.setPool rfl (Nat.lt_of_le_of_lt (Nat.sub_le _ _) (inv.bounded _ _))

theorem ofTotalWrite {candidate : α} {total : Nat} {list : List (Entry α)} (inv : PoolInvariant cfg st)
    (fits : total < balanceBound) :
    PoolInvariant cfg ((st.setPool candidate .candidateTotalStake total).setSorted list) := by
  have written : PoolInvariant cfg (st.setPool candidate .candidateTotalStake total) := inv.setPool rfl fits
  exact written.ofPools (State.setSortedPools _ _)

theorem addTotalStake {env : Env α ι} {candidate : α} {stake : Nat} (inv : PoolInvariant cfg st)
    (h : Candidates.addTotalStake cfg env candidate stake st = .ok st') : PoolInvariant cfg st' := by
  obtain ⟨fits, written⟩ := Candidates.addTotalStakeFrame h
  rw [written]
  refine inv.ofTotalWrite ?_
  rcases fits with zero | fits
  · rw [zero, Nat.add_zero]
    exact inv.bounded _ _
  · exact fits

theorem subTotalStake {env : Env α ι} {candidate : α} {stake : Nat} (inv : PoolInvariant cfg st)
    (h : Candidates.subTotalStake cfg env candidate stake st = .ok st') : PoolInvariant cfg st' := by
  obtain ⟨-, written⟩ := Candidates.subTotalStakeFrame h
  rw [written]
  exact inv.ofTotalWrite (Nat.lt_of_le_of_lt (Nat.sub_le _ _) (inv.bounded _ _))

/- Each call keeps the invariant, as each of its writes does. -/

section Calls
variable {env : Env α ι}

theorem rebalanceHold {candidate delegator : α} {pool : AllTargetPool} (inv : PoolInvariant cfg st)
    (h : Calls.rebalanceHold cfg candidate delegator pool st = .ok st') : PoolInvariant cfg st' := by
  obtain ⟨stake, currency, converted, rfl, -⟩ := Calls.rebalanceHoldOk h
  have written : PoolInvariant cfg (st.setPool candidate (.sharesHeldStake pool delegator) stake) :=
    inv.setPool rfl (Pool.sharesToStakeOk converted).2.2
  exact written.ofPools (State.setCurrencyPools _ _)

theorem executeJoining {candidate delegator : α} {pool : TargetPool} {joiningShares : Nat}
    (inv : PoolInvariant cfg st) (h : Calls.executeJoining cfg env candidate delegator pool joiningShares st = .ok st') :
    PoolInvariant cfg st' := by
  obtain ⟨stake, subtracted, released, claimed, shares, hsub, hreleased, hclaimed, -, rest, -⟩ :=
    Calls.executeJoiningOk h
  have claimedInv := ((inv.subShares hsub).decreaseHold hreleased).ofClaim (Calls.claimIfManualOk hclaimed)
  rcases rest with ⟨-, currency, -, final⟩ | ⟨-, actuallyStaked, added, held, currency, hadded, hheld, -, -, final⟩
  · exact (claimedInv.ofPools (State.setCurrencyPools _ _)).subTotalStake final
  · have heldInv := (claimedInv.addShares hadded).increaseHold hheld
    exact (heldInv.ofPools (State.setCurrencyPools _ _)).subTotalStake final

theorem executeLeaving {candidate delegator : α} {leavingShares : Nat} (inv : PoolInvariant cfg st)
    (h : Calls.executeLeaving cfg candidate delegator leavingShares st = .ok st') : PoolInvariant cfg st' := by
  obtain ⟨stake, subtracted, released, currency, hsub, hreleased, -, rfl⟩ := Calls.executeLeavingOk h
  exact ((inv.subShares hsub).decreaseHold hreleased).ofPools (State.setCurrencyPools _ _)

theorem updateCandidatePosition {candidates : List α} (inv : PoolInvariant cfg st)
    (h : Calls.updateCandidatePosition cfg env candidates st = .ok st') : PoolInvariant cfg st' := by
  refine Calls.updateCandidatePositionInduct (PoolInvariant cfg) (fun candidate st st' inv updated => ?_) inv h
  rw [Candidates.updateTotalStakeFrame updated, Candidates.totalStake, State.setPoolSame]
  exact inv.ofPools (State.setSortedPools _ _)

variable [DecidableEq ι]

theorem requestDelegate {candidate delegator : α} {pool : TargetPool} {amount : Nat} (inv : PoolInvariant cfg st)
    (h : Calls.requestDelegate cfg env candidate delegator pool amount st = .ok st') : PoolInvariant cfg st' := by
  obtain ⟨shares, stake, added, currency, held, updated, hadded, -, hheld, hupdated, -, rfl, -⟩ :=
    Calls.requestDelegateOk h
  have heldInv := ((inv.addShares hadded).ofPools (State.setCurrencyPools _ _)).increaseHold hheld
  exact (heldInv.addTotalStake hupdated).ofPools (State.setPendingPools _ _ _ _)

theorem requestUndelegate {candidate delegator : α} {pool : TargetPool} {amount : SharesOrStake}
    (inv : PoolInvariant cfg st) (h : Calls.requestUndelegate cfg env candidate delegator pool amount st = .ok st') :
    PoolInvariant cfg st' := by
  obtain ⟨shares, claimed, rebalanced, removed, subtracted, released, updated, leavingShares, leavingStake, added,
    held, queued, hclaimed, hrebalanced, hsub, hreleased, hupdated, hadded, hheld, -, hqueued, -, final, -⟩ :=
    Calls.requestUndelegateOk h
  have claimedInv := inv.ofClaim (Calls.claimIfManualOk hclaimed)
  have rebalancedInv : PoolInvariant cfg rebalanced := by
    rcases hrebalanced with rfl | hrebalanced
    · exact claimedInv
    · exact rebalanceHold claimedInv hrebalanced
  have heldInv := ((((rebalancedInv.subShares hsub).decreaseHold hreleased).subTotalStake hupdated).addShares
    hadded).increaseHold hheld
  have queuedInv : PoolInvariant cfg queued := by
    rw [hqueued]
    exact heldInv.ofPools (State.setPendingPools _ _ _ _)
  rcases final with ⟨-, rfl⟩ | ⟨-, currency, -, rfl⟩
  · exact queuedInv
  · exact queuedInv.ofPools (State.setCurrencyPools _ _)

theorem executePendingOperations {index : Nat} {queries : List (PendingOperationQuery α ι)}
    (inv : PoolInvariant cfg st) (h : Calls.executePendingOperations cfg env index queries st = .ok st') :
    PoolInvariant cfg st' := by
  refine Calls.executePendingOperationsInduct (PoolInvariant cfg) (fun index delegator operation st st' inv _ executed => ?_) inv h
  refine PoolInvariant.ofPools (State.setPendingPools _ _ _ _) ?_
  rcases Calls.executeOperationOk executed with ⟨_, _, _, -, joined⟩ | ⟨_, _, -, left⟩
  · exact executeJoining inv joined
  · exact executeLeaving inv left

end Calls

theorem dispatch [DecidableEq ι] {env : Env α ι} {origin : RawOrigin α} {call : Call α ι} (inv : PoolInvariant cfg st)
    (h : PooledStaking.dispatch cfg env origin call st = .ok st') : PoolInvariant cfg st' := by
  unfold PooledStaking.dispatch at h
  split at h
  · cases h
  · cases call with
    | rebalanceHold => exact inv.rebalanceHold h
    | requestDelegate => exact inv.requestDelegate h
    | executePendingOperations => exact inv.executePendingOperations h
    | requestUndelegate => exact inv.requestUndelegate h
    | claimManualRewards => exact inv.ofClaim (Calls.claimManualRewardsOk h)
    | updateCandidatePosition => exact inv.updateCandidatePosition h

theorem reachable [DecidableEq ι] (reach : Reachable cfg st) : PoolInvariant cfg st := by
  induction reach with
  | empty => exact empty _
  | call env origin call _ dispatched inv => exact inv.dispatch dispatched

end PoolInvariant

theorem reachableBookkeeping [LinearOrder α] [DecidableEq ι] {cfg : Config α σ} {st : State α ι σ}
    (reach : Reachable cfg st) (c : α) :
    st.pools c .candidateTotalStake = Pool.totalStaked .joining c st + Pool.totalStaked .autoCompounding c st +
        Pool.totalStaked .manualRewards c st ∧
      (∀ pool, Pool.sharesSupply pool c st = ∑ d, Pool.shares pool c d st) ∧
      checkCandidateConsistency c st = .ok () := by
  have totals := TotalsMatch.reachable reach c
  have inv := PoolInvariant.reachable reach
  have fits : stakedTotal c st < balanceBound := totals ▸ inv.bounded c .candidateTotalStake
  exact ⟨totals, inv.supply c, checkCandidateConsistencyOk.2 ⟨totals, fits⟩⟩

theorem reachableBookkeepingAfterDelegation :
    ∃ st : State (Fin 2) Unit (Fin 2 → Account),
      dispatch sampleConfig sampleEnv (.signed 1) (.requestDelegate 1 .autoCompounding 3) (State.empty sampleAccounts) =
        .ok st ∧ st.pools 1 .candidateTotalStake = 3 ∧
      (st.pools 1 .candidateTotalStake = Pool.totalStaked .joining 1 st + Pool.totalStaked .autoCompounding 1 st +
          Pool.totalStaked .manualRewards 1 st ∧
        (∀ pool, Pool.sharesSupply pool 1 st = ∑ d, Pool.shares pool 1 d st) ∧
        checkCandidateConsistency 1 st = .ok ()) := by
  obtain ⟨st, delegated, reach, total, -⟩ := sampleDelegation
  exact ⟨st, delegated, total, reachableBookkeeping reach 1⟩

end Tanssi.PooledStaking
