import Tanssi.PooledStaking.Steps
import Tanssi.PooledStaking.Balances

/-! Manual rewards are paid lazily. A candidate's counter rises outside the pallet; a
delegator is owed the rise since their checkpoint times their shares, and `claim_rewards`
pays that and moves the checkpoint up to the counter. Every call that changes a
delegator's manual rewards shares claims first, so what the `ClaimedManualRewards` events
have paid, plus what `pending_rewards` still gives, is exactly what each rise of the
counter earned at the shares held at that rise. -/
namespace Tanssi.PooledStaking
open Frame

variable {α ι σ : Type}

def PoolsKey.ofManualRewards : PoolsKey α → Bool
  | .manualRewardsCounter | .manualRewardsCheckpoint _ | .shares .manualRewards _ => true
  | _ => false

def owedManualRewards (candidate delegator : α) (st : State α ι σ) : Nat :=
  (st.pools candidate .manualRewardsCounter - st.pools candidate (.manualRewardsCheckpoint delegator)) *
    Pool.shares .manualRewards candidate delegator st

def Settled (candidate delegator : α) (st : State α ι σ) : Prop :=
  st.pools candidate (.manualRewardsCheckpoint delegator) = st.pools candidate .manualRewardsCounter

section Ledger
variable [DecidableEq α]

def Event.paid (candidate delegator : α) : Event α → Nat
  | .claimedManualRewards c d rewards => if c = candidate ∧ d = delegator then rewards else 0

def claimedManualRewards (candidate delegator : α) (events : List (Event α)) : Nat :=
  (events.map (Event.paid candidate delegator)).sum

@[simp] theorem claimedManualRewardsAppend (candidate delegator : α) (events : List (Event α)) (event : Event α) :
    claimedManualRewards candidate delegator (events ++ [event]) =
      claimedManualRewards candidate delegator events + event.paid candidate delegator := by
  simp [claimedManualRewards]

def rewardCandidate (candidate : α) (r : Nat) (st : State α ι σ) : State α ι σ :=
  st.setPool candidate .manualRewardsCounter (st.pools candidate .manualRewardsCounter + r)

/-- `earned c d` is what `d` has earned in `c`'s manual rewards pool: all of it is either
paid, as events record, or owed. -/
structure RewardsLedger (st : State α ι σ) (earned : α → α → Nat) : Prop where
  belowCounter : ∀ c d, st.pools c (.manualRewardsCheckpoint d) ≤ st.pools c .manualRewardsCounter
  exact : ∀ c d, claimedManualRewards c d st.events + owedManualRewards c d st = earned c d

namespace RewardsLedger
variable {st st' : State α ι σ} {earned : α → α → Nat} {candidate delegator : α}

theorem ofSame (inv : RewardsLedger st earned) (keep : ∀ c k, k.ofManualRewards → st'.pools c k = st.pools c k)
    (events : st'.events = st.events) : RewardsLedger st' earned := by
  have counter (c : α) : st'.pools c .manualRewardsCounter = st.pools c .manualRewardsCounter := keep c _ rfl
  have checkpoint (c d : α) : st'.pools c (.manualRewardsCheckpoint d) = st.pools c (.manualRewardsCheckpoint d) :=
    keep c _ rfl
  have shares (c d : α) : Pool.shares .manualRewards c d st' = Pool.shares .manualRewards c d st := keep c _ rfl
  refine ⟨fun c d => ?_, fun c d => ?_⟩
  · rw [counter, checkpoint]
    exact inv.belowCounter c d
  · rw [owedManualRewards, counter, checkpoint, shares, events]
    exact inv.exact c d

theorem ofPools (inv : RewardsLedger st earned) (pools : st'.pools = st.pools) (events : st'.events = st.events) :
    RewardsLedger st' earned :=
  inv.ofSame (fun c k _ => by rw [pools]) events

theorem empty (currency : σ) : RewardsLedger (State.empty currency : State α ι σ) fun _ _ => 0 :=
  ⟨fun _ _ => le_refl _, fun _ _ => by simp [State.empty, claimedManualRewards, owedManualRewards]⟩

theorem setPool {k : PoolsKey α} {v : Nat} (inv : RewardsLedger st earned) (other : k.ofManualRewards = false) :
    RewardsLedger (st.setPool candidate k v) earned := by
  refine inv.ofSame (fun c k' ofManual => ?_) rfl
  have differ : k' ≠ k := by rintro rfl; rw [other] at ofManual; cases ofManual
  simp [differ]

theorem setShares {v : Nat} (inv : RewardsLedger st earned) (settled : Settled candidate delegator st) :
    RewardsLedger (st.setPool candidate (.shares .manualRewards delegator) v) earned := by
  refine ⟨fun c d => by simpa using inv.belowCounter c d, fun c d => ?_⟩
  by_cases here : c = candidate ∧ d = delegator
  · obtain ⟨rfl, rfl⟩ := here
    have nothingOwed : ∀ s, (st.pools c .manualRewardsCounter - st.pools c (.manualRewardsCheckpoint d)) * s = 0 := by
      intro s
      rw [settled, Nat.sub_self, Nat.zero_mul]
    simpa [owedManualRewards, nothingOwed] using inv.exact c d
  · simpa [owedManualRewards, here] using inv.exact c d

theorem sharesWrite {p : AllTargetPool} {v : Nat} (inv : RewardsLedger st earned)
    (settled : p = .manualRewards → Settled candidate delegator st) :
    RewardsLedger (st.setPool candidate (.shares p delegator) v) earned := by
  cases p
  case manualRewards => exact inv.setShares (settled rfl)
  all_goals exact inv.setPool rfl

theorem reward {r : Nat} (inv : RewardsLedger st earned) :
    RewardsLedger (rewardCandidate candidate r st)
      fun c d => earned c d + if c = candidate then r * Pool.shares .manualRewards c d st else 0 := by
  refine ⟨fun c d => ?_, fun c d => ?_⟩
  · have below := inv.belowCounter c d
    by_cases here : c = candidate
    · subst here
      simp only [rewardCandidate, State.setPoolPools, true_and, reduceCtorEq, if_false, if_true]
      omega
    · simpa [rewardCandidate, here] using below
  · have before := inv.exact c d
    by_cases here : c = candidate
    · subst here
      have rise : st.pools c .manualRewardsCounter + r - st.pools c (.manualRewardsCheckpoint d) =
          st.pools c .manualRewardsCounter - st.pools c (.manualRewardsCheckpoint d) + r := by
        have := inv.belowCounter c d
        omega
      simp only [rewardCandidate, owedManualRewards, Pool.shares, State.setPoolPools, true_and, reduceCtorEq,
        if_false, if_true, State.setPoolEvents, rise, Nat.add_mul] at before ⊢
      omega
    · simpa [rewardCandidate, owedManualRewards, here] using before

theorem claimRewards {rewards : Nat} {st₁ : State α ι σ} (inv : RewardsLedger st earned)
    (h : PooledStaking.claimRewards candidate delegator st = .ok (rewards, st₁)) (pools : st'.pools = st₁.pools)
    (events : st'.events = st₁.events ++ if rewards = 0 then [] else [.claimedManualRewards candidate delegator rewards]) :
    RewardsLedger st' earned := by
  obtain ⟨le, rfl, rfl⟩ := claimRewardsPaid h
  have paid : ∀ c d, claimedManualRewards c d st'.events = claimedManualRewards c d st.events +
      if c = candidate ∧ d = delegator then owedManualRewards candidate delegator st else 0 := by
    intro c d
    rw [events, State.setPoolEvents]
    split
    · rename_i nothing
      rw [owedManualRewards, nothing]
      simp
    · simp [Event.paid, owedManualRewards, eq_comm]
  refine ⟨fun c d => ?_, fun c d => ?_⟩
  · rw [pools]
    by_cases here : c = candidate ∧ d = delegator
    · obtain ⟨rfl, rfl⟩ := here
      simp
    · simpa [here] using inv.belowCounter c d
  · have before := inv.exact c d
    by_cases here : c = candidate ∧ d = delegator
    · obtain ⟨rfl, rfl⟩ := here
      simp only [paid, and_self, if_true, owedManualRewards, pools, State.setPoolPools, Pool.shares, true_and,
        reduceCtorEq, if_false, Nat.sub_self, Nat.zero_mul, Nat.add_zero] at before ⊢
      exact before
    · simp only [paid, if_neg here, Nat.add_zero]
      simpa [owedManualRewards, pools, here] using before

/- The pool methods. Only a write of manual rewards shares needs the pair settled. -/

theorem addShares {cfg : Config α σ} {p : AllTargetPool} {shares stake : Nat} (inv : RewardsLedger st earned)
    (settled : p = .manualRewards → Settled candidate delegator st)
    (h : Pool.addShares cfg p candidate delegator shares st = .ok (stake, st')) : RewardsLedger st' earned := by
  obtain ⟨-, -, -, -, -, rfl⟩ := Pool.addSharesOk h
  refine (RewardsLedger.sharesWrite (inv.setPool ?_) fun manual => ?_).setPool ?_
  · rfl
  · simpa [Settled] using settled manual
  · rfl

theorem subShares {p : AllTargetPool} {shares stake : Nat} (inv : RewardsLedger st earned)
    (settled : p = .manualRewards → Settled candidate delegator st)
    (h : Pool.subShares p candidate delegator shares st = .ok (stake, st')) : RewardsLedger st' earned := by
  obtain ⟨-, -, -, -, -, rfl⟩ := Pool.subSharesOk h
  refine (RewardsLedger.sharesWrite (inv.setPool ?_) fun manual => ?_).setPool ?_
  · rfl
  · simpa [Settled] using settled manual
  · rfl

theorem increaseHold {p : AllTargetPool} {stake : Nat} (inv : RewardsLedger st earned)
    (h : Pool.increaseHold p candidate delegator stake st = .ok st') : RewardsLedger st' earned := by
  obtain ⟨-, rfl⟩ := Pool.increaseHoldOk h
  exact inv.setPool rfl

theorem decreaseHold {p : AllTargetPool} {stake : Nat} (inv : RewardsLedger st earned)
    (h : Pool.decreaseHold p candidate delegator stake st = .ok st') : RewardsLedger st' earned := by
  obtain ⟨-, rfl⟩ := Pool.decreaseHoldOk h
  exact inv.setPool rfl

end RewardsLedger

end Ledger

section Calls
variable [LinearOrder α] {cfg : Config α σ} {env : Env α ι} {st st' : State α ι σ} {earned : α → α → Nat}
  {candidate delegator : α}

theorem Settled.ofClaim (h : Calls.claimManualRewards cfg [(candidate, delegator)] st = .ok st') :
    Settled candidate delegator st' := by
  simp only [Calls.claimManualRewards, bindEqOk] at h
  obtain ⟨⟨rewards, claimed⟩, hclaim, rest⟩ := h
  obtain ⟨-, -, rfl⟩ := claimRewardsPaid hclaim
  split at rest
  · rw [← pureEqOk.1 rest]
    simp [Settled]
  · simp only [bindEqOk, liftCurrencyOk] at rest
    obtain ⟨currency, -, rest⟩ := rest
    rw [← pureEqOk.1 rest]
    simp [Settled]

theorem Settled.ofClaimIfManual {pool : TargetPool}
    (h : (if pool = .manualRewards then Calls.claimManualRewards cfg [(candidate, delegator)] st else pure st) = .ok st') :
    pool.toAll = .manualRewards → Settled candidate delegator st' := by
  intro manual
  cases pool
  · cases manual
  · exact Settled.ofClaim (by simpa using h)

namespace RewardsLedger

theorem claimManualRewards {pairs : List (α × α)} (inv : RewardsLedger st earned)
    (h : Calls.claimManualRewards cfg pairs st = .ok st') : RewardsLedger st' earned := by
  induction pairs generalizing st with
  | nil => rwa [← pureEqOk.1 h]
  | cons pair pairs ih =>
    obtain ⟨candidate, delegator⟩ := pair
    simp only [Calls.claimManualRewards, bindEqOk] at h
    obtain ⟨⟨rewards, claimed⟩, hclaim, rest⟩ := h
    split at rest
    · rename_i nothing
      have next : RewardsLedger claimed earned := inv.claimRewards hclaim rfl (by simp only at nothing; simp [nothing])
      exact ih next rest
    · rename_i something
      simp only [bindEqOk, liftCurrencyOk] at rest
      obtain ⟨currency, -, rest⟩ := rest
      have next : RewardsLedger ((claimed.setCurrency currency).depositEvent
          (.claimedManualRewards candidate delegator rewards)) earned :=
        inv.claimRewards hclaim rfl (by simp only at something; simp [something])
      exact ih next rest

theorem claimIfManual {pool : TargetPool} (inv : RewardsLedger st earned)
    (h : (if pool = .manualRewards then Calls.claimManualRewards cfg [(candidate, delegator)] st else pure st) = .ok st') :
    RewardsLedger st' earned := by
  split at h
  · exact inv.claimManualRewards h
  · rwa [← pureEqOk.1 h]

theorem setCurrency {currency : σ} (inv : RewardsLedger st earned) : RewardsLedger (st.setCurrency currency) earned :=
  inv.ofPools rfl rfl

theorem totalWrite {stake : Nat} {list : List (Entry α)} (inv : RewardsLedger st earned) :
    RewardsLedger ((st.setPool candidate .candidateTotalStake stake).setSorted list) earned :=
  (inv.setPool rfl).ofPools (State.setSortedPools _ _) (State.setSortedEvents _ _)

theorem addTotalStake {stake : Nat} (inv : RewardsLedger st earned)
    (h : Candidates.addTotalStake cfg env candidate stake st = .ok st') : RewardsLedger st' earned := by
  rw [(Candidates.addTotalStakeFrame h).2]
  exact inv.totalWrite

theorem subTotalStake {stake : Nat} (inv : RewardsLedger st earned)
    (h : Candidates.subTotalStake cfg env candidate stake st = .ok st') : RewardsLedger st' earned := by
  rw [(Candidates.subTotalStakeFrame h).2]
  exact inv.totalWrite

theorem rebalanceHold {pool : AllTargetPool} (inv : RewardsLedger st earned)
    (h : Calls.rebalanceHold cfg candidate delegator pool st = .ok st') : RewardsLedger st' earned := by
  obtain ⟨stake, currency, -, rfl, -⟩ := Calls.rebalanceHoldOk h
  exact (inv.setPool rfl).setCurrency

theorem executeJoining {pool : TargetPool} {joiningShares : Nat} (inv : RewardsLedger st earned)
    (h : Calls.executeJoining cfg env candidate delegator pool joiningShares st = .ok st') : RewardsLedger st' earned := by
  obtain ⟨stake, subtracted, released, claimed, shares, hsub, hreleased, hclaimed, -, rest, -⟩ :=
    Calls.executeJoiningOk h
  have claimedInv := ((inv.subShares (by rintro ⟨⟩) hsub).decreaseHold hreleased).claimIfManual
    hclaimed
  rcases rest with ⟨-, currency, -, final⟩ | ⟨-, actuallyStaked, added, held, currency, hadded, hheld, -, -, final⟩
  · exact claimedInv.setCurrency.subTotalStake final
  · have heldInv := (claimedInv.addShares (Settled.ofClaimIfManual hclaimed) hadded).increaseHold hheld
    exact heldInv.setCurrency.subTotalStake final

theorem executeLeaving {leavingShares : Nat} (inv : RewardsLedger st earned)
    (h : Calls.executeLeaving cfg candidate delegator leavingShares st = .ok st') : RewardsLedger st' earned := by
  obtain ⟨stake, subtracted, released, currency, hsub, hreleased, -, rfl⟩ := Calls.executeLeavingOk h
  exact ((inv.subShares (by rintro ⟨⟩) hsub).decreaseHold hreleased).setCurrency

theorem updateCandidatePosition {candidates : List α} (inv : RewardsLedger st earned)
    (h : Calls.updateCandidatePosition cfg env candidates st = .ok st') : RewardsLedger st' earned := by
  refine Calls.updateCandidatePositionInduct (RewardsLedger · earned) (fun candidate st st' inv updated => ?_) inv h
  rw [Candidates.updateTotalStakeFrame updated]
  exact inv.totalWrite

variable [DecidableEq ι]

theorem requestDelegate {pool : TargetPool} {amount : Nat} (inv : RewardsLedger st earned)
    (h : Calls.requestDelegate cfg env candidate delegator pool amount st = .ok st') : RewardsLedger st' earned := by
  obtain ⟨shares, stake, added, currency, held, updated, hadded, -, hheld, hupdated, -, rfl, -⟩ :=
    Calls.requestDelegateOk h
  have heldInv := (inv.addShares (by rintro ⟨⟩) hadded).setCurrency.increaseHold hheld
  exact (heldInv.addTotalStake hupdated).ofPools (State.setPendingPools _ _ _ _) (State.setPendingEvents _ _ _ _)

theorem requestUndelegate {pool : TargetPool} {amount : SharesOrStake} (inv : RewardsLedger st earned)
    (h : Calls.requestUndelegate cfg env candidate delegator pool amount st = .ok st') : RewardsLedger st' earned := by
  obtain ⟨shares, claimed, rebalanced, removed, subtracted, released, updated, leavingShares, leavingStake, added,
    held, queued, hclaimed, hrebalanced, hsub, hreleased, hupdated, hadded, hheld, -, hqueued, -, final, -⟩ :=
    Calls.requestUndelegateOk h
  have settled := Settled.ofClaimIfManual hclaimed
  have rebalancedInv : RewardsLedger rebalanced earned ∧
      (pool.toAll = .manualRewards → Settled candidate delegator rebalanced) := by
    rcases hrebalanced with rfl | hrebalanced
    · exact ⟨inv.claimIfManual hclaimed, settled⟩
    · refine ⟨(inv.claimIfManual hclaimed).rebalanceHold hrebalanced, fun manual => ?_⟩
      obtain ⟨_, _, -, rfl, -⟩ := Calls.rebalanceHoldOk hrebalanced
      simpa [Settled] using settled manual
  have releasedInv := ((rebalancedInv.1.subShares rebalancedInv.2 hsub).decreaseHold hreleased).subTotalStake
    hupdated
  have queuedInv : RewardsLedger queued earned := by
    rw [hqueued]
    exact ((releasedInv.addShares (by rintro ⟨⟩) hadded).increaseHold hheld).ofPools
      (State.setPendingPools _ _ _ _) (State.setPendingEvents _ _ _ _)
  rcases final with ⟨-, rfl⟩ | ⟨-, currency, -, rfl⟩
  · exact queuedInv
  · exact queuedInv.setCurrency

theorem executeOperation {index value : Nat} {operation : PendingOperationKey α ι} (inv : RewardsLedger st earned)
    (h : Calls.executeOperation cfg env index delegator value operation st = .ok st') :
    RewardsLedger (st'.setPending delegator operation 0) earned := by
  refine RewardsLedger.ofPools ?_ (State.setPendingPools _ _ _ _) (State.setPendingEvents _ _ _ _)
  rcases Calls.executeOperationOk h with ⟨_, _, _, -, joined⟩ | ⟨_, _, -, left⟩
  · exact inv.executeJoining joined
  · exact inv.executeLeaving left

theorem executePendingOperations {index : Nat} {queries : List (PendingOperationQuery α ι)}
    (inv : RewardsLedger st earned) (h : Calls.executePendingOperations cfg env index queries st = .ok st') :
    RewardsLedger st' earned :=
  Calls.executePendingOperationsInduct (RewardsLedger · earned)
    (fun _ _ _ _ _ inv _ executed => inv.executeOperation executed) inv h

theorem dispatch {origin : RawOrigin α} {call : Call α ι} (inv : RewardsLedger st earned)
    (h : PooledStaking.dispatch cfg env origin call st = .ok st') : RewardsLedger st' earned := by
  unfold PooledStaking.dispatch at h
  split at h
  · cases h
  · cases call with
    | rebalanceHold => exact inv.rebalanceHold h
    | requestDelegate => exact inv.requestDelegate h
    | executePendingOperations => exact inv.executePendingOperations h
    | requestUndelegate => exact inv.requestUndelegate h
    | claimManualRewards => exact inv.claimManualRewards h
    | updateCandidatePosition => exact inv.updateCandidatePosition h

end RewardsLedger

variable [DecidableEq ι]

/-- Runs from empty storage that interleave successful calls with rises of the counters,
none of which overflows its counter, and what they earned: a rise of `c`'s counter by `r`
earns each `d` that many times their shares in `c`'s manual rewards pool at that moment.
A call that fails changes nothing and is left out. -/
inductive EarningRun (cfg : Config α σ) : State α ι σ → (α → α → Nat) → Prop where
  | empty (currency : σ) : EarningRun cfg (State.empty currency) fun _ _ => 0
  | call {st st' : State α ι σ} {earned : α → α → Nat} (env : Env α ι) (origin : RawOrigin α) (call : Call α ι) :
      EarningRun cfg st earned → PooledStaking.dispatch cfg env origin call st = .ok st' → EarningRun cfg st' earned
  | reward {st : State α ι σ} {earned : α → α → Nat} (candidate : α) (r : Nat) :
      EarningRun cfg st earned → st.pools candidate .manualRewardsCounter + r < balanceBound →
      EarningRun cfg (rewardCandidate candidate r st)
        fun c d => earned c d + if c = candidate then r * Pool.shares .manualRewards c d st else 0

theorem RewardsLedger.earningRun (run : EarningRun cfg st earned) : RewardsLedger st earned := by
  induction run with
  | empty currency => exact RewardsLedger.empty currency
  | call env origin call _ dispatched inv => exact inv.dispatch dispatched
  | reward candidate r _ _ inv => exact inv.reward

theorem manualRewardsAccountingExact (run : EarningRun cfg st earned) (candidate delegator : α) :
    ∃ pending, claimedManualRewards candidate delegator st.events + pending = earned candidate delegator ∧
      (pendingRewards candidate delegator st = .ok pending ∨
        balanceBound ≤ pending ∧ pendingRewards candidate delegator st = .error (.module .mathOverflow)) := by
  have inv := RewardsLedger.earningRun run
  refine ⟨owedManualRewards candidate delegator st, inv.exact candidate delegator, ?_⟩
  rw [pendingRewardsEq (inv.belowCounter candidate delegator), errMul]
  split
  · exact .inl rfl
  · rename_i overflow
    exact .inr ⟨Nat.le_of_not_lt overflow, rfl⟩

/- Account 1 delegates 4 to candidate 1 into the manual rewards pool, the request is
executed, the counter of 1 rises by 5, and 1 claims: the 20 the rise earned are paid. -/

theorem manualRewardsAccountingExactAfterClaim :
    ∃ (st : State (Fin 2) Unit (Fin 2 → Account)) (earned : Fin 2 → Fin 2 → Nat), EarningRun sampleConfig st earned ∧ earned 1 1 = 20 ∧ claimedManualRewards 1 1 st.events = 20 ∧
      ∃ pending, claimedManualRewards 1 1 st.events + pending = earned 1 1 ∧
        (pendingRewards 1 1 st = .ok pending ∨
          balanceBound ≤ pending ∧ pendingRewards 1 1 st = .error (.module .mathOverflow)) := by
  have ran : (dispatch sampleConfig sampleEnv (.signed 1) (.requestDelegate 1 .manualRewards 4)
      (State.empty sampleAccounts : State (Fin 2) Unit (Fin 2 → Account))).toOption.any (fun st₁ =>
    (dispatch sampleConfig sampleEnv (.signed 1) (.executePendingOperations [⟨1, .joiningManualRewards 1 ()⟩])
      st₁).toOption.any fun st₂ =>
      decide (st₂.pools 1 .manualRewardsCounter + 5 < balanceBound ∧ Pool.shares .manualRewards 1 1 st₂ = 4) &&
        (dispatch sampleConfig sampleEnv (.signed 1) (.claimManualRewards [(1, 1)])
          (rewardCandidate 1 5 st₂)).toOption.any fun st₃ => decide (claimedManualRewards 1 1 st₃.events = 20)) = true := by
    decide +kernel
  obtain ⟨st₁, delegated, ran⟩ := toOptionAny.1 ran
  obtain ⟨st₂, executed, ran⟩ := toOptionAny.1 ran
  simp only [Bool.and_eq_true, decide_eq_true_eq] at ran
  obtain ⟨⟨fits, shares⟩, ran⟩ := ran
  obtain ⟨st₃, claimed, paid⟩ := toOptionAny.1 ran
  have run := EarningRun.call sampleEnv (.signed 1) _ (.reward 1 5 (.call sampleEnv (.signed 1) _
    (.call sampleEnv (.signed 1) _ (.empty sampleAccounts) delegated) executed) fits) claimed
  exact ⟨st₃, _, run, by simp at shares ⊢; omega, by simpa using paid, manualRewardsAccountingExact run 1 1⟩

end Calls

end Tanssi.PooledStaking
