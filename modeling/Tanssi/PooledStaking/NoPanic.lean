import Tanssi.PooledStaking.EligibleCandidates
import Tanssi.PooledStaking.Balances

/-! The `expect_err` of `update_total_stake` is the pallet's only panic. Every other step
of a call fails, if at all, with a module or a currency error; the insertion panics only
if the list already holds the entry inserted, which a valid list rules out, since the
candidate's old entry is found at its total and removed first. So no call from a
reachable state panics. Each call is taken step by step as the source writes it, with
`bindNeError` for each `?`, the state a step reached known to the steps after it. -/
namespace Tanssi.PooledStaking
open Frame

variable {α ι σ β : Type}

section Steps

theorem errAddNoPanic {a b : Nat} : errAdd a b ≠ .error .panic := by
  unfold errAdd; split <;> simp

theorem errSubNoPanic {a b : Nat} : errSub a b ≠ .error .panic := by
  unfold errSub; split <;> simp

theorem errMulNoPanic {a b : Nat} : errMul a b ≠ .error .panic := by
  unfold errMul; split <;> simp

theorem mulDivNoPanic {self a b : Nat} : mulDiv self a b ≠ .error .panic := by
  unfold mulDiv; split_ifs <;> simp

theorem ensureNoPanic {c : Prop} [Decidable c] {e : Error} : ensure c e ≠ .error .panic := by
  unfold ensure; split <;> simp

theorem okOrNoPanic {x : Option β} {e : Error} : okOr x e ≠ .error .panic := by
  unfold okOr; split <;> simp

theorem liftCurrencyNoPanic {x : Option σ} : liftCurrency x ≠ .error .panic := by
  unfold liftCurrency; split <;> simp

variable {cfg : Config α σ} {pool : AllTargetPool} {candidate delegator : α} {st : State α ι σ}

theorem Pool.sharesToStakeNoPanic {shares : Nat} : Pool.sharesToStake pool candidate shares st ≠ .error .panic := by
  unfold Pool.sharesToStake
  exact bindNeError ensureNoPanic fun _ _ => mulDivNoPanic

theorem Pool.sharesToStakeOrInitNoPanic {shares : Nat} :
    Pool.sharesToStakeOrInit cfg pool candidate shares st ≠ .error .panic := by
  unfold Pool.sharesToStakeOrInit
  split
  · exact errMulNoPanic
  · exact Pool.sharesToStakeNoPanic

theorem Pool.stakeToSharesNoPanic {stake : Nat} : Pool.stakeToShares pool candidate stake st ≠ .error .panic := by
  unfold Pool.stakeToShares
  exact bindNeError ensureNoPanic fun _ _ => mulDivNoPanic

theorem Pool.stakeToSharesOrInitNoPanic {stake : Nat} :
    Pool.stakeToSharesOrInit cfg pool candidate stake st ≠ .error .panic := by
  unfold Pool.stakeToSharesOrInit
  split_ifs
  · simp
  · exact pureNeError
  · exact Pool.stakeToSharesNoPanic

theorem checkCandidateConsistencyNoPanic : checkCandidateConsistency candidate st ≠ .error .panic := by
  unfold checkCandidateConsistency
  exact bindNeError okOrNoPanic fun _ _ => bindNeError okOrNoPanic fun _ _ => ensureNoPanic

theorem Candidates.selfStakeNoPanic : Candidates.selfStake pool candidate st ≠ .error .panic := by
  unfold Candidates.selfStake
  split
  · exact pureNeError
  · exact Pool.sharesToStakeNoPanic

variable [DecidableEq α]

theorem Pool.addSharesNoPanic {shares : Nat} : Pool.addShares cfg pool candidate delegator shares st ≠ .error .panic := by
  unfold Pool.addShares
  exact bindNeError ensureNoPanic fun _ _ => bindNeError Pool.sharesToStakeOrInitNoPanic fun _ _ =>
    bindNeError errAddNoPanic fun _ _ => bindNeError errAddNoPanic fun _ _ =>
      bindNeError errAddNoPanic fun _ _ => pureNeError

theorem Pool.subSharesNoPanic {shares : Nat} : Pool.subShares pool candidate delegator shares st ≠ .error .panic := by
  unfold Pool.subShares
  exact bindNeError ensureNoPanic fun _ _ => bindNeError Pool.sharesToStakeNoPanic fun _ _ =>
    bindNeError errSubNoPanic fun _ _ => bindNeError errSubNoPanic fun _ _ =>
      bindNeError errSubNoPanic fun _ _ => pureNeError

theorem Pool.increaseHoldNoPanic {stake : Nat} : Pool.increaseHold pool candidate delegator stake st ≠ .error .panic := by
  unfold Pool.increaseHold
  exact bindNeError errAddNoPanic fun _ _ => pureNeError

theorem Pool.decreaseHoldNoPanic {stake : Nat} : Pool.decreaseHold pool candidate delegator stake st ≠ .error .panic := by
  unfold Pool.decreaseHold
  exact bindNeError errSubNoPanic fun _ _ => pureNeError

theorem claimRewardsNoPanic : claimRewards candidate delegator st ≠ .error .panic := by
  unfold claimRewards
  refine bindNeError errSubNoPanic fun _ _ => ?_
  split
  · exact pureNeError
  · exact bindNeError errMulNoPanic fun _ _ => pureNeError

end Steps

section Calls
variable [LinearOrder α] {cfg : Config α σ} {env : Env α ι} {candidate delegator : α}
  {st : State α ι σ}

theorem Calls.rebalanceHoldNoPanic {pool : AllTargetPool} :
    Calls.rebalanceHold cfg candidate delegator pool st ≠ .error .panic := by
  unfold Calls.rebalanceHold
  refine bindNeError Pool.sharesToStakeNoPanic fun _ _ => ?_
  split_ifs
  · exact pureNeError
  · exact bindNeError liftCurrencyNoPanic fun _ _ => bindNeError liftCurrencyNoPanic fun _ _ => pureNeError
  · exact bindNeError liftCurrencyNoPanic fun _ _ => bindNeError liftCurrencyNoPanic fun _ _ => pureNeError
  · exact pureNeError

theorem Calls.claimManualRewardsNoPanic {pairs : List (α × α)} :
    Calls.claimManualRewards cfg pairs st ≠ .error .panic := by
  induction pairs generalizing st with
  | nil => exact pureNeError
  | cons pair pairs claimRest =>
    obtain ⟨candidate, delegator⟩ := pair
    rw [Calls.claimManualRewards]
    refine bindNeError claimRewardsNoPanic fun claimed _ => ?_
    obtain ⟨rewards, claimed⟩ := claimed
    dsimp only
    split_ifs
    · exact claimRest
    · exact bindNeError liftCurrencyNoPanic fun _ _ => claimRest

theorem Calls.claimIfManualNoPanic {pool : TargetPool} :
    (if pool = .manualRewards then Calls.claimManualRewards cfg [(candidate, delegator)] st else pure st) ≠
      .error .panic := by
  split
  · exact Calls.claimManualRewardsNoPanic
  · exact pureNeError

/- The list operations. With the candidate's old entry found and removed, the entry
inserted is new to the list. -/

variable {trusted : α → Prop}

theorem Candidates.updateTotalStakeNoPanic {newStake : Nat} (inv : EligibleListValid cfg st trusted) :
    Candidates.updateTotalStake cfg env candidate newStake st ≠ .error .panic := by
  obtain ⟨-, gone⟩ := inv.removed candidate
  unfold Candidates.updateTotalStake
  refine bindNeError Candidates.selfStakeNoPanic fun _ _ => bindNeError Candidates.selfStakeNoPanic fun _ _ =>
    bindNeError Candidates.selfStakeNoPanic fun _ _ => ?_
  refine bindNeError errAddNoPanic fun _ _ => bindNeError errAddNoPanic fun _ _ => ?_
  refine bindNeError ?_ fun _ _ => pureNeError
  split
  · exact Candidates.insertEntryNoPanic fun listed => gone _ listed rfl
  · exact pureNeError

theorem Candidates.addTotalStakeNoPanic {amount : Nat} (inv : EligibleListValid cfg st trusted) :
    Candidates.addTotalStake cfg env candidate amount st ≠ .error .panic := by
  unfold Candidates.addTotalStake
  split
  · exact pureNeError
  · exact bindNeError errAddNoPanic fun _ _ => Candidates.updateTotalStakeNoPanic inv

theorem Candidates.subTotalStakeNoPanic {amount : Nat} (inv : EligibleListValid cfg st trusted) :
    Candidates.subTotalStake cfg env candidate amount st ≠ .error .panic := by
  unfold Candidates.subTotalStake
  split
  · exact pureNeError
  · exact bindNeError errSubNoPanic fun _ _ => Candidates.updateTotalStakeNoPanic inv

theorem Calls.updateCandidatePositionNoPanic :
    ∀ {candidates : List α} {st : State α ι σ} {trusted : α → Prop}, EligibleListValid cfg st trusted →
      Calls.updateCandidatePosition cfg env candidates st ≠ .error .panic
  | [], _, _, _ => pureNeError
  | _ :: _, _, _, inv => by
    rw [Calls.updateCandidatePosition]
    exact bindNeError (Candidates.updateTotalStakeNoPanic inv) fun _ updated =>
      Calls.updateCandidatePositionNoPanic (inv.update updated)

/- The calls. A call writes the pools of one candidate, which keeps the list valid for the
other candidates (`EligibleListValid.onlyAt`), and then updates that candidate's total. -/

theorem Calls.executeLeavingNoPanic {leavingShares : Nat} :
    Calls.executeLeaving cfg candidate delegator leavingShares st ≠ .error .panic := by
  unfold Calls.executeLeaving
  exact bindNeError Pool.subSharesNoPanic fun _ _ => bindNeError Pool.decreaseHoldNoPanic fun _ _ =>
    bindNeError liftCurrencyNoPanic fun _ _ => pureNeError

theorem Calls.executeJoiningNoPanic {pool : TargetPool} {joiningShares : Nat} (inv : EligibleListValid cfg st trusted) :
    Calls.executeJoining cfg env candidate delegator pool joiningShares st ≠ .error .panic := by
  unfold Calls.executeJoining
  refine bindNeError Pool.subSharesNoPanic fun subtracted hsub => ?_
  obtain ⟨stake, subtracted⟩ := subtracted
  refine bindNeError Pool.decreaseHoldNoPanic fun released hreleased => ?_
  refine bindNeError Calls.claimIfManualNoPanic fun claimed hclaimed => ?_
  have moved : OnlyAt candidate st claimed :=
    (OnlyAt.subShares hsub).trans ((OnlyAt.decreaseHold hreleased).trans (.ofClaim (Calls.claimIfManualOk hclaimed)))
  refine bindNeError Pool.stakeToSharesOrInitNoPanic fun _ _ => ?_
  split
  · refine bindNeError liftCurrencyNoPanic fun currency _ => ?_
    exact bindNeError (Candidates.subTotalStakeNoPanic (inv.onlyAt (moved.trans (.setCurrency currency))))
      fun _ _ => bindNeError checkCandidateConsistencyNoPanic fun _ _ => pureNeError
  · refine bindNeError Pool.addSharesNoPanic fun added hadded => ?_
    obtain ⟨actuallyStaked, added⟩ := added
    refine bindNeError Pool.increaseHoldNoPanic fun held hheld => ?_
    refine bindNeError errSubNoPanic fun _ _ => bindNeError liftCurrencyNoPanic fun currency _ => ?_
    have movedAgain : OnlyAt candidate st (held.setCurrency currency) :=
      ((moved.trans (.addShares hadded)).trans (.increaseHold hheld)).trans (.setCurrency currency)
    exact bindNeError (Candidates.subTotalStakeNoPanic (inv.onlyAt movedAgain))
      fun _ _ => bindNeError checkCandidateConsistencyNoPanic fun _ _ => pureNeError

theorem Calls.executeOperationNoPanic {index value : Nat} {operation : PendingOperationKey α ι}
    (inv : EligibleListValid cfg st trusted) :
    Calls.executeOperation cfg env index delegator value operation st ≠ .error .panic := by
  cases operation with
  | joiningAutoCompounding => exact bindNeError ensureNoPanic fun _ _ => Calls.executeJoiningNoPanic inv
  | joiningManualRewards => exact bindNeError ensureNoPanic fun _ _ => Calls.executeJoiningNoPanic inv
  | leaving => exact bindNeError ensureNoPanic fun _ _ => Calls.executeLeavingNoPanic

variable [DecidableEq ι]

theorem Calls.executePendingOperationsNoPanic :
    ∀ {index : Nat} {queries : List (PendingOperationQuery α ι)} {st : State α ι σ},
      (EligibleListValid cfg st fun _ => True) → PoolsPriced cfg st → SharesWithinSupply st →
      Calls.executePendingOperations cfg env index queries st ≠ .error .panic
  | _, [], _, _, _, _ => pureNeError
  | _, _ :: _, _, inv, priced, within => by
    rw [Calls.executePendingOperations]
    split
    · exact Calls.executePendingOperationsNoPanic inv priced within
    · refine bindNeError (Calls.executeOperationNoPanic inv) fun _ executed => ?_
      obtain ⟨list, priced, within⟩ := inv.executeRound priced within executed
      exact Calls.executePendingOperationsNoPanic list priced within

theorem Calls.requestDelegateNoPanic {pool : TargetPool} {amount : Nat} (inv : EligibleListValid cfg st trusted) :
    Calls.requestDelegate cfg env candidate delegator pool amount st ≠ .error .panic := by
  unfold Calls.requestDelegate
  refine bindNeError ensureNoPanic fun _ _ => bindNeError Pool.stakeToSharesOrInitNoPanic fun _ _ => ?_
  refine bindNeError ensureNoPanic fun _ _ => bindNeError Pool.addSharesNoPanic fun added hadded => ?_
  obtain ⟨stake, added⟩ := added
  refine bindNeError liftCurrencyNoPanic fun currency _ => bindNeError Pool.increaseHoldNoPanic fun held hheld => ?_
  have moved : OnlyAt candidate st held :=
    (OnlyAt.addShares hadded).trans ((OnlyAt.setCurrency currency).trans (OnlyAt.increaseHold hheld))
  refine bindNeError (Candidates.addTotalStakeNoPanic (inv.onlyAt moved)) fun _ _ => ?_
  exact bindNeError errAddNoPanic fun _ _ => bindNeError checkCandidateConsistencyNoPanic fun _ _ => pureNeError

theorem Calls.requestUndelegateNoPanic {pool : TargetPool} {amount : SharesOrStake}
    (inv : EligibleListValid cfg st trusted) :
    Calls.requestUndelegate cfg env candidate delegator pool amount st ≠ .error .panic := by
  unfold Calls.requestUndelegate
  refine bindNeError ?_ fun _ _ => ?_
  · cases amount with
    | shares => exact pureNeError
    | stake => exact Pool.stakeToSharesNoPanic
  refine bindNeError Calls.claimIfManualNoPanic fun claimed hclaimed => ?_
  refine bindNeError Pool.sharesToStakeNoPanic fun _ _ => ?_
  refine bindNeError ?_ fun rebalanced hrebalanced => ?_
  · split
    · exact Calls.rebalanceHoldNoPanic
    · exact pureNeError
  have claimedAt : OnlyAt candidate st rebalanced := by
    refine (OnlyAt.ofClaim (Calls.claimIfManualOk hclaimed)).trans ?_
    split at hrebalanced
    · exact OnlyAt.rebalanceHold hrebalanced
    · rw [← pureEqOk.1 hrebalanced]
      exact .refl _
  refine bindNeError Pool.subSharesNoPanic fun subtracted hsub => ?_
  obtain ⟨removedStake, subtracted⟩ := subtracted
  refine bindNeError Pool.decreaseHoldNoPanic fun released hreleased => ?_
  have moved : OnlyAt candidate st released := (claimedAt.trans (.subShares hsub)).trans (.decreaseHold hreleased)
  refine bindNeError (Candidates.subTotalStakeNoPanic (inv.onlyAt moved)) fun _ _ => ?_
  refine bindNeError Pool.stakeToSharesOrInitNoPanic fun _ _ => bindNeError Pool.addSharesNoPanic fun _ _ => ?_
  refine bindNeError Pool.increaseHoldNoPanic fun _ _ => bindNeError errAddNoPanic fun _ _ => ?_
  refine bindNeError errSubNoPanic fun _ _ => bindNeError ?_ fun _ _ =>
    bindNeError checkCandidateConsistencyNoPanic fun _ _ => pureNeError
  split
  · exact bindNeError liftCurrencyNoPanic fun _ _ => pureNeError
  · exact pureNeError

theorem dispatchNoPanic {origin : RawOrigin α} {call : Call α ι} (inv : EligibleListValid cfg st fun _ => True)
    (priced : PoolsPriced cfg st) (within : SharesWithinSupply st) :
    dispatch cfg env origin call st ≠ .error .panic := by
  unfold dispatch
  split
  · simp
  · cases call with
    | rebalanceHold => exact Calls.rebalanceHoldNoPanic
    | requestDelegate => exact Calls.requestDelegateNoPanic inv
    | executePendingOperations => exact Calls.executePendingOperationsNoPanic inv priced within
    | requestUndelegate => exact Calls.requestUndelegateNoPanic inv
    | claimManualRewards => exact Calls.claimManualRewardsNoPanic
    | updateCandidatePosition => exact Calls.updateCandidatePositionNoPanic inv

end Calls

theorem sortedEligibleCandidatesValid [LinearOrder α] [DecidableEq ι] {cfg : Config α σ} {st : State α ι σ}
    (reach : Reachable cfg st) :
    let list := st.sortedEligibleCandidates
    BinarySearch.Sorted EligibleCandidate.cmp list ∧ (list.map (·.candidate)).Nodup ∧
      list.length ≤ cfg.eligibleCandidatesBufferSize ∧
      (∀ e ∈ list, e.stake = st.pools e.candidate .candidateTotalStake) ∧
      (∀ e ∈ list, cfg.minimumSelfDelegation ≤ Candidates.selfDelegation e.candidate st) ∧
      (∀ (env : Env α ι) candidate newStake, Candidates.updateTotalStake cfg env candidate newStake st ≠ .error .panic) ∧
      ∀ (env : Env α ι) origin call, dispatch cfg env origin call st ≠ .error .panic := by
  have inv := EligibleListValid.reachable reach
  exact ⟨inv.sorted, inv.nodup, inv.bounded, inv.stakes, fun e listed => inv.selfDelegated e listed trivial,
    fun _ _ _ => Candidates.updateTotalStakeNoPanic inv,
    fun _ _ _ => dispatchNoPanic inv (PoolsPriced.reachable reach) (SharesWithinSupply.reachable reach)⟩

theorem sortedEligibleCandidatesValidAfterDelegation :
    ∃ st : State (Fin 2) Unit (Fin 2 → Account),
      dispatch sampleConfig sampleEnv (.signed 1) (.requestDelegate 1 .autoCompounding 3) (State.empty sampleAccounts) =
        .ok st ∧ st.sortedEligibleCandidates = [⟨1, 3⟩] ∧
      let list := st.sortedEligibleCandidates
      BinarySearch.Sorted EligibleCandidate.cmp list ∧ (list.map (·.candidate)).Nodup ∧
        list.length ≤ sampleConfig.eligibleCandidatesBufferSize ∧
        (∀ e ∈ list, e.stake = st.pools e.candidate .candidateTotalStake) ∧
        (∀ e ∈ list, sampleConfig.minimumSelfDelegation ≤ Candidates.selfDelegation e.candidate st) ∧
        (∀ (env : Env (Fin 2) Unit) candidate newStake,
          Candidates.updateTotalStake sampleConfig env candidate newStake st ≠ .error .panic) ∧
        ∀ (env : Env (Fin 2) Unit) origin call, dispatch sampleConfig env origin call st ≠ .error .panic := by
  obtain ⟨st, delegated, reach, -, -, -, listed⟩ := sampleDelegation
  exact ⟨st, delegated, listed, sortedEligibleCandidatesValid reach⟩

end Tanssi.PooledStaking
