import Tanssi.FiniteSum
import Tanssi.PooledStaking.Bookkeeping

/-! What `T::Currency` holds on an account under the pallet's reason is what the pools'
`HeldStake` records say, summed over every candidate and pool: each call moves the records
and the real hold by the same amounts, given a currency that meets `Currency.Lawful`.
Inside a call the two part for a while (a hold made before its record is written, a record
lowered before the dust is released); `HeldBalance` counts what each side is owed. -/
namespace Tanssi.PooledStaking
open Frame FiniteSum

variable {α ι σ : Type}

def heldWith (st : State α ι σ) (delegator candidate : α) : Nat :=
  ∑ pool, st.pools candidate (.sharesHeldStake pool delegator)

noncomputable def heldRecorded (st : State α ι σ) (delegator : α) : Nat := ∑ᶠ candidate, heldWith st delegator candidate

def PoolsKey.heldStake : PoolsKey α → Bool
  | .sharesHeldStake _ _ => true
  | _ => false

theorem heldWithOfKeeps {st st' : State α ι σ} (kept : Keeps PoolsKey.heldStake st st') : heldWith st' = heldWith st := by
  funext d c
  exact Finset.sum_congr rfl fun p _ => kept.pools c (.sharesHeldStake p d) rfl

theorem heldWithOfPools {st st' : State α ι σ} (same : st'.pools = st.pools) : heldWith st' = heldWith st := by
  funext d c
  simp only [heldWith, same]

@[simp] theorem heldWithSetCurrency (st : State α ι σ) (currency : σ) : heldWith (st.setCurrency currency) = heldWith st :=
  rfl

section Records
variable [DecidableEq α] {st : State α ι σ}

theorem heldWithSetHeld (st : State α ι σ) (c : α) (p : AllTargetPool) (d : α) (v : Nat) (d' c' : α) :
    heldWith (st.setPool c (.sharesHeldStake p d) v) d' c' +
        (if d' = d ∧ c' = c then st.pools c (.sharesHeldStake p d) else 0) =
      heldWith st d' c' + (if d' = d ∧ c' = c then v else 0) := by
  by_cases here : d' = d ∧ c' = c
  · obtain ⟨rfl, rfl⟩ := here
    have sum := sumIteEq (fun x => st.pools c' (.sharesHeldStake x d')) p v
    simp only [heldWith, State.setPoolPools, PoolsKey.sharesHeldStake.injEq, true_and, and_true, and_self, if_true]
    exact sum
  · have same : ∀ x, (st.setPool c (.sharesHeldStake p d) v).pools c' (.sharesHeldStake x d') =
        st.pools c' (.sharesHeldStake x d') := by
      intro x
      simp only [State.setPoolPools, PoolsKey.sharesHeldStake.injEq]
      rw [if_neg fun written => here ⟨written.2.2, written.1⟩]
    simp only [heldWith, same, if_neg here]

theorem heldRecordedSetHeld {d : α} (finite : (heldWith st d).HasFiniteSupport) (c : α) (p : AllTargetPool)
    (v : Nat) (d' : α) :
    heldRecorded (st.setPool c (.sharesHeldStake p d) v) d' + (if d' = d then st.pools c (.sharesHeldStake p d) else 0) =
      heldRecorded st d' + (if d' = d then v else 0) := by
  by_cases here : d' = d
  · subst here
    have outside : ∀ c', c' ≠ c → heldWith (st.setPool c (.sharesHeldStake p d') v) d' c' = heldWith st d' c' := by
      intro c' other
      have moved := heldWithSetHeld st c p d' v d' c'
      simpa [other] using moved
    have sum := finsumChangeAt finite c outside
    have atCandidate := heldWithSetHeld st c p d' v d' c
    simp only [and_self, if_true] at atCandidate
    simp only [heldRecorded, if_true]
    omega
  · have same : heldWith (st.setPool c (.sharesHeldStake p d) v) d' = heldWith st d' := by
      funext c'
      have moved := heldWithSetHeld st c p d v d' c'
      simpa [here] using moved
    simp [heldRecorded, same, here]

theorem heldWithSetHeldFinite {d : α} (finite : ∀ d', (heldWith st d').HasFiniteSupport) (c : α)
    (p : AllTargetPool) (v : Nat) (d' : α) : (heldWith (st.setPool c (.sharesHeldStake p d) v) d').HasFiniteSupport := by
  refine hasFiniteSupportOfChangeAt (finite d') c fun c' other => ?_
  have moved := heldWithSetHeld st c p d v d' c'
  simpa [other] using moved

end Records

theorem Currency.Lawful.transfersKeepHolds [DecidableEq α] {currency : Currency α σ} (lawful : currency.Lawful)
    {s s' : σ} (transfers : Relation.ReflTransGen (fun s s' => ∃ a b x, currency.transfer a b x s = some s') s s')
    (d : α) : currency.balanceOnHold d s' = currency.balanceOnHold d s := by
  induction transfers with
  | refl => rfl
  | tail _ step ih =>
    obtain ⟨a, b, x, transferred⟩ := step
    exact (lawful.transfer transferred d).trans ih

structure HeldBalance (cfg : Config α σ) (st : State α ι σ) (owed ahead : α → Nat) : Prop where
  finite : ∀ d, (heldWith st d).HasFiniteSupport
  balance : ∀ d, cfg.currency.balanceOnHold d st.currency + owed d = heldRecorded st d + ahead d

def HoldsMatchCurrency (cfg : Config α σ) (st : State α ι σ) : Prop := HeldBalance cfg st (fun _ => 0) (fun _ => 0)

namespace HeldBalance
variable {cfg : Config α σ} {st st' : State α ι σ} {owed ahead : α → Nat}

theorem shift {owed' ahead' : α → Nat} (inv : HeldBalance cfg st owed ahead)
    (shifted : ∀ d, owed' d + ahead d = owed d + ahead' d) : HeldBalance cfg st owed' ahead' where
  finite := inv.finite
  balance d := by
    have before := inv.balance d
    have moved := shifted d
    omega

theorem settle (inv : HeldBalance cfg st owed ahead) (even : ∀ d, owed d = ahead d) : HoldsMatchCurrency cfg st :=
  inv.shift fun d => by rw [even d]; omega

theorem ofKeeps (inv : HeldBalance cfg st owed ahead) (kept : Keeps PoolsKey.heldStake st st')
    (currency : st'.currency = st.currency) : HeldBalance cfg st' owed ahead where
  finite := by rw [heldWithOfKeeps kept]; exact inv.finite
  balance d := by
    simp only [heldRecorded, heldWithOfKeeps kept, currency]
    exact inv.balance d

theorem ofPools (inv : HeldBalance cfg st owed ahead) (pools : st'.pools = st.pools)
    (currency : st'.currency = st.currency) : HeldBalance cfg st' owed ahead where
  finite := by rw [heldWithOfPools pools]; exact inv.finite
  balance d := by
    simp only [heldRecorded, heldWithOfPools pools, currency]
    exact inv.balance d

/- The currency: a hold puts the records behind, a release puts them ahead, a transfer moves
no hold. -/

section Currency
variable [DecidableEq α]

theorem hold (lawful : cfg.currency.Lawful) (inv : HeldBalance cfg st owed ahead) {d : α} {x : Nat} {currency : σ}
    (held : cfg.currency.hold d x st.currency = some currency) :
    HeldBalance cfg (st.setCurrency currency) owed (fun a => ahead a + if a = d then x else 0) where
  finite := inv.finite
  balance a := by
    have before := inv.balance a
    have moved := lawful.hold held a
    simp only [State.setCurrencyCurrency, heldRecorded, heldWithSetCurrency] at before moved ⊢
    omega

theorem release (lawful : cfg.currency.Lawful) (inv : HeldBalance cfg st owed ahead) {d : α} {x : Nat}
    {currency : σ} (released : cfg.currency.release d x st.currency = some currency) :
    HeldBalance cfg (st.setCurrency currency) (fun a => owed a + if a = d then x else 0) ahead where
  finite := inv.finite
  balance a := by
    have before := inv.balance a
    have moved := lawful.release released a
    simp only [State.setCurrencyCurrency, heldRecorded, heldWithSetCurrency] at before moved ⊢
    omega

theorem ofTransfers (lawful : cfg.currency.Lawful) (inv : HeldBalance cfg st owed ahead)
    (kept : Keeps PoolsKey.heldStake st st')
    (transfers : Relation.ReflTransGen (fun s s' => ∃ a b x, cfg.currency.transfer a b x s = some s')
      st.currency st'.currency) : HeldBalance cfg st' owed ahead where
  finite := by rw [heldWithOfKeeps kept]; exact inv.finite
  balance d := by
    simp only [heldRecorded, heldWithOfKeeps kept, lawful.transfersKeepHolds transfers d]
    exact inv.balance d

theorem transfer (lawful : cfg.currency.Lawful) (inv : HeldBalance cfg st owed ahead) {a b : α} {x : Nat}
    {currency : σ} (transferred : cfg.currency.transfer a b x st.currency = some currency) :
    HeldBalance cfg (st.setCurrency currency) owed ahead :=
  inv.ofTransfers lawful (Keeps.setCurrency currency) (.single ⟨a, b, x, transferred⟩)

theorem ofClaim (lawful : cfg.currency.Lawful) (inv : HeldBalance cfg st owed ahead) (h : ClaimEffect cfg st st') :
    HeldBalance cfg st' owed ahead :=
  inv.ofTransfers lawful (Keeps.ofClaim h fun _ => rfl) h.transfers

end Currency

/- The records: a write to one of them moves its delegator's side. -/

section Writes
variable [DecidableEq α] {pool : AllTargetPool} {candidate delegator : α}

theorem setHeld (inv : HeldBalance cfg st owed ahead) (v : Nat) :
    HeldBalance cfg (st.setPool candidate (.sharesHeldStake pool delegator) v)
      (fun a => owed a + if a = delegator then v else 0)
      (fun a => ahead a + if a = delegator then st.pools candidate (.sharesHeldStake pool delegator) else 0) where
  finite := heldWithSetHeldFinite inv.finite candidate pool v
  balance a := by
    have before := inv.balance a
    have moved := heldRecordedSetHeld (inv.finite delegator) candidate pool v a
    simp only [State.setPoolCurrency]
    omega

theorem increaseHold {stake : Nat} (inv : HeldBalance cfg st owed ahead)
    (h : Pool.increaseHold pool candidate delegator stake st = .ok st') :
    HeldBalance cfg st' (fun a => owed a + if a = delegator then stake else 0) ahead := by
  obtain ⟨-, rfl⟩ := Pool.increaseHoldOk h
  refine (inv.setHeld _).shift fun a => ?_
  by_cases here : a = delegator
  · simp only [here, if_true, Pool.hold]
    omega
  · simp only [here, if_false, add_zero]

theorem decreaseHold {stake : Nat} (inv : HeldBalance cfg st owed ahead)
    (h : Pool.decreaseHold pool candidate delegator stake st = .ok st') :
    HeldBalance cfg st' owed (fun a => ahead a + if a = delegator then stake else 0) := by
  obtain ⟨covered, rfl⟩ := Pool.decreaseHoldOk h
  refine (inv.setHeld _).shift fun a => ?_
  by_cases here : a = delegator
  · simp only [here, if_true, Pool.hold] at covered ⊢
    omega
  · simp only [here, if_false, add_zero]

theorem addShares {shares stake : Nat} (inv : HeldBalance cfg st owed ahead)
    (h : Pool.addShares cfg pool candidate delegator shares st = .ok (stake, st')) : HeldBalance cfg st' owed ahead := by
  refine inv.ofKeeps (Keeps.addShares ⟨rfl, rfl, rfl⟩ h) ?_
  obtain ⟨-, -, -, -, -, rfl⟩ := Pool.addSharesOk h
  rfl

theorem subShares {shares stake : Nat} (inv : HeldBalance cfg st owed ahead)
    (h : Pool.subShares pool candidate delegator shares st = .ok (stake, st')) : HeldBalance cfg st' owed ahead := by
  refine inv.ofKeeps (Keeps.subShares ⟨rfl, rfl, rfl⟩ h) ?_
  obtain ⟨-, -, -, -, -, rfl⟩ := Pool.subSharesOk h
  rfl

end Writes

section Calls
variable [LinearOrder α] {env : Env α ι} {candidate delegator : α}

theorem addTotalStake {stake : Nat} (inv : HeldBalance cfg st owed ahead)
    (h : Candidates.addTotalStake cfg env candidate stake st = .ok st') : HeldBalance cfg st' owed ahead := by
  refine inv.ofKeeps (Keeps.addTotalStake rfl h) ?_
  rw [(Candidates.addTotalStakeFrame h).2]
  rfl

theorem subTotalStake {stake : Nat} (inv : HeldBalance cfg st owed ahead)
    (h : Candidates.subTotalStake cfg env candidate stake st = .ok st') : HeldBalance cfg st' owed ahead := by
  refine inv.ofKeeps (Keeps.subTotalStake rfl h) ?_
  rw [(Candidates.subTotalStakeFrame h).2]
  rfl

end Calls
end HeldBalance

/- Each call ends with what is owed and what is ahead even. -/

namespace HoldsMatchCurrency
variable {cfg : Config α σ} {st st' : State α ι σ}

theorem empty {currency : σ} (nothingHeld : ∀ d, cfg.currency.balanceOnHold d currency = 0) :
    HoldsMatchCurrency cfg (State.empty currency : State α ι σ) := by
  have nothingRecorded : ∀ d, heldWith (State.empty currency : State α ι σ) d = fun _ => 0 := by
    intro d
    funext c
    simp [heldWith, State.empty]
  refine ⟨fun d => ?_, fun d => ?_⟩
  · simp [nothingRecorded d, Function.HasFiniteSupport]
  · rw [heldRecorded, nothingRecorded d, finsum_zero]
    simp [State.empty, nothingHeld]

variable [LinearOrder α] {env : Env α ι} {candidate delegator : α}

theorem rebalanceHold {pool : AllTargetPool} (lawful : cfg.currency.Lawful) (inv : HoldsMatchCurrency cfg st)
    (h : Calls.rebalanceHold cfg candidate delegator pool st = .ok st') : HoldsMatchCurrency cfg st' := by
  obtain ⟨stake, currency, -, rfl, moved⟩ := Calls.rebalanceHoldOk h
  have written : HeldBalance cfg (st.setPool candidate (.sharesHeldStake pool delegator) stake) _ _ := inv.setHeld stake
  rcases moved with ⟨same, rfl⟩ | ⟨below, moved, transferred, held⟩ | ⟨above, released, releasedOk, transferred⟩
  · refine (written.ofPools rfl rfl).settle fun a => ?_
    by_cases here : a = delegator
    · simp only [here, if_true, Pool.hold] at same ⊢
      omega
    · simp only [here, if_false]
  · refine ((written.transfer lawful transferred).hold lawful held).settle fun a => ?_
    by_cases here : a = delegator
    · simp only [here, if_true, Pool.hold] at below ⊢
      omega
    · simp only [here, if_false]
  · refine ((written.release lawful releasedOk).transfer lawful transferred).settle fun a => ?_
    by_cases here : a = delegator
    · simp only [here, if_true, Pool.hold] at above ⊢
      omega
    · simp only [here, if_false]

theorem executeJoining {pool : TargetPool} {joiningShares : Nat} (lawful : cfg.currency.Lawful)
    (inv : HoldsMatchCurrency cfg st)
    (h : Calls.executeJoining cfg env candidate delegator pool joiningShares st = .ok st') : HoldsMatchCurrency cfg st' := by
  obtain ⟨stake, subtracted, released, claimed, shares, hsub, hreleased, hclaimed, -, rest, -⟩ :=
    Calls.executeJoiningOk h
  have claimedBal := ((inv.subShares hsub).decreaseHold hreleased).ofClaim lawful (Calls.claimIfManualOk hclaimed)
  rcases rest with ⟨-, currency, releasedAll, final⟩ |
    ⟨-, actuallyStaked, added, held, currency, hadded, hheld, staked, releasedDust, final⟩
  · refine ((claimedBal.release lawful releasedAll).subTotalStake final).settle fun a => ?_
    by_cases here : a = delegator
    · simp only [here, if_true]
    · simp only [here, if_false]
  · refine ((((claimedBal.addShares hadded).increaseHold hheld).release lawful releasedDust).subTotalStake
      final).settle fun a => ?_
    by_cases here : a = delegator
    · simp only [here, if_true]
      omega
    · simp only [here, if_false]

theorem executeLeaving {leavingShares : Nat} (lawful : cfg.currency.Lawful) (inv : HoldsMatchCurrency cfg st)
    (h : Calls.executeLeaving cfg candidate delegator leavingShares st = .ok st') : HoldsMatchCurrency cfg st' := by
  obtain ⟨stake, subtracted, released, currency, hsub, hreleased, releasedAll, rfl⟩ := Calls.executeLeavingOk h
  refine (((inv.subShares hsub).decreaseHold hreleased).release lawful releasedAll).settle fun a => ?_
  by_cases here : a = delegator
  · simp only [here, if_true]
  · simp only [here, if_false]

theorem updateCandidatePosition {candidates : List α} (inv : HoldsMatchCurrency cfg st)
    (h : Calls.updateCandidatePosition cfg env candidates st = .ok st') : HoldsMatchCurrency cfg st' := by
  refine Calls.updateCandidatePositionInduct (HoldsMatchCurrency cfg) (fun candidate st st' inv updated => ?_) inv h
  rw [Candidates.updateTotalStakeFrame updated]
  exact inv.ofKeeps (Keeps.ofTotalWrite rfl) rfl

variable [DecidableEq ι]

theorem requestDelegate {pool : TargetPool} {amount : Nat} (lawful : cfg.currency.Lawful)
    (inv : HoldsMatchCurrency cfg st)
    (h : Calls.requestDelegate cfg env candidate delegator pool amount st = .ok st') : HoldsMatchCurrency cfg st' := by
  obtain ⟨shares, stake, added, currency, held, updated, hadded, hhold, hheld, hupdated, -, rfl, -⟩ :=
    Calls.requestDelegateOk h
  have updatedBal := (((inv.addShares hadded).hold lawful hhold).increaseHold hheld).addTotalStake hupdated
  refine (updatedBal.ofPools (State.setPendingPools _ _ _ _) (State.setPendingCurrency _ _ _ _)).settle fun a => ?_
  by_cases here : a = delegator
  · simp only [here, if_true]
  · simp only [here, if_false]

theorem requestUndelegate {pool : TargetPool} {amount : SharesOrStake} (lawful : cfg.currency.Lawful)
    (inv : HoldsMatchCurrency cfg st)
    (h : Calls.requestUndelegate cfg env candidate delegator pool amount st = .ok st') : HoldsMatchCurrency cfg st' := by
  obtain ⟨shares, claimed, rebalanced, removed, subtracted, released, updated, leavingShares, leavingStake, added,
    held, queued, hclaimed, hrebalanced, hsub, hreleased, hupdated, hadded, hheld, -, hqueued, covered, final, -⟩ :=
    Calls.requestUndelegateOk h
  have claimedInv : HoldsMatchCurrency cfg claimed := inv.ofClaim lawful (Calls.claimIfManualOk hclaimed)
  have rebalancedInv : HoldsMatchCurrency cfg rebalanced := by
    rcases hrebalanced with rfl | hrebalanced
    · exact claimedInv
    · exact claimedInv.rebalanceHold lawful hrebalanced
  have heldBal := ((((rebalancedInv.subShares hsub).decreaseHold hreleased).subTotalStake hupdated).addShares
    hadded).increaseHold hheld
  have queuedBal : HeldBalance cfg queued _ _ := heldBal.ofPools (by rw [hqueued]; rfl) (by rw [hqueued]; rfl)
  rcases final with ⟨noDust, rfl⟩ | ⟨-, currency, releasedDust, rfl⟩
  · refine queuedBal.settle fun a => ?_
    by_cases here : a = delegator
    · simp only [here, if_true]
      omega
    · simp only [here, if_false]
  · refine (queuedBal.release lawful releasedDust).settle fun a => ?_
    by_cases here : a = delegator
    · simp only [here, if_true]
      omega
    · simp only [here, if_false]

theorem executePendingOperations {index : Nat} {queries : List (PendingOperationQuery α ι)}
    (lawful : cfg.currency.Lawful) (inv : HoldsMatchCurrency cfg st)
    (h : Calls.executePendingOperations cfg env index queries st = .ok st') : HoldsMatchCurrency cfg st' := by
  refine Calls.executePendingOperationsInduct (HoldsMatchCurrency cfg)
    (fun index delegator operation st st' inv _ executed => ?_) inv h
  refine HeldBalance.ofPools ?_ (State.setPendingPools _ _ _ _) (State.setPendingCurrency _ _ _ _)
  rcases Calls.executeOperationOk executed with ⟨_, _, _, -, joined⟩ | ⟨_, _, -, left⟩
  · exact inv.executeJoining lawful joined
  · exact inv.executeLeaving lawful left

theorem dispatch {origin : RawOrigin α} {call : Call α ι} (lawful : cfg.currency.Lawful)
    (inv : HoldsMatchCurrency cfg st) (h : PooledStaking.dispatch cfg env origin call st = .ok st') :
    HoldsMatchCurrency cfg st' := by
  unfold PooledStaking.dispatch at h
  split at h
  · cases h
  · cases call with
    | rebalanceHold => exact inv.rebalanceHold lawful h
    | requestDelegate => exact inv.requestDelegate lawful h
    | executePendingOperations => exact inv.executePendingOperations lawful h
    | requestUndelegate => exact inv.requestUndelegate lawful h
    | claimManualRewards => exact inv.ofClaim lawful (Calls.claimManualRewardsOk h)
    | updateCandidatePosition => exact inv.updateCandidatePosition h

theorem reachable (lawful : cfg.currency.Lawful) (reach : Reachable cfg st) : HoldsMatchCurrency cfg st := by
  induction reach with
  | empty nothingHeld => exact empty nothingHeld
  | call env origin call _ dispatched inv => exact inv.dispatch lawful dispatched

end HoldsMatchCurrency

theorem heldBalanceMatchesRecords [LinearOrder α] [DecidableEq ι] {cfg : Config α σ} {st : State α ι σ}
    (lawful : cfg.currency.Lawful) (reach : Reachable cfg st) (delegator : α) :
    cfg.currency.balanceOnHold delegator st.currency =
      ∑ᶠ candidate, ∑ pool, st.pools candidate (.sharesHeldStake pool delegator) := by
  have balanced := (HoldsMatchCurrency.reachable lawful reach).balance delegator
  simpa [heldRecorded, heldWith] using balanced

theorem heldBalanceMatchesRecordsAfterDelegation :
    ∃ st : State (Fin 2) Unit (Fin 2 → Account),
      dispatch sampleConfig sampleEnv (.signed 1) (.requestDelegate 1 .autoCompounding 3) (State.empty sampleAccounts) =
        .ok st ∧ sampleConfig.currency.balanceOnHold 1 st.currency = 3 ∧
      sampleConfig.currency.balanceOnHold 1 st.currency =
        ∑ᶠ candidate, ∑ pool, st.pools candidate (.sharesHeldStake pool 1) := by
  obtain ⟨st, delegated, reach, -, -, held, -⟩ := sampleDelegation
  exact ⟨st, delegated, held, heldBalanceMatchesRecords ledgerLawful reach 1⟩

end Tanssi.PooledStaking
