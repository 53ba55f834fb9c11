import Tanssi.PooledStaking.Requests

/-! `SortedEligibleCandidates` over every reachable state. `update_total_stake` is the only
writer of the list and of a candidate's total; it finds the candidate's old entry by binary
search at the old total, and inserts a new one only for a self-delegation of at least
`MinimumSelfDelegation`. So the list stays strictly increasing, with one entry per
candidate at most, within the buffer, each entry at its candidate's total
(`EligibleListValid`). A call on a candidate may change that candidate's own shares before
the update re-checks it; where a call skips the update (a zero amount), the pools' prices
(`PoolsPriced`) show the self-delegation did not move. As the old entry is always found,
the `expect_err` of the insertion never panics. -/
namespace Tanssi.PooledStaking
open Frame BinarySearch

variable {α ι σ : Type}

def PoolsPriced (cfg : Config α σ) (st : State α ι σ) : Prop :=
  ∀ c p, st.pools c (.sharesTotalStaked p) = Pool.initialShareValue cfg p * st.pools c (.sharesSupply p)

def PoolsKey.priced : PoolsKey α → Bool
  | .sharesSupply _ | .sharesTotalStaked _ => true
  | _ => false

namespace PoolsPriced
variable {cfg : Config α σ} {st st' : State α ι σ}

theorem empty (currency : σ) : PoolsPriced cfg (State.empty currency : State α ι σ) := fun _ _ => by
  simp [State.empty]

theorem ofKeeps (inv : PoolsPriced cfg st) (kept : Keeps PoolsKey.priced st st') : PoolsPriced cfg st' := by
  intro c p
  rw [kept.pools c (.sharesTotalStaked p) rfl, kept.pools c (.sharesSupply p) rfl]
  exact inv c p

theorem ofPools (inv : PoolsPriced cfg st) (same : st'.pools = st.pools) : PoolsPriced cfg st' := by
  intro c p
  rw [same]
  exact inv c p

section Writes
variable [DecidableEq α] {pool : AllTargetPool} {candidate delegator : α}

theorem ofShareWrite (inv : PoolsPriced cfg st) {supply shares total : Nat}
    (priced : total = Pool.initialShareValue cfg pool * supply) :
    PoolsPriced cfg (((st.setPool candidate (.sharesSupply pool) supply).setPool candidate
      (.shares pool delegator) shares).setPool candidate (.sharesTotalStaked pool) total) := by
  intro c p
  by_cases here : c = candidate ∧ p = pool
  · obtain ⟨rfl, rfl⟩ := here
    simpa using priced
  · simp only [State.setPoolPools, PoolsKey.sharesTotalStaked.injEq, PoolsKey.sharesSupply.injEq, reduceCtorEq,
      and_false, if_false, if_neg here]
    exact inv c p

theorem addShares {shares stake : Nat} (inv : PoolsPriced cfg st)
    (h : Pool.addShares cfg pool candidate delegator shares st = .ok (stake, st')) : PoolsPriced cfg st' := by
  obtain ⟨-, converted, -, -, -, rfl⟩ := Pool.addSharesOk h
  have value := Pool.sharesToStakeOrInitAtPrice (inv candidate pool) converted
  refine inv.ofShareWrite ?_
  simp only [Pool.totalStaked, Pool.sharesSupply]
  rw [inv candidate pool, value]
  ring

theorem subShares {shares stake : Nat} (inv : PoolsPriced cfg st)
    (h : Pool.subShares pool candidate delegator shares st = .ok (stake, st')) : PoolsPriced cfg st' := by
  obtain ⟨-, converted, -, -, -, rfl⟩ := Pool.subSharesOk h
  have value := Pool.sharesToStakeAtPrice (inv candidate pool) converted
  refine inv.ofShareWrite ?_
  simp only [Pool.totalStaked, Pool.sharesSupply]
  rw [inv candidate pool, value, Nat.mul_sub, Nat.mul_comm shares]

end Writes
end PoolsPriced

namespace Candidates

def selfValue (pool : AllTargetPool) (candidate : α) (st : State α ι σ) : Nat :=
  if Pool.sharesSupply pool candidate st = 0 then 0
  else Pool.shares pool candidate candidate st * Pool.totalStaked pool candidate st / Pool.sharesSupply pool candidate st

/-- `ac_self + mr_self + joining_self`. -/
def selfDelegation (candidate : α) (st : State α ι σ) : Nat :=
  selfValue .autoCompounding candidate st + selfValue .manualRewards candidate st + selfValue .joining candidate st

theorem selfValueOfReads {pool : AllTargetPool} {candidate : α} {st st' : State α ι σ}
    (shares : st'.pools candidate (.shares pool candidate) = st.pools candidate (.shares pool candidate))
    (supply : st'.pools candidate (.sharesSupply pool) = st.pools candidate (.sharesSupply pool))
    (total : st'.pools candidate (.sharesTotalStaked pool) = st.pools candidate (.sharesTotalStaked pool)) :
    selfValue pool candidate st' = selfValue pool candidate st := by
  unfold selfValue Pool.shares Pool.sharesSupply Pool.totalStaked
  rw [shares, supply, total]

end Candidates

def PoolsKey.eligibility : PoolsKey α → Bool
  | .candidateTotalStake => true
  | .shares p _ | .sharesSupply p | .sharesTotalStaked p => decide (p ≠ .leaving)
  | _ => false

theorem Candidates.selfDelegationOfReads {candidate : α} {st st' : State α ι σ}
    (reads : ∀ k, PoolsKey.eligibility k → st'.pools candidate k = st.pools candidate k) :
    Candidates.selfDelegation candidate st' = Candidates.selfDelegation candidate st := by
  have counted : ∀ p : AllTargetPool, p ≠ .leaving →
      Candidates.selfValue p candidate st' = Candidates.selfValue p candidate st := fun p other =>
    Candidates.selfValueOfReads (reads _ (by simpa [PoolsKey.eligibility] using other))
      (reads _ (by simpa [PoolsKey.eligibility] using other)) (reads _ (by simpa [PoolsKey.eligibility] using other))
  simp only [Candidates.selfDelegation, counted .autoCompounding (by decide), counted .manualRewards (by decide),
    counted .joining (by decide)]

theorem Candidates.selfStakeOk {pool : AllTargetPool} {candidate : α} {st : State α ι σ} {v : Nat}
    (h : Candidates.selfStake pool candidate st = .ok v) :
    v = Candidates.selfValue pool candidate st := by
  unfold Candidates.selfStake at h
  unfold Candidates.selfValue
  split at h
  · rename_i empty
    rw [if_pos empty]
    exact (pureEqOk.1 h).symm
  · rename_i staked
    rw [if_neg staked]
    exact (Pool.sharesToStakeOk h).2.1

section Update
variable [LinearOrder α] {cfg : Config α σ} {env : Env α ι} {candidate : α} {st st' : State α ι σ}

theorem Candidates.updateTotalStakeOk {newStake : Nat}
    (h : Candidates.updateTotalStake cfg env candidate newStake st = .ok st') :
    ((cfg.minimumSelfDelegation ≤ Candidates.selfDelegation candidate st ∧
        Candidates.insertEntry cfg.eligibleCandidatesBufferSize
          (Candidates.removeEntry st.sortedEligibleCandidates ⟨candidate, Candidates.totalStake candidate st⟩)
          ⟨candidate, newStake⟩ = .ok st'.sortedEligibleCandidates) ∨
      st'.sortedEligibleCandidates =
        Candidates.removeEntry st.sortedEligibleCandidates ⟨candidate, Candidates.totalStake candidate st⟩) ∧
    st' = (st.setPool candidate .candidateTotalStake newStake).setSorted st'.sortedEligibleCandidates := by
  simp only [Candidates.updateTotalStake, bindEqOk, pureEqOk] at h
  obtain ⟨ac, hac, mr, hmr, joining, hjoining, partialSum, hpartial, total, htotal, list, hlist, rfl⟩ := h
  -- the self-delegation is read after the total is written, which it does not depend on
  have written : ∀ p, Candidates.selfValue p candidate (st.setPool candidate .candidateTotalStake newStake) =
      Candidates.selfValue p candidate st := fun _ => Candidates.selfValueOfReads (by simp) (by simp) (by simp)
  have summed : total = Candidates.selfDelegation candidate st := by
    obtain ⟨-, rfl⟩ := errAddOk.1 hpartial
    obtain ⟨-, rfl⟩ := errAddOk.1 htotal
    rw [Candidates.selfStakeOk hac, Candidates.selfStakeOk hmr, Candidates.selfStakeOk hjoining, written, written,
      written, Candidates.selfDelegation]
  refine ⟨?_, rfl⟩
  simp only [State.setPoolSorted, State.setSortedSorted] at hlist ⊢
  split at hlist
  · rename_i eligible
    simp only [Bool.and_eq_true, decide_eq_true_eq] at eligible
    exact .inl ⟨summed ▸ eligible.1, hlist⟩
  · exact .inr (pureEqOk.1 hlist).symm

theorem Candidates.addTotalStakeSteps {amount : Nat} (h : Candidates.addTotalStake cfg env candidate amount st = .ok st') :
    (amount = 0 ∧ st' = st) ∨ ∃ newStake, Candidates.updateTotalStake cfg env candidate newStake st = .ok st' := by
  unfold Candidates.addTotalStake at h
  split at h
  · exact .inl ⟨by assumption, (pureEqOk.1 h).symm⟩
  · obtain ⟨newStake, -, updated⟩ := bindEqOk.1 h
    exact .inr ⟨newStake, updated⟩

theorem Candidates.subTotalStakeSteps {amount : Nat} (h : Candidates.subTotalStake cfg env candidate amount st = .ok st') :
    (amount = 0 ∧ st' = st) ∨ ∃ newStake, Candidates.updateTotalStake cfg env candidate newStake st = .ok st' := by
  unfold Candidates.subTotalStake at h
  split at h
  · exact .inl ⟨by assumption, (pureEqOk.1 h).symm⟩
  · obtain ⟨newStake, -, updated⟩ := bindEqOk.1 h
    exact .inr ⟨newStake, updated⟩

end Update

/-- `SortedEligibleCandidates` as `update_total_stake` keeps it: strictly increasing, at most
one entry per candidate, within the buffer, each entry at its candidate's total; the
`trusted` candidates listed have at least the minimum self-delegation. -/
structure EligibleListValid [LinearOrder α] (cfg : Config α σ) (st : State α ι σ) (trusted : α → Prop) : Prop where
  sorted : Sorted EligibleCandidate.cmp st.sortedEligibleCandidates
  nodup : (st.sortedEligibleCandidates.map (·.candidate)).Nodup
  bounded : st.sortedEligibleCandidates.length ≤ cfg.eligibleCandidatesBufferSize
  stakes : ∀ e ∈ st.sortedEligibleCandidates, e.stake = st.pools e.candidate .candidateTotalStake
  selfDelegated : ∀ e ∈ st.sortedEligibleCandidates, trusted e.candidate →
    cfg.minimumSelfDelegation ≤ Candidates.selfDelegation e.candidate st

section Frames
variable [DecidableEq α] {cfg : Config α σ} {pool : AllTargetPool} {candidate delegator : α} {st st' : State α ι σ}

theorem Pool.addSharesSorted {shares stake : Nat} (h : Pool.addShares cfg pool candidate delegator shares st = .ok (stake, st')) :
    st'.sortedEligibleCandidates = st.sortedEligibleCandidates := by
  obtain ⟨-, -, -, -, -, rfl⟩ := Pool.addSharesOk h
  rfl

theorem Pool.subSharesSorted {shares stake : Nat} (h : Pool.subShares pool candidate delegator shares st = .ok (stake, st')) :
    st'.sortedEligibleCandidates = st.sortedEligibleCandidates := by
  obtain ⟨-, -, -, -, -, rfl⟩ := Pool.subSharesOk h
  rfl

theorem Pool.increaseHoldSorted {stake : Nat} (h : Pool.increaseHold pool candidate delegator stake st = .ok st') :
    st'.sortedEligibleCandidates = st.sortedEligibleCandidates := by
  rw [(Pool.increaseHoldOk h).2]; rfl

theorem Pool.decreaseHoldSorted {stake : Nat} (h : Pool.decreaseHold pool candidate delegator stake st = .ok st') :
    st'.sortedEligibleCandidates = st.sortedEligibleCandidates := by
  rw [(Pool.decreaseHoldOk h).2]; rfl

end Frames

theorem Calls.rebalanceHoldSorted [LinearOrder α] {cfg : Config α σ} {pool : AllTargetPool} {candidate delegator : α}
    {st st' : State α ι σ} (h : Calls.rebalanceHold cfg candidate delegator pool st = .ok st') :
    st'.sortedEligibleCandidates = st.sortedEligibleCandidates := by
  obtain ⟨stake, currency, -, rfl, -⟩ := Calls.rebalanceHoldOk h
  rfl

structure OnlyAt (candidate : α) (st st' : State α ι σ) : Prop where
  others : ∀ c k, c ≠ candidate → PoolsKey.eligibility k → st'.pools c k = st.pools c k
  totals : ∀ c, st'.pools c .candidateTotalStake = st.pools c .candidateTotalStake
  sorted : st'.sortedEligibleCandidates = st.sortedEligibleCandidates

namespace OnlyAt
variable {cfg : Config α σ} {candidate : α} {st st₁ st' : State α ι σ}

theorem refl (st : State α ι σ) : OnlyAt candidate st st := ⟨fun _ _ _ _ => rfl, fun _ => rfl, rfl⟩

theorem trans (first : OnlyAt candidate st st₁) (second : OnlyAt candidate st₁ st') : OnlyAt candidate st st' :=
  ⟨fun c k other read => (second.others c k other read).trans (first.others c k other read),
    fun c => (second.totals c).trans (first.totals c), second.sorted.trans first.sorted⟩

theorem ofKeeps (kept : Keeps PoolsKey.eligibility st st')
    (sorted : st'.sortedEligibleCandidates = st.sortedEligibleCandidates) : OnlyAt candidate st st' :=
  ⟨fun c k _ read => kept.pools c k read, fun c => kept.pools c _ rfl, sorted⟩

theorem setCurrency (currency : σ) : OnlyAt candidate st (st.setCurrency currency) := ofKeeps (.setCurrency _) rfl

theorem ofClaim (h : ClaimEffect cfg st st') : OnlyAt candidate st st' :=
  ofKeeps (.ofClaim h fun _ => rfl) h.sorted

section Writes
variable [DecidableEq α] {pool : AllTargetPool} {c delegator : α}

theorem setPending [DecidableEq ι] {key : PendingOperationKey α ι} {v : Nat} :
    OnlyAt candidate st (st.setPending delegator key v) :=
  ⟨fun _ _ _ _ => rfl, fun _ => rfl, rfl⟩

theorem increaseHold {stake : Nat} (h : Pool.increaseHold pool c delegator stake st = .ok st') :
    OnlyAt candidate st st' :=
  ofKeeps (.increaseHold rfl h) (Pool.increaseHoldSorted h)

theorem decreaseHold {stake : Nat} (h : Pool.decreaseHold pool c delegator stake st = .ok st') :
    OnlyAt candidate st st' :=
  ofKeeps (.decreaseHold rfl h) (Pool.decreaseHoldSorted h)

theorem ofShareWrite {supply shares total : Nat} :
    OnlyAt candidate st (((st.setPool candidate (.sharesSupply pool) supply).setPool candidate
      (.shares pool delegator) shares).setPool candidate (.sharesTotalStaked pool) total) :=
  ⟨fun c k other _ => by simp [other], fun _ => by simp, rfl⟩

theorem addShares {shares stake : Nat} (h : Pool.addShares cfg pool candidate delegator shares st = .ok (stake, st')) :
    OnlyAt candidate st st' := by
  obtain ⟨-, -, -, -, -, rfl⟩ := Pool.addSharesOk h
  exact ofShareWrite

theorem subShares {shares stake : Nat} (h : Pool.subShares pool candidate delegator shares st = .ok (stake, st')) :
    OnlyAt candidate st st' := by
  obtain ⟨-, -, -, -, -, rfl⟩ := Pool.subSharesOk h
  exact ofShareWrite

end Writes

theorem rebalanceHold [LinearOrder α] {pool : AllTargetPool} {c delegator : α}
    (h : Calls.rebalanceHold cfg c delegator pool st = .ok st') : OnlyAt candidate st st' :=
  ofKeeps (Keeps.rebalanceHold rfl h) (Calls.rebalanceHoldSorted h)

end OnlyAt

namespace EligibleListValid
variable [LinearOrder α] {cfg : Config α σ} {env : Env α ι} {candidate : α} {st st' : State α ι σ}
  {trusted : α → Prop}

theorem empty (currency : σ) : EligibleListValid cfg (State.empty currency : State α ι σ) trusted :=
  ⟨List.Pairwise.nil, List.nodup_nil, Nat.zero_le _, fun _ h => by simp [State.empty] at h,
    fun _ h _ => by simp [State.empty] at h⟩

theorem weaken {trusted' : α → Prop} (inv : EligibleListValid cfg st trusted) (less : ∀ c, trusted' c → trusted c) :
    EligibleListValid cfg st trusted' :=
  { inv with selfDelegated := fun e he trust => inv.selfDelegated e he (less _ trust) }

theorem onlyAt (inv : EligibleListValid cfg st trusted) (moved : OnlyAt candidate st st') :
    EligibleListValid cfg st' (fun c => trusted c ∧ c ≠ candidate) where
  sorted := moved.sorted ▸ inv.sorted
  nodup := moved.sorted ▸ inv.nodup
  bounded := moved.sorted ▸ inv.bounded
  stakes e he := by
    rw [moved.sorted] at he
    rw [moved.totals]
    exact inv.stakes e he
  selfDelegated e he trust := by
    rw [moved.sorted] at he
    rw [Candidates.selfDelegationOfReads fun k => moved.others e.candidate k trust.2]
    exact inv.selfDelegated e he trust.1

theorem restore (inv : EligibleListValid cfg st (fun c => trusted c ∧ c ≠ candidate))
    (self : ∀ e ∈ st.sortedEligibleCandidates, e.candidate = candidate → trusted candidate →
      cfg.minimumSelfDelegation ≤ Candidates.selfDelegation candidate st) :
    EligibleListValid cfg st trusted :=
  { inv with
    selfDelegated := fun e he trust => by
      by_cases own : e.candidate = candidate
      · rw [own] at trust ⊢
        exact self e he own trust
      · exact inv.selfDelegated e he ⟨trust, own⟩ }

theorem removed (inv : EligibleListValid cfg st trusted) (candidate : α) :
    let removed := Candidates.removeEntry st.sortedEligibleCandidates ⟨candidate, Candidates.totalStake candidate st⟩
    removed.Sublist st.sortedEligibleCandidates ∧ ∀ x ∈ removed, x.candidate ≠ candidate :=
  ⟨Candidates.removeEntrySublist _ _, Candidates.removeEntryRemoves inv.sorted inv.nodup fun x hx same => by
    rw [inv.stakes x hx, same]; rfl⟩

theorem update {newStake : Nat} (inv : EligibleListValid cfg st trusted)
    (h : Candidates.updateTotalStake cfg env candidate newStake st = .ok st') :
    EligibleListValid cfg st' (fun c => trusted c ∨ c = candidate) := by
  obtain ⟨inserted, frame⟩ := Candidates.updateTotalStakeOk h
  obtain ⟨sub, gone⟩ := inv.removed candidate
  set removed := Candidates.removeEntry st.sortedEligibleCandidates ⟨candidate, Candidates.totalStake candidate st⟩
  have sortedRemoved : Sorted EligibleCandidate.cmp removed := inv.sorted.sublist sub
  have nodupRemoved : (removed.map (·.candidate)).Nodup := inv.nodup.sublist (sub.map _)
  have boundedRemoved : removed.length ≤ cfg.eligibleCandidatesBufferSize := sub.length_le.trans inv.bounded
  have others : ∀ c, c ≠ candidate → st'.pools c .candidateTotalStake = st.pools c .candidateTotalStake := by
    intro c other
    rw [frame]
    simp [other]
  have selfSame : ∀ c, Candidates.selfDelegation c st' = Candidates.selfDelegation c st := by
    intro c
    have same : ∀ k, k ≠ .candidateTotalStake → st'.pools c k = st.pools c k := by
      intro k other
      rw [frame]
      simp [other]
    simp only [Candidates.selfDelegation, Candidates.selfValueOfReads (same _ (by simp)) (same _ (by simp))
      (same _ (by simp))]
  have kept : ∀ x ∈ removed, x.stake = st'.pools x.candidate .candidateTotalStake ∧
      (trusted x.candidate → cfg.minimumSelfDelegation ≤ Candidates.selfDelegation x.candidate st') := by
    intro x hx
    rw [others _ (gone x hx), selfSame]
    exact ⟨inv.stakes x (sub.subset hx), inv.selfDelegated x (sub.subset hx)⟩
  rcases inserted with ⟨enough, insertedOk⟩ | onlyRemoved
  · have fresh : candidate ∉ removed.map (·.candidate) := by
      simp only [List.mem_map, not_exists, not_and]
      exact fun x hx same => gone x hx same
    refine ⟨Candidates.insertEntrySorted sortedRemoved insertedOk, Candidates.insertEntryNodup nodupRemoved fresh
      insertedOk, Candidates.insertEntryLength boundedRemoved insertedOk, fun x hx => ?_, fun x hx _ => ?_⟩ <;>
    rcases Candidates.insertEntrySubset insertedOk x hx with rfl | listed
    · rw [frame]; simp
    · exact (kept x listed).1
    · rw [selfSame]; exact enough
    · rename_i trust
      rcases trust with trust | own
      · exact (kept x listed).2 trust
      · exact absurd own (gone x listed)
  · rw [← onlyRemoved] at kept gone sortedRemoved nodupRemoved boundedRemoved
    refine ⟨sortedRemoved, nodupRemoved, boundedRemoved, fun x hx => (kept x hx).1, fun x hx trust => ?_⟩
    rcases trust with trust | own
    · exact (kept x hx).2 trust
    · exact absurd own (gone x hx)

theorem ofReads (inv : EligibleListValid cfg st trusted)
    (reads : ∀ c k, PoolsKey.eligibility k → st'.pools c k = st.pools c k)
    (sorted : st'.sortedEligibleCandidates = st.sortedEligibleCandidates) : EligibleListValid cfg st' trusted where
  sorted := sorted ▸ inv.sorted
  nodup := sorted ▸ inv.nodup
  bounded := sorted ▸ inv.bounded
  stakes e he := by
    rw [sorted] at he
    rw [reads _ _ rfl]
    exact inv.stakes e he
  selfDelegated e he trust := by
    rw [sorted] at he
    rw [Candidates.selfDelegationOfReads (reads e.candidate)]
    exact inv.selfDelegated e he trust

theorem reposition {amount : Nat} {st₁ : State α ι σ} (inv : EligibleListValid cfg st fun _ => True)
    (moved : OnlyAt candidate st st₁)
    (step : (amount = 0 ∧ st' = st₁) ∨ ∃ newStake, Candidates.updateTotalStake cfg env candidate newStake st₁ = .ok st')
    (kept : amount = 0 → Candidates.selfDelegation candidate st ≤ Candidates.selfDelegation candidate st₁) :
    EligibleListValid cfg st' fun _ => True := by
  have written := inv.onlyAt moved
  rcases step with ⟨zero, rfl⟩ | ⟨newStake, updated⟩
  · refine written.restore fun e he own _ => ?_
    rw [moved.sorted] at he
    have before := inv.selfDelegated e he trivial
    rw [own] at before
    exact before.trans (kept zero)
  · exact (written.update updated).weaken fun c _ => (em (c = candidate)).elim .inr fun other => .inl ⟨trivial, other⟩

end EligibleListValid

/- At exact prices a candidate's self-delegation is its own shares at the initial share
values: what the candidate adds or takes out of its pools moves it by exactly the stake
`add_shares` or `sub_shares` returns, and nobody else's shares move it at all. -/

section Priced
variable {cfg : Config α σ} {st st' : State α ι σ} {pool : AllTargetPool} {candidate delegator : α}

theorem Candidates.selfValueAtPrice (priced : PoolsPriced cfg st) (within : SharesWithinSupply st)
    (p : AllTargetPool) (c : α) :
    Candidates.selfValue p c st = Pool.shares p c c st * Pool.initialShareValue cfg p := by
  unfold Candidates.selfValue
  split
  · rename_i empty
    have owned := within c p {c}
    rw [Finset.sum_singleton] at owned
    simp only [Pool.sharesSupply] at empty
    have none : Pool.shares p c c st = 0 := by
      simp only [Pool.shares]
      omega
    rw [none, Nat.zero_mul]
  · rename_i staked
    simp only [Pool.totalStaked, Pool.sharesSupply] at staked ⊢
    rw [priced c p, mulPriceDiv staked]

theorem Candidates.selfDelegationAtPrice (priced : PoolsPriced cfg st) (within : SharesWithinSupply st) (c : α) :
    Candidates.selfDelegation c st =
      Pool.shares .autoCompounding c c st * Pool.initialShareValue cfg .autoCompounding +
      Pool.shares .manualRewards c c st * Pool.initialShareValue cfg .manualRewards +
      Pool.shares .joining c c st * Pool.initialShareValue cfg .joining := by
  simp only [Candidates.selfDelegation, Candidates.selfValueAtPrice priced within]

variable [DecidableEq α]

theorem Candidates.selfDelegationAddShares {shares stake : Nat} (priced : PoolsPriced cfg st)
    (within : SharesWithinSupply st) (h : Pool.addShares cfg pool candidate delegator shares st = .ok (stake, st')) :
    Candidates.selfDelegation candidate st' =
      Candidates.selfDelegation candidate st + if delegator = candidate ∧ pool ≠ .leaving then stake else 0 := by
  have priced' := priced.addShares h
  have within' := within.addShares h
  obtain ⟨-, converted, -, -, -, rfl⟩ := Pool.addSharesOk h
  have value := Pool.sharesToStakeOrInitAtPrice (priced candidate pool) converted
  rw [Candidates.selfDelegationAtPrice priced' within', Candidates.selfDelegationAtPrice priced within, value]
  by_cases own : delegator = candidate
  · subst own
    cases pool <;> simp <;> ring
  · cases pool <;> simp [own, Ne.symm own]

theorem Candidates.selfDelegationSubShares {shares stake : Nat} (priced : PoolsPriced cfg st)
    (within : SharesWithinSupply st) (h : Pool.subShares pool candidate delegator shares st = .ok (stake, st')) :
    Candidates.selfDelegation candidate st' + (if delegator = candidate ∧ pool ≠ .leaving then stake else 0) =
      Candidates.selfDelegation candidate st := by
  have priced' := priced.subShares h
  have within' := within.subShares h
  obtain ⟨-, converted, -, owned, -, rfl⟩ := Pool.subSharesOk h
  have value := Pool.sharesToStakeAtPrice (priced candidate pool) converted
  rw [Candidates.selfDelegationAtPrice priced' within', Candidates.selfDelegationAtPrice priced within, value]
  have back : ∀ price, (Pool.shares pool candidate delegator st - shares) * price + shares * price =
      Pool.shares pool candidate delegator st * price := fun price => by
    rw [← Nat.add_mul, Nat.sub_add_cancel owned]
  by_cases own : delegator = candidate
  · subst own
    simp only [Pool.shares] at back
    cases pool <;> simp <;> grind
  · cases pool <;> simp [own, Ne.symm own]

end Priced

/- Each call keeps the prices: every stake a call moves in or out of a pool is the value of
the shares moved at that price. -/

section Calls
variable [LinearOrder α] {cfg : Config α σ} {env : Env α ι} {candidate delegator : α} {st st' : State α ι σ}

namespace PoolsPriced

theorem executeJoining {pool : TargetPool} {joiningShares : Nat} (inv : PoolsPriced cfg st)
    (h : Calls.executeJoining cfg env candidate delegator pool joiningShares st = .ok st') : PoolsPriced cfg st' := by
  obtain ⟨stake, subtracted, released, claimed, shares, hsub, hreleased, hclaimed, -, rest, -⟩ :=
    Calls.executeJoiningOk h
  have claimedInv := (inv.subShares hsub).ofKeeps
    ((Keeps.decreaseHold rfl hreleased).trans (Keeps.ofClaim (Calls.claimIfManualOk hclaimed) fun _ => rfl))
  rcases rest with ⟨-, currency, -, final⟩ | ⟨-, actuallyStaked, added, held, currency, hadded, hheld, -, -, final⟩
  · exact claimedInv.ofKeeps ((Keeps.setCurrency currency).trans (Keeps.subTotalStake rfl final))
  · exact (claimedInv.addShares hadded).ofKeeps
      (((Keeps.increaseHold rfl hheld).trans (Keeps.setCurrency currency)).trans (Keeps.subTotalStake rfl final))

theorem executeLeaving {leavingShares : Nat} (inv : PoolsPriced cfg st)
    (h : Calls.executeLeaving cfg candidate delegator leavingShares st = .ok st') : PoolsPriced cfg st' := by
  obtain ⟨stake, subtracted, released, currency, hsub, hreleased, -, rfl⟩ := Calls.executeLeavingOk h
  exact (inv.subShares hsub).ofKeeps ((Keeps.decreaseHold rfl hreleased).trans (Keeps.setCurrency currency))

variable [DecidableEq ι]

theorem requestDelegate {pool : TargetPool} {amount : Nat} (inv : PoolsPriced cfg st)
    (h : Calls.requestDelegate cfg env candidate delegator pool amount st = .ok st') : PoolsPriced cfg st' := by
  obtain ⟨shares, stake, added, currency, held, updated, hadded, -, hheld, hupdated, -, rfl, -⟩ :=
    Calls.requestDelegateOk h
  have kept : Keeps PoolsKey.priced added updated :=
    ((Keeps.setCurrency currency).trans (Keeps.increaseHold rfl hheld)).trans (Keeps.addTotalStake rfl hupdated)
  exact ((inv.addShares hadded).ofKeeps kept).ofPools (State.setPendingPools _ _ _ _)

theorem requestUndelegate {pool : TargetPool} {amount : SharesOrStake} (inv : PoolsPriced cfg st)
    (h : Calls.requestUndelegate cfg env candidate delegator pool amount st = .ok st') : PoolsPriced cfg st' := by
  obtain ⟨shares, claimed, rebalanced, removed, subtracted, released, updated, leavingShares, leavingStake, added,
    held, queued, hclaimed, hrebalanced, hsub, hreleased, hupdated, hadded, hheld, -, hqueued, -, final, -⟩ :=
    Calls.requestUndelegateOk h
  have rebalancedKept : Keeps PoolsKey.priced claimed rebalanced := by
    rcases hrebalanced with rfl | hrebalanced
    · exact .refl _
    · exact Keeps.rebalanceHold rfl hrebalanced
  have subtractedInv := (inv.ofKeeps ((Keeps.ofClaim (Calls.claimIfManualOk hclaimed) fun _ => rfl).trans
    rebalancedKept)).subShares hsub
  have updatedInv := subtractedInv.ofKeeps ((Keeps.decreaseHold rfl hreleased).trans (Keeps.subTotalStake rfl hupdated))
  have queuedInv : PoolsPriced cfg queued := by
    rw [hqueued]
    exact ((updatedInv.addShares hadded).ofKeeps (Keeps.increaseHold rfl hheld)).ofPools (State.setPendingPools _ _ _ _)
  rcases final with ⟨-, rfl⟩ | ⟨-, currency, -, rfl⟩
  · exact queuedInv
  · exact queuedInv.ofKeeps (.setCurrency currency)

theorem executePendingOperations {index : Nat} {queries : List (PendingOperationQuery α ι)}
    (inv : PoolsPriced cfg st) (h : Calls.executePendingOperations cfg env index queries st = .ok st') :
    PoolsPriced cfg st' := by
  refine Calls.executePendingOperationsInduct (PoolsPriced cfg)
    (fun index delegator operation st st' inv _ executed => ?_) inv h
  refine PoolsPriced.ofPools ?_ (State.setPendingPools _ _ _ _)
  rcases Calls.executeOperationOk executed with ⟨_, _, _, -, joined⟩ | ⟨_, _, -, left⟩
  · exact inv.executeJoining joined
  · exact inv.executeLeaving left

theorem dispatch {origin : RawOrigin α} {call : Call α ι} (inv : PoolsPriced cfg st)
    (h : PooledStaking.dispatch cfg env origin call st = .ok st') : PoolsPriced cfg st' := by
  unfold PooledStaking.dispatch at h
  split at h
  · cases h
  · cases call with
    | rebalanceHold => exact inv.ofKeeps (Keeps.rebalanceHold rfl h)
    | requestDelegate => exact inv.requestDelegate h
    | executePendingOperations => exact inv.executePendingOperations h
    | requestUndelegate => exact inv.requestUndelegate h
    | claimManualRewards => exact inv.ofKeeps (Keeps.ofClaim (Calls.claimManualRewardsOk h) fun _ => rfl)
    | updateCandidatePosition => exact inv.ofKeeps (Keeps.updateCandidatePosition rfl h)

theorem reachable (reach : Reachable cfg st) : PoolsPriced cfg st := by
  induction reach with
  | empty => exact empty _
  | call env origin call _ dispatched inv => exact inv.dispatch dispatched

end PoolsPriced

/- Each call keeps the list valid. A call on a candidate writes that candidate's pools and
then re-places it; where the amount is zero and the update is skipped, the prices show
that its self-delegation has not dropped. -/

namespace EligibleListValid

theorem executeLeaving {trusted : α → Prop} {leavingShares : Nat} (inv : EligibleListValid cfg st trusted)
    (h : Calls.executeLeaving cfg candidate delegator leavingShares st = .ok st') : EligibleListValid cfg st' trusted := by
  obtain ⟨stake, subtracted, released, currency, hsub, hreleased, -, rfl⟩ := Calls.executeLeavingOk h
  have kept : Keeps PoolsKey.eligibility st (released.setCurrency currency) :=
    ((Keeps.subShares ⟨rfl, rfl, rfl⟩ hsub).trans (Keeps.decreaseHold rfl hreleased)).trans (.setCurrency currency)
  refine inv.ofReads kept.pools ?_
  rw [State.setCurrencySorted, Pool.decreaseHoldSorted hreleased, Pool.subSharesSorted hsub]

theorem executeJoining {pool : TargetPool} {joiningShares : Nat} (inv : EligibleListValid cfg st fun _ => True)
    (priced : PoolsPriced cfg st) (within : SharesWithinSupply st)
    (h : Calls.executeJoining cfg env candidate delegator pool joiningShares st = .ok st') :
    EligibleListValid cfg st' fun _ => True := by
  obtain ⟨stake, subtracted, released, claimed, shares, hsub, hreleased, hclaimed, -, rest, -⟩ :=
    Calls.executeJoiningOk h
  have claimEffect := Calls.claimIfManualOk hclaimed
  have claimedKept : ∀ {keys : PoolsKey α → Bool}, (∀ d, keys (.manualRewardsCheckpoint d) = false) →
      keys (.sharesHeldStake .joining delegator) = false → Keeps keys subtracted claimed :=
    fun checkpoints held => (Keeps.decreaseHold held hreleased).trans (Keeps.ofClaim claimEffect checkpoints)
  have moved : OnlyAt candidate st claimed :=
    (OnlyAt.subShares hsub).trans ((OnlyAt.decreaseHold hreleased).trans (OnlyAt.ofClaim claimEffect))
  have subtractedSelf := Candidates.selfDelegationSubShares priced within hsub
  rw [← Candidates.selfDelegationOfReads ((claimedKept (fun _ => rfl) rfl).pools candidate)] at subtractedSelf
  rcases rest with ⟨-, currency, -, final⟩ | ⟨-, actuallyStaked, added, held, currency, hadded, hheld, le, -, final⟩
  · refine inv.reposition (moved.trans (.setCurrency currency)) (Candidates.subTotalStakeSteps final) fun zero => ?_
    rw [Candidates.selfDelegationOfReads ((Keeps.setCurrency currency).pools candidate)]
    simp only [zero, ite_self, Nat.add_zero] at subtractedSelf
    exact subtractedSelf.ge
  · have addedSelf := Candidates.selfDelegationAddShares ((priced.subShares hsub).ofKeeps (claimedKept (fun _ => rfl) rfl))
      ((within.subShares hsub).ofKeeps (claimedKept (fun _ => rfl) rfl)) hadded
    have heldKept : Keeps PoolsKey.eligibility added (held.setCurrency currency) :=
      (Keeps.increaseHold rfl hheld).trans (.setCurrency currency)
    refine inv.reposition (((moved.trans (.addShares hadded)).trans (.increaseHold hheld)).trans (.setCurrency currency))
      (Candidates.subTotalStakeSteps final) fun zero => ?_
    have counted : pool.toAll ≠ .leaving := by cases pool <;> decide
    rw [Candidates.selfDelegationOfReads (heldKept.pools candidate), addedSelf]
    simp only [counted, ne_eq, reduceCtorEq, not_false_eq_true, and_true] at subtractedSelf ⊢
    split_ifs at subtractedSelf ⊢ <;> omega

theorem updateCandidatePosition {candidates : List α} (inv : EligibleListValid cfg st fun _ => True)
    (h : Calls.updateCandidatePosition cfg env candidates st = .ok st') : EligibleListValid cfg st' fun _ => True :=
  Calls.updateCandidatePositionInduct (fun st => EligibleListValid cfg st fun _ => True)
    (fun _ _ _ inv updated => (inv.update updated).weaken fun _ _ => .inl trivial) inv h

theorem executeOperation {index value : Nat} {operation : PendingOperationKey α ι}
    (inv : EligibleListValid cfg st fun _ => True) (priced : PoolsPriced cfg st) (within : SharesWithinSupply st)
    (h : Calls.executeOperation cfg env index delegator value operation st = .ok st') :
    (EligibleListValid cfg st' fun _ => True) ∧ PoolsPriced cfg st' ∧ SharesWithinSupply st' := by
  rcases Calls.executeOperationOk h with ⟨_, _, _, -, joined⟩ | ⟨_, _, -, left⟩
  · exact ⟨inv.executeJoining priced within joined, priced.executeJoining joined, within.executeJoining joined⟩
  · obtain ⟨stake, subtracted, released, currency, hsub, hreleased, -, rfl⟩ := Calls.executeLeavingOk left
    exact ⟨inv.executeLeaving left, priced.executeLeaving left, (within.subShares hsub).ofKeeps
      ((Keeps.decreaseHold rfl hreleased).trans (Keeps.setCurrency currency))⟩

variable [DecidableEq ι]

theorem executeRound {index value : Nat} {operation : PendingOperationKey α ι}
    (inv : EligibleListValid cfg st fun _ => True) (priced : PoolsPriced cfg st) (within : SharesWithinSupply st)
    (h : Calls.executeOperation cfg env index delegator value operation st = .ok st') :
    let cleared := st'.setPending delegator operation 0
    (EligibleListValid cfg cleared fun _ => True) ∧ PoolsPriced cfg cleared ∧ SharesWithinSupply cleared := by
  obtain ⟨list, priced, within⟩ := inv.executeOperation priced within h
  exact ⟨list.ofReads (fun _ _ _ => rfl) rfl, priced.ofPools (State.setPendingPools _ _ _ _),
    within.ofPools (State.setPendingPools _ _ _ _)⟩

theorem requestDelegate {pool : TargetPool} {amount : Nat} (inv : EligibleListValid cfg st fun _ => True)
    (priced : PoolsPriced cfg st) (within : SharesWithinSupply st)
    (h : Calls.requestDelegate cfg env candidate delegator pool amount st = .ok st') :
    EligibleListValid cfg st' fun _ => True := by
  obtain ⟨shares, stake, added, currency, held, updated, hadded, -, hheld, hupdated, -, rfl, -⟩ :=
    Calls.requestDelegateOk h
  have heldKept : Keeps PoolsKey.eligibility added held :=
    (Keeps.setCurrency currency).trans (Keeps.increaseHold rfl hheld)
  have repositioned : EligibleListValid cfg updated fun _ => True := by
    refine inv.reposition ((OnlyAt.addShares hadded).trans ((OnlyAt.setCurrency currency).trans
      (OnlyAt.increaseHold hheld))) (Candidates.addTotalStakeSteps hupdated) fun _ => ?_
    rw [Candidates.selfDelegationOfReads (heldKept.pools candidate), Candidates.selfDelegationAddShares priced within hadded]
    exact Nat.le_add_right _ _
  exact repositioned.ofReads (fun _ _ _ => rfl) rfl

theorem requestUndelegate {pool : TargetPool} {amount : SharesOrStake} (inv : EligibleListValid cfg st fun _ => True)
    (priced : PoolsPriced cfg st) (within : SharesWithinSupply st)
    (h : Calls.requestUndelegate cfg env candidate delegator pool amount st = .ok st') :
    EligibleListValid cfg st' fun _ => True := by
  obtain ⟨shares, claimed, rebalanced, removed, subtracted, released, updated, leavingShares, leavingStake, added,
    held, queued, hclaimed, hrebalanced, hsub, hreleased, hupdated, hadded, hheld, -, hqueued, -, final, -⟩ :=
    Calls.requestUndelegateOk h
  have claimEffect := Calls.claimIfManualOk hclaimed
  have rebalancedKept : ∀ {keys : PoolsKey α → Bool}, (∀ d, keys (.manualRewardsCheckpoint d) = false) →
      keys (.sharesHeldStake pool.toAll delegator) = false → Keeps keys st rebalanced := by
    intro keys checkpoints held
    refine (Keeps.ofClaim claimEffect checkpoints).trans ?_
    rcases hrebalanced with rfl | hrebalanced
    · exact .refl _
    · exact Keeps.rebalanceHold held hrebalanced
  have rebalancedSorted : rebalanced.sortedEligibleCandidates = st.sortedEligibleCandidates := by
    rcases hrebalanced with rfl | hrebalanced
    · exact claimEffect.sorted
    · rw [Calls.rebalanceHoldSorted hrebalanced, claimEffect.sorted]
  have rebalancedInv := inv.ofReads (rebalancedKept (fun _ => rfl) rfl).pools rebalancedSorted
  have updatedInv : EligibleListValid cfg updated fun _ => True := by
    refine rebalancedInv.reposition ((OnlyAt.subShares hsub).trans (OnlyAt.decreaseHold hreleased))
      (Candidates.subTotalStakeSteps hupdated) fun zero => ?_
    have subtractedSelf := Candidates.selfDelegationSubShares (priced.ofKeeps (rebalancedKept (fun _ => rfl) rfl))
      (within.ofKeeps (rebalancedKept (fun _ => rfl) rfl)) hsub
    rw [Candidates.selfDelegationOfReads ((Keeps.decreaseHold rfl hreleased).pools candidate)]
    simp only [zero, ite_self, Nat.add_zero] at subtractedSelf
    exact subtractedSelf.ge
  have heldInv : EligibleListValid cfg held fun _ => True := by
    refine updatedInv.ofReads ((Keeps.addShares ⟨rfl, rfl, rfl⟩ hadded).trans (Keeps.increaseHold rfl hheld)).pools ?_
    rw [Pool.increaseHoldSorted hheld, Pool.addSharesSorted hadded]
  have queuedInv : EligibleListValid cfg queued fun _ => True := by
    rw [hqueued]
    exact heldInv.ofReads (fun _ _ _ => rfl) rfl
  rcases final with ⟨-, rfl⟩ | ⟨-, currency, -, rfl⟩
  · exact queuedInv
  · exact queuedInv.ofReads (fun _ _ _ => rfl) rfl

theorem executePendingOperations {index : Nat} {queries : List (PendingOperationQuery α ι)}
    (inv : EligibleListValid cfg st fun _ => True) (priced : PoolsPriced cfg st) (within : SharesWithinSupply st)
    (h : Calls.executePendingOperations cfg env index queries st = .ok st') :
    EligibleListValid cfg st' fun _ => True := by
  exact (Calls.executePendingOperationsInduct
    (fun st => EligibleListValid cfg st (fun _ => True) ∧ PoolsPriced cfg st ∧ SharesWithinSupply st)
    (fun _ _ _ _ _ inv _ executed => inv.1.executeRound inv.2.1 inv.2.2 executed) ⟨inv, priced, within⟩ h).1

theorem dispatch {origin : RawOrigin α} {call : Call α ι} (inv : EligibleListValid cfg st fun _ => True)
    (priced : PoolsPriced cfg st) (within : SharesWithinSupply st)
    (h : PooledStaking.dispatch cfg env origin call st = .ok st') : EligibleListValid cfg st' fun _ => True := by
  unfold PooledStaking.dispatch at h
  split at h
  · cases h
  · cases call with
    | rebalanceHold => exact inv.ofReads (Keeps.rebalanceHold rfl h).pools (Calls.rebalanceHoldSorted h)
    | requestDelegate => exact inv.requestDelegate priced within h
    | executePendingOperations => exact inv.executePendingOperations priced within h
    | requestUndelegate => exact inv.requestUndelegate priced within h
    | claimManualRewards =>
      exact inv.ofReads (Keeps.ofClaim (Calls.claimManualRewardsOk h) fun _ => rfl).pools
        (Calls.claimManualRewardsOk h).sorted
    | updateCandidatePosition => exact inv.updateCandidatePosition h

theorem reachable (reach : Reachable cfg st) : EligibleListValid cfg st fun _ => True := by
  induction reach with
  | empty => exact empty _
  | call env origin call before dispatched inv =>
    exact inv.dispatch (PoolsPriced.reachable before) (SharesWithinSupply.reachable before) dispatched

end EligibleListValid
end Calls

end Tanssi.PooledStaking
