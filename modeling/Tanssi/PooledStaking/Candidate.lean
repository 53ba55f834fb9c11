import Tanssi.PooledStaking.Pools

/-! `candidate.rs`: a candidate's total stake, and its entry in `SortedEligibleCandidates`,
which `update_total_stake` moves each time the total is written. The entry at the old
stake is looked up by binary search and removed; an entry at the new stake is inserted,
by a second binary search, if the candidate's self-delegation reaches
`MinimumSelfDelegation`, it passes the eligibility filter and its position is within the
buffer. -/
namespace Tanssi.PooledStaking
open Frame BinarySearch
open scoped List

variable {α ι σ : Type}

abbrev Entry (α : Type) := EligibleCandidate α Nat

def State.setSorted (st : State α ι σ) (list : List (Entry α)) : State α ι σ :=
  { st with sortedEligibleCandidates := list }

@[simp] theorem State.setSortedSorted (st : State α ι σ) (list : List (Entry α)) :
    (st.setSorted list).sortedEligibleCandidates = list := rfl

@[simp] theorem State.setSortedPools (st : State α ι σ) (list : List (Entry α)) :
    (st.setSorted list).pools = st.pools := rfl

@[simp] theorem State.setSortedPending (st : State α ι σ) (list : List (Entry α)) :
    (st.setSorted list).pendingOperations = st.pendingOperations := rfl

@[simp] theorem State.setSortedCurrency (st : State α ι σ) (list : List (Entry α)) :
    (st.setSorted list).currency = st.currency := rfl

@[simp] theorem State.setSortedEvents (st : State α ι σ) (list : List (Entry α)) :
    (st.setSorted list).events = st.events := rfl

@[simp] theorem State.setSortedSame (st : State α ι σ) : st.setSorted st.sortedEligibleCandidates = st := rfl

variable [LinearOrder α]

namespace Candidates

def totalStake (candidate : α) (st : State α ι σ) : Nat := st.pools candidate .candidateTotalStake

/-- One term of the self-delegation (`ac_self`, `mr_self`, `joining_self`): the value of
the candidate's own shares in a pool, zero when the pool has no shares. -/
def selfStake (pool : AllTargetPool) (candidate : α) (st : State α ι σ) : Except DispatchError Nat :=
  if Pool.sharesSupply pool candidate st = 0 then pure 0
  else Pool.sharesToStake pool candidate (Pool.shares pool candidate candidate st) st

/-- `binary_search` for the entry at the old stake, and `remove` where it is found. -/
def removeEntry (list : List (Entry α)) (entry : Entry α) : List (Entry α) :=
  match binarySearch EligibleCandidate.cmp list entry with
  | .ok pos => list.eraseIdx pos
  | .error _ => list

/-- `binary_search(&entry).expect_err(..)`, then `insert` and `truncate` to the buffer
size, unless the position is already past the buffer. -/
def insertEntry (bufferSize : Nat) (list : List (Entry α)) (entry : Entry α) :
    Except DispatchError (List (Entry α)) :=
  match binarySearch EligibleCandidate.cmp list entry with
  | .ok _ => throw .panic
  | .error pos =>
    if bufferSize ≤ pos then pure list
    else pure ((list.insertIdx pos entry).take bufferSize)

def updateTotalStake (cfg : Config α σ) (env : Env α ι) (candidate : α) (newStake : Nat)
    (st : State α ι σ) : Except DispatchError (State α ι σ) := do
  let stakeBefore := st.pools candidate .candidateTotalStake
  let st := st.setPool candidate .candidateTotalStake newStake
  let acSelf ← selfStake .autoCompounding candidate st
  let mrSelf ← selfStake .manualRewards candidate st
  let joiningSelf ← selfStake .joining candidate st
  let selfDelegation ← errAdd (← errAdd acSelf mrSelf) joiningSelf
  let list := removeEntry st.sortedEligibleCandidates ⟨candidate, stakeBefore⟩
  let eligible := decide (cfg.minimumSelfDelegation ≤ selfDelegation) && env.isCandidateEligible candidate
  let list ← (if eligible then insertEntry cfg.eligibleCandidatesBufferSize list ⟨candidate, newStake⟩
    else pure list)
  pure (st.setSorted list)

def addTotalStake (cfg : Config α σ) (env : Env α ι) (candidate : α) (stake : Nat) (st : State α ι σ) :
    Except DispatchError (State α ι σ) :=
  if stake = 0 then pure st else do
    let newStake ← errAdd (totalStake candidate st) stake
    updateTotalStake cfg env candidate newStake st

def subTotalStake (cfg : Config α σ) (env : Env α ι) (candidate : α) (stake : Nat) (st : State α ι σ) :
    Except DispatchError (State α ι σ) :=
  if stake = 0 then pure st else do
    let newStake ← errSub (totalStake candidate st) stake
    updateTotalStake cfg env candidate newStake st

/- The two list operations. On a strictly increasing list without a repeated candidate,
where the candidate's entry (if any) is at the stake looked up, removal takes the
candidate out, and insertion of an absent entry never panics and keeps the list strictly
increasing, without repeats and within the buffer. -/

theorem removeEntrySublist (list : List (Entry α)) (entry : Entry α) : removeEntry list entry <+ list := by
  unfold removeEntry
  split
  · exact List.eraseIdx_sublist _ _
  · exact List.Sublist.refl _

theorem removeEntryRemoves {list : List (Entry α)} {entry : Entry α}
    (sorted : Sorted EligibleCandidate.cmp list) (nodup : (list.map (·.candidate)).Nodup)
    (agree : ∀ x ∈ list, x.candidate = entry.candidate → x.stake = entry.stake) :
    ∀ x ∈ removeEntry list entry, x.candidate ≠ entry.candidate := by
  intro x hx same
  have listed : x ∈ list := (removeEntrySublist list entry).subset hx
  have isEntry : x = entry := by
    have stakes := agree x listed same
    obtain ⟨c, s⟩ := x
    obtain ⟨c', s'⟩ := entry
    simp only at same stakes
    subst same stakes
    rfl
  subst isEntry
  obtain ⟨pos, found, at_⟩ := binarySearchMem sorted listed
  have pos_lt : pos < list.length := (List.getElem?_eq_some_iff.1 at_).1
  have erased : list.erase x = list.eraseIdx pos := by
    rw [← List.Nodup.erase_getElem (nodup.of_map _) pos pos_lt]
    congr
    exact ((List.getElem?_eq_some_iff.1 at_).2).symm
  simp only [removeEntry, found, ← erased] at hx
  exact ((List.Nodup.mem_erase_iff (nodup.of_map _)).1 hx).1 rfl

theorem insertEntryNoPanic {bufferSize : Nat} {list : List (Entry α)} {entry : Entry α}
    (absent : entry ∉ list) : insertEntry bufferSize list entry ≠ .error .panic := by
  unfold insertEntry
  split
  · rename_i pos found
    obtain ⟨y, at_, equal⟩ := binarySearchOk found
    rw [Std.LawfulEqCmp.compare_eq_iff_eq] at equal
    exact absurd (equal ▸ List.mem_of_getElem? at_) absent
  · split <;> intro h <;> cases h

theorem insertEntryOk {bufferSize : Nat} {list list' : List (Entry α)} {entry : Entry α}
    (h : insertEntry bufferSize list entry = .ok list') :
    ∃ pos, binarySearch EligibleCandidate.cmp list entry = .error pos ∧
      (bufferSize ≤ pos ∧ list' = list ∨ pos < bufferSize ∧ list' = (list.insertIdx pos entry).take bufferSize) := by
  unfold insertEntry at h
  split at h
  · cases h
  · rename_i pos found
    refine ⟨pos, found, ?_⟩
    split at h
    · exact .inl ⟨by omega, (pureEqOk.1 h).symm⟩
    · exact .inr ⟨by omega, (pureEqOk.1 h).symm⟩

theorem insertEntrySorted {bufferSize : Nat} {list list' : List (Entry α)} {entry : Entry α}
    (sorted : Sorted EligibleCandidate.cmp list) (h : insertEntry bufferSize list entry = .ok list') :
    Sorted EligibleCandidate.cmp list' := by
  obtain ⟨pos, found, ⟨-, rfl⟩ | ⟨-, rfl⟩⟩ := insertEntryOk h
  · exact sorted
  · exact (insertIdxSorted sorted found).sublist (List.take_sublist _ _)

theorem insertEntryNodup {bufferSize : Nat} {list list' : List (Entry α)} {entry : Entry α}
    (nodup : (list.map (·.candidate)).Nodup) (fresh : entry.candidate ∉ list.map (·.candidate))
    (h : insertEntry bufferSize list entry = .ok list') : (list'.map (·.candidate)).Nodup := by
  obtain ⟨pos, found, ⟨-, rfl⟩ | ⟨-, rfl⟩⟩ := insertEntryOk h
  · exact nodup
  · have inserted : ((list.insertIdx pos entry).map (·.candidate)).Nodup := by
      rw [((List.perm_insertIdx entry list (binarySearchErrorBound found)).map _).nodup_iff]
      exact List.nodup_cons.2 ⟨fresh, nodup⟩
    exact inserted.sublist ((List.take_sublist _ _).map _)

theorem insertEntryLength {bufferSize : Nat} {list list' : List (Entry α)} {entry : Entry α}
    (bounded : list.length ≤ bufferSize) (h : insertEntry bufferSize list entry = .ok list') :
    list'.length ≤ bufferSize := by
  obtain ⟨pos, found, ⟨-, rfl⟩ | ⟨-, rfl⟩⟩ := insertEntryOk h
  · exact bounded
  · simp

theorem insertEntrySubset {bufferSize : Nat} {list list' : List (Entry α)} {entry : Entry α}
    (h : insertEntry bufferSize list entry = .ok list') : ∀ x ∈ list', x = entry ∨ x ∈ list := by
  obtain ⟨pos, found, ⟨-, rfl⟩ | ⟨-, rfl⟩⟩ := insertEntryOk h
  · exact fun x hx => .inr hx
  · intro x hx
    exact (List.mem_insertIdx (binarySearchErrorBound found)).1 (List.mem_of_mem_take hx)

/- Besides the list, `update_total_stake` writes the candidate's total and nothing else. -/

variable {cfg : Config α σ} {env : Env α ι} {candidate : α} {st st' : State α ι σ}

theorem updateTotalStakeFrame {newStake : Nat} (h : updateTotalStake cfg env candidate newStake st = .ok st') :
    st' = (st.setPool candidate .candidateTotalStake newStake).setSorted st'.sortedEligibleCandidates := by
  simp only [updateTotalStake, bindEqOk, pureEqOk] at h
  obtain ⟨-, -, -, -, -, -, -, -, -, -, list, -, rfl⟩ := h
  rfl

theorem addTotalStakeFrame {stake : Nat} (h : addTotalStake cfg env candidate stake st = .ok st') :
    (stake = 0 ∨ totalStake candidate st + stake < balanceBound) ∧
      st' = (st.setPool candidate .candidateTotalStake (totalStake candidate st + stake)).setSorted
        st'.sortedEligibleCandidates := by
  unfold addTotalStake at h
  split at h
  · rename_i zero
    subst zero
    cases pureEqOk.1 h
    simp [totalStake]
  · simp only [bindEqOk, errAddOk] at h
    obtain ⟨_, ⟨bound, rfl⟩, updated⟩ := h
    exact ⟨.inr bound, updateTotalStakeFrame updated⟩

theorem subTotalStakeFrame {stake : Nat} (h : subTotalStake cfg env candidate stake st = .ok st') :
    stake ≤ totalStake candidate st ∧
      st' = (st.setPool candidate .candidateTotalStake (totalStake candidate st - stake)).setSorted
        st'.sortedEligibleCandidates := by
  unfold subTotalStake at h
  split at h
  · rename_i zero
    subst zero
    cases pureEqOk.1 h
    simp [totalStake]
  · simp only [bindEqOk, errSubOk] at h
    obtain ⟨_, ⟨le, rfl⟩, updated⟩ := h
    exact ⟨le, updateTotalStakeFrame updated⟩

end Candidates
end Tanssi.PooledStaking
