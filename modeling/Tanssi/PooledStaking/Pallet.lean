import Tanssi.Frame
import Tanssi.BinarySearch

/-! The storage, configuration and errors of `pallet_pooled_staking`, and the checked
`u128` arithmetic of its `traits.rs`. Storage maps with `ValueQuery` are total
functions with default `0`. The pool keys of `PoolsKey` that the `impl_pool!` family
declares once per pool carry the pool as a parameter here: `JoiningShares { delegator }`
is `shares .joining delegator`, and so on. Of the events only `ClaimedManualRewards` is
kept, as the record of the rewards paid out; weights are left out. -/
namespace Tanssi.PooledStaking

/-- `EligibleCandidate` of `candidate.rs`. -/
structure EligibleCandidate (κ σ : Type) where
  candidate : κ
  stake : σ
  deriving DecidableEq, Repr

namespace EligibleCandidate
variable {κ σ : Type} [LinearOrder κ] [LinearOrder σ]

/-- `Ord for EligibleCandidate`: the larger stake first, then the smaller account. -/
def cmp (a b : EligibleCandidate κ σ) : Ordering :=
  (compare a.stake b.stake).swap.then (compare a.candidate b.candidate)

theorem cmpEqCompareLex :
    (cmp : EligibleCandidate κ σ → EligibleCandidate κ σ → Ordering) =
      compareLex (fun a b => compareOn (·.stake) b a) (compareOn (·.candidate)) := by
  funext a b
  have reversed : (compare a.stake b.stake).swap = compare b.stake a.stake :=
    Std.OrientedCmp.eq_swap.symm
  simp only [cmp, compareLex, compareOn, reversed]

instance : Std.TransCmp (cmp : EligibleCandidate κ σ → EligibleCandidate κ σ → Ordering) := by
  rw [cmpEqCompareLex]; infer_instance

instance : Std.LawfulEqCmp (cmp : EligibleCandidate κ σ → EligibleCandidate κ σ → Ordering) where
  compare_self := by intro a; simp [cmp]
  eq_of_compare := by
    intro a b h
    simp only [cmp, Ordering.then_eq_eq, Ordering.swap_eq_eq, compare_eq_iff_eq] at h
    cases a; cases b
    simp_all

end EligibleCandidate

inductive TargetPool where
  | autoCompounding
  | manualRewards
  deriving DecidableEq, Repr

inductive AllTargetPool where
  | joining
  | autoCompounding
  | manualRewards
  | leaving
  deriving DecidableEq, Repr

instance : Fintype AllTargetPool :=
  ⟨{.joining, .autoCompounding, .manualRewards, .leaving}, by intro p; cases p <;> simp⟩

/-- `From<TargetPool> for AllTargetPool`. -/
def TargetPool.toAll : TargetPool → AllTargetPool
  | .autoCompounding => .autoCompounding
  | .manualRewards => .manualRewards

inductive PoolsKey (α : Type) where
  | candidateTotalStake
  | shares (pool : AllTargetPool) (delegator : α)
  | sharesSupply (pool : AllTargetPool)
  | sharesTotalStaked (pool : AllTargetPool)
  | sharesHeldStake (pool : AllTargetPool) (delegator : α)
  | manualRewardsCounter
  | manualRewardsCheckpoint (delegator : α)
  deriving DecidableEq, Repr

/-- `PendingOperationKey`; the instant field `at` is called `instant`. -/
inductive PendingOperationKey (α ι : Type) where
  | joiningAutoCompounding (candidate : α) (instant : ι)
  | joiningManualRewards (candidate : α) (instant : ι)
  | leaving (candidate : α) (instant : ι)
  deriving DecidableEq, Repr

structure PendingOperationQuery (α ι : Type) where
  delegator : α
  operation : PendingOperationKey α ι
  deriving DecidableEq, Repr

inductive SharesOrStake where
  | shares (amount : Nat)
  | stake (amount : Nat)
  deriving DecidableEq, Repr

/-- The variants of `Error<T>` that the modelled calls return. -/
inductive Error where
  | invalidPalletSetting
  | noOneIsStaking
  | stakeMustBeNonZero
  | mathUnderflow
  | mathOverflow
  | inconsistentState
  | requestCannotBeExecuted (index : Nat)
  deriving DecidableEq, Repr

/-- Why a call fails. A failed `expect` is a panic, which aborts the block. -/
inductive DispatchError where
  | module (e : Error)
  | badOrigin
  | currency
  | panic
  deriving DecidableEq, Repr

/-- `T::Currency` under `T::CurrencyHoldReason`: `hold`, `release` with `Precision::Exact`
and `transfer` with `Preservation::Preserve` each succeed with a new currency state or
fail, and `balance_on_hold` reads the amount on hold. It lives in `pallet_balances`. -/
structure Currency (α σ : Type) where
  hold : α → Nat → σ → Option σ
  release : α → Nat → σ → Option σ
  transfer : α → α → Nat → σ → Option σ
  balanceOnHold : α → σ → Nat

/-- The `Config` constants the calls read. The two timers use the same `Instant` type,
as both are `SessionTimer` in the runtime. -/
structure Config (α σ : Type) where
  currency : Currency α σ
  stakingAccount : α
  initialManualClaimShareValue : Nat
  initialAutoCompoundingShareValue : Nat
  minimumSelfDelegation : Nat
  eligibleCandidatesBufferSize : Nat

/-- What the runtime answers during a call: `now` and `is_elapsed` of both timers, and
`EligibleCandidatesFilter`. They may be anything from one call to the next. -/
structure Env (α ι : Type) where
  joiningNow : ι
  leavingNow : ι
  joiningElapsed : ι → Bool
  leavingElapsed : ι → Bool
  isCandidateEligible : α → Bool

/-- The variant of `Event<T>` that the model deposits. -/
inductive Event (α : Type) where
  | claimedManualRewards (candidate delegator : α) (rewards : Nat)
  deriving DecidableEq, Repr

structure State (α ι σ : Type) where
  sortedEligibleCandidates : List (EligibleCandidate α Nat)
  pools : α → PoolsKey α → Nat
  pendingOperations : α → PendingOperationKey α ι → Nat
  currency : σ
  events : List (Event α)

namespace State
variable {α ι σ : Type} [DecidableEq α]

def empty (currency : σ) : State α ι σ := ⟨[], fun _ _ => 0, fun _ _ => 0, currency, []⟩

def setPool (st : State α ι σ) (c : α) (k : PoolsKey α) (v : Nat) : State α ι σ :=
  { st with pools := Function.update st.pools c (Function.update (st.pools c) k v) }

@[simp] theorem setPoolPools (st : State α ι σ) (c c' : α) (k k' : PoolsKey α) (v : Nat) :
    (st.setPool c k v).pools c' k' = if c' = c ∧ k' = k then v else st.pools c' k' := by
  by_cases hc : c' = c
  · subst hc; by_cases hk : k' = k <;> simp [setPool, hk]
  · simp [setPool, hc]

@[simp] theorem setPoolSame (st : State α ι σ) (c : α) (k : PoolsKey α) : st.setPool c k (st.pools c k) = st := by
  simp [setPool]

@[simp] theorem setPoolSorted (st : State α ι σ) (c : α) (k : PoolsKey α) (v : Nat) :
    (st.setPool c k v).sortedEligibleCandidates = st.sortedEligibleCandidates := rfl

@[simp] theorem setPoolPending (st : State α ι σ) (c : α) (k : PoolsKey α) (v : Nat) :
    (st.setPool c k v).pendingOperations = st.pendingOperations := rfl

@[simp] theorem setPoolCurrency (st : State α ι σ) (c : α) (k : PoolsKey α) (v : Nat) :
    (st.setPool c k v).currency = st.currency := rfl

@[simp] theorem setPoolEvents (st : State α ι σ) (c : α) (k : PoolsKey α) (v : Nat) :
    (st.setPool c k v).events = st.events := rfl

/-- `deposit_event`. -/
def depositEvent (st : State α ι σ) (event : Event α) : State α ι σ := { st with events := st.events ++ [event] }

omit [DecidableEq α] in
@[simp] theorem depositEventPools (st : State α ι σ) (event : Event α) : (st.depositEvent event).pools = st.pools := rfl

omit [DecidableEq α] in
@[simp] theorem depositEventPending (st : State α ι σ) (event : Event α) :
    (st.depositEvent event).pendingOperations = st.pendingOperations := rfl

omit [DecidableEq α] in
@[simp] theorem depositEventSorted (st : State α ι σ) (event : Event α) :
    (st.depositEvent event).sortedEligibleCandidates = st.sortedEligibleCandidates := rfl

omit [DecidableEq α] in
@[simp] theorem depositEventCurrency (st : State α ι σ) (event : Event α) :
    (st.depositEvent event).currency = st.currency := rfl

omit [DecidableEq α] in
@[simp] theorem depositEventEvents (st : State α ι σ) (event : Event α) :
    (st.depositEvent event).events = st.events ++ [event] := rfl

variable [DecidableEq ι]

def setPending (st : State α ι σ) (d : α) (k : PendingOperationKey α ι) (v : Nat) : State α ι σ :=
  { st with pendingOperations := Function.update st.pendingOperations d (Function.update (st.pendingOperations d) k v) }

@[simp] theorem setPendingPending (st : State α ι σ) (d d' : α) (k k' : PendingOperationKey α ι) (v : Nat) :
    (st.setPending d k v).pendingOperations d' k' = if d' = d ∧ k' = k then v else st.pendingOperations d' k' := by
  by_cases hd : d' = d
  · subst hd; by_cases hk : k' = k <;> simp [setPending, hk]
  · simp [setPending, hd]

theorem setPendingSelf (st : State α ι σ) (d : α) (k : PendingOperationKey α ι) (v : Nat) :
    (st.setPending d k v).pendingOperations d = Function.update (st.pendingOperations d) k v := by
  simp [setPending]

theorem setPendingOther (st : State α ι σ) {d d' : α} (other : d' ≠ d) (k : PendingOperationKey α ι) (v : Nat) :
    (st.setPending d k v).pendingOperations d' = st.pendingOperations d' := by
  simp [setPending, other]

@[simp] theorem setPendingPools (st : State α ι σ) (d : α) (k : PendingOperationKey α ι) (v : Nat) :
    (st.setPending d k v).pools = st.pools := rfl

@[simp] theorem setPendingSorted (st : State α ι σ) (d : α) (k : PendingOperationKey α ι) (v : Nat) :
    (st.setPending d k v).sortedEligibleCandidates = st.sortedEligibleCandidates := rfl

@[simp] theorem setPendingCurrency (st : State α ι σ) (d : α) (k : PendingOperationKey α ι) (v : Nat) :
    (st.setPending d k v).currency = st.currency := rfl

@[simp] theorem setPendingEvents (st : State α ι σ) (d : α) (k : PendingOperationKey α ι) (v : Nat) :
    (st.setPending d k v).events = st.events := rfl

end State

/- `traits.rs`: arithmetic on `Balance = u128` that fails instead of wrapping, each
followed by the `From<OverflowError>` or `From<UnderflowError>` conversion that every
caller applies. -/

def balanceBound : Nat := 2 ^ 128

theorem balanceBoundPos : 0 < balanceBound := by
  unfold balanceBound; positivity

def errAdd (a b : Nat) : Except DispatchError Nat :=
  if a + b < balanceBound then pure (a + b) else throw (.module .mathOverflow)

def errSub (a b : Nat) : Except DispatchError Nat :=
  if b ≤ a then pure (a - b) else throw (.module .mathUnderflow)

def errMul (a b : Nat) : Except DispatchError Nat :=
  if a * b < balanceBound then pure (a * b) else throw (.module .mathOverflow)

/-- `mul_div` for `u128`: the product is taken in `U256`, where it cannot overflow. -/
def mulDiv (self a b : Nat) : Except DispatchError Nat :=
  if b = 0 then throw (.module .mathOverflow)
  else if self = 0 then pure 0
  else if self * a / b < balanceBound then pure (self * a / b)
  else throw (.module .mathOverflow)

/-- `ensure!`. -/
def ensure (c : Prop) [Decidable c] (e : Error) : Except DispatchError Unit :=
  if c then pure () else throw (.module e)

@[simp] theorem errAddOk {a b r : Nat} : errAdd a b = .ok r ↔ a + b < balanceBound ∧ a + b = r := by
  unfold errAdd; split <;> simp_all

@[simp] theorem errSubOk {a b r : Nat} : errSub a b = .ok r ↔ b ≤ a ∧ a - b = r := by
  unfold errSub; split <;> simp_all

@[simp] theorem errMulOk {a b r : Nat} : errMul a b = .ok r ↔ a * b < balanceBound ∧ a * b = r := by
  unfold errMul; split <;> simp_all

@[simp] theorem ensureOk {c : Prop} [Decidable c] {e : Error} {u : Unit} : ensure c e = .ok u ↔ c := by
  unfold ensure; split <;> simp_all

theorem mulDivOk {self a b r : Nat} (h : mulDiv self a b = .ok r) : b ≠ 0 ∧ r = self * a / b ∧ r < balanceBound := by
  unfold mulDiv at h
  split at h
  · cases h
  · split at h
    · rename_i zero; cases h; simp_all [balanceBoundPos]
    · split at h
      · cases h; simp_all
      · cases h

theorem mulDivOfLe {self a b : Nat} (nonzero : b ≠ 0) (small : self * a / b < balanceBound) :
    mulDiv self a b = .ok (self * a / b) := by
  unfold mulDiv
  by_cases zero : self = 0 <;> simp [nonzero, zero, small]

end Tanssi.PooledStaking
