import Tanssi.PooledStaking.Candidate

/-! `calls.rs` and the dispatchable calls of `lib.rs`. Every call is transactional: when
it fails, storage and the currency are as before, so only a successful call gives a new
state. Calls made on a pool parameter where the source repeats the same code once per
pool (`rebalance_hold`, the arms of `request_undelegate` and `execute_joining`) are
written once with the pool as argument. -/
namespace Tanssi.PooledStaking
open Frame

variable {α ι σ : Type}

def State.setCurrency (st : State α ι σ) (currency : σ) : State α ι σ := { st with currency }

@[simp] theorem State.setCurrencyPools (st : State α ι σ) (currency : σ) :
    (st.setCurrency currency).pools = st.pools := rfl

@[simp] theorem State.setCurrencyPending (st : State α ι σ) (currency : σ) :
    (st.setCurrency currency).pendingOperations = st.pendingOperations := rfl

@[simp] theorem State.setCurrencySorted (st : State α ι σ) (currency : σ) :
    (st.setCurrency currency).sortedEligibleCandidates = st.sortedEligibleCandidates := rfl

@[simp] theorem State.setCurrencyCurrency (st : State α ι σ) (currency : σ) :
    (st.setCurrency currency).currency = currency := rfl

@[simp] theorem State.setCurrencyEvents (st : State α ι σ) (currency : σ) :
    (st.setCurrency currency).events = st.events := rfl

def liftCurrency (x : Option σ) : Except DispatchError σ :=
  match x with
  | some s => pure s
  | none => throw .currency

@[simp] theorem liftCurrencyOk {x : Option σ} {s : σ} : liftCurrency x = .ok s ↔ x = some s := by
  cases x <;> simp [liftCurrency]

variable [LinearOrder α] [DecidableEq ι]

namespace Calls
variable (cfg : Config α σ) (env : Env α ι)

def rebalanceHold (candidate delegator : α) (pool : AllTargetPool) (st : State α ι σ) :
    Except DispatchError (State α ι σ) := do
  let held := Pool.hold pool candidate delegator st
  let shares := Pool.shares pool candidate delegator st
  let stake ← Pool.sharesToStake pool candidate shares st
  let st := st.setPool candidate (.sharesHeldStake pool delegator) stake
  if stake = held then return st
  if held ≤ stake then
    let diff := stake - held
    let currency ← liftCurrency (cfg.currency.transfer cfg.stakingAccount delegator diff st.currency)
    let currency ← liftCurrency (cfg.currency.hold delegator diff currency)
    return st.setCurrency currency
  if stake ≤ held then
    let diff := held - stake
    let currency ← liftCurrency (cfg.currency.release delegator diff st.currency)
    let currency ← liftCurrency (cfg.currency.transfer delegator cfg.stakingAccount diff currency)
    return st.setCurrency currency
  -- unreachable: one of the two differences exists
  pure st

def claimManualRewards : List (α × α) → State α ι σ → Except DispatchError (State α ι σ)
  | [], st => pure st
  | (candidate, delegator) :: pairs, st => do
    let (rewards, st) ← claimRewards candidate delegator st
    if rewards = 0 then claimManualRewards pairs st else
    let currency ← liftCurrency (cfg.currency.transfer cfg.stakingAccount delegator rewards st.currency)
    claimManualRewards pairs ((st.setCurrency currency).depositEvent (.claimedManualRewards candidate delegator rewards))

def joiningOperationKey (pool : TargetPool) (candidate : α) (now : ι) : PendingOperationKey α ι :=
  match pool with
  | .autoCompounding => .joiningAutoCompounding candidate now
  | .manualRewards => .joiningManualRewards candidate now

def requestDelegate (candidate delegator : α) (pool : TargetPool) (stake : Nat) (st : State α ι σ) :
    Except DispatchError (State α ι σ) := do
  ensure (stake ≠ 0) .stakeMustBeNonZero
  let shares ← Pool.stakeToSharesOrInit cfg .joining candidate stake st
  -- a stake worth less than one share rounds down to no share
  ensure (shares ≠ 0) .stakeMustBeNonZero
  let (stake, st) ← Pool.addShares cfg .joining candidate delegator shares st
  let currency ← liftCurrency (cfg.currency.hold delegator stake st.currency)
  let st ← Pool.increaseHold .joining candidate delegator stake (st.setCurrency currency)
  let st ← Candidates.addTotalStake cfg env candidate stake st
  let operationKey := joiningOperationKey pool candidate env.joiningNow
  let operation ← errAdd (st.pendingOperations delegator operationKey) shares
  let st := st.setPending delegator operationKey operation
  checkCandidateConsistency candidate st
  pure st

def requestUndelegate (candidate delegator : α) (pool : TargetPool) (amount : SharesOrStake)
    (st : State α ι σ) : Except DispatchError (State α ι σ) := do
  let shares ← (match amount with
    | .shares s => pure s
    | .stake s => Pool.stakeToShares pool.toAll candidate s st)
  let st ← (if pool = .manualRewards then claimManualRewards cfg [(candidate, delegator)] st else pure st)
  let stake ← Pool.sharesToStake pool.toAll candidate shares st
  let st ← (if Pool.hold pool.toAll candidate delegator st < stake then
      rebalanceHold cfg candidate delegator pool.toAll st
    else pure st)
  let (removedStake, st) ← Pool.subShares pool.toAll candidate delegator shares st
  let st ← Pool.decreaseHold pool.toAll candidate delegator removedStake st
  let st ← Candidates.subTotalStake cfg env candidate removedStake st
  let leavingShares ← Pool.stakeToSharesOrInit cfg .leaving candidate removedStake st
  let (leavingStake, st) ← Pool.addShares cfg .leaving candidate delegator leavingShares st
  let st ← Pool.increaseHold .leaving candidate delegator leavingStake st
  let operationKey := PendingOperationKey.leaving candidate env.leavingNow
  let operation ← errAdd (st.pendingOperations delegator operationKey) leavingShares
  let st := st.setPending delegator operationKey operation
  -- the rounding dust is released to the delegator
  let dust ← errSub removedStake leavingStake
  let st ← (if dust ≠ 0 then do
      let currency ← liftCurrency (cfg.currency.release delegator dust st.currency)
      pure (st.setCurrency currency)
    else pure st)
  checkCandidateConsistency candidate st
  pure st

def executeJoining (candidate delegator : α) (pool : TargetPool) (joiningShares : Nat) (st : State α ι σ) :
    Except DispatchError (State α ι σ) := do
  let (stake, st) ← Pool.subShares .joining candidate delegator joiningShares st
  let st ← Pool.decreaseHold .joining candidate delegator stake st
  let st ← (if pool = .manualRewards then claimManualRewards cfg [(candidate, delegator)] st else pure st)
  let shares ← Pool.stakeToSharesOrInit cfg pool.toAll candidate stake st
  -- a stake worth less than one share is released in full
  if shares = 0 then
    let currency ← liftCurrency (cfg.currency.release delegator stake st.currency)
    let st ← Candidates.subTotalStake cfg env candidate stake (st.setCurrency currency)
    checkCandidateConsistency candidate st
    return st
  let (actuallyStaked, st) ← Pool.addShares cfg pool.toAll candidate delegator shares st
  let st ← Pool.increaseHold pool.toAll candidate delegator actuallyStaked st
  let release ← errSub stake actuallyStaked
  let currency ← liftCurrency (cfg.currency.release delegator release st.currency)
  let st ← Candidates.subTotalStake cfg env candidate release (st.setCurrency currency)
  checkCandidateConsistency candidate st
  pure st

def executeLeaving (candidate delegator : α) (leavingShares : Nat) (st : State α ι σ) :
    Except DispatchError (State α ι σ) := do
  let (stake, st) ← Pool.subShares .leaving candidate delegator leavingShares st
  let st ← Pool.decreaseHold .leaving candidate delegator stake st
  let currency ← liftCurrency (cfg.currency.release delegator stake st.currency)
  pure (st.setCurrency currency)

def executeOperation (index : Nat) (delegator : α) (value : Nat) :
    PendingOperationKey α ι → State α ι σ → Except DispatchError (State α ι σ)
  | .joiningAutoCompounding candidate instant, st => do
    ensure (env.joiningElapsed instant) (.requestCannotBeExecuted (index % 2 ^ 16))
    executeJoining cfg env candidate delegator .autoCompounding value st
  | .joiningManualRewards candidate instant, st => do
    ensure (env.joiningElapsed instant) (.requestCannotBeExecuted (index % 2 ^ 16))
    executeJoining cfg env candidate delegator .manualRewards value st
  | .leaving candidate instant, st => do
    ensure (env.leavingElapsed instant) (.requestCannotBeExecuted (index % 2 ^ 16))
    executeLeaving cfg candidate delegator value st

/-- The loop over the batch, from the query at `index`. A zero value, never requested or
already executed, is skipped; an executed operation is removed. -/
def executePendingOperations (index : Nat) :
    List (PendingOperationQuery α ι) → State α ι σ → Except DispatchError (State α ι σ)
  | [], st => pure st
  | query :: queries, st => do
    let value := st.pendingOperations query.delegator query.operation
    if value = 0 then executePendingOperations (index + 1) queries st else
    let st ← executeOperation cfg env index query.delegator value query.operation st
    executePendingOperations (index + 1) queries (st.setPending query.delegator query.operation 0)

def updateCandidatePosition : List α → State α ι σ → Except DispatchError (State α ι σ)
  | [], st => pure st
  | candidate :: candidates, st => do
    let stake := Candidates.totalStake candidate st
    let st ← Candidates.updateTotalStake cfg env candidate stake st
    updateCandidatePosition candidates st

end Calls

inductive Call (α ι : Type) where
  | rebalanceHold (candidate delegator : α) (pool : AllTargetPool)
  | requestDelegate (candidate : α) (pool : TargetPool) (stake : Nat)
  | executePendingOperations (operations : List (PendingOperationQuery α ι))
  | requestUndelegate (candidate : α) (pool : TargetPool) (amount : SharesOrStake)
  | claimManualRewards (pairs : List (α × α))
  | updateCandidatePosition (candidates : List α)

/-- The pallet's `#[pallet::call]`s: each needs a signed origin; the delegator of a request
is its signer. -/
def dispatch (cfg : Config α σ) (env : Env α ι) (origin : RawOrigin α) (call : Call α ι)
    (st : State α ι σ) : Except DispatchError (State α ι σ) :=
  match ensureSigned origin with
  | none => throw .badOrigin
  | some signer =>
    match call with
    | .rebalanceHold candidate delegator pool => Calls.rebalanceHold cfg candidate delegator pool st
    | .requestDelegate candidate pool stake => Calls.requestDelegate cfg env candidate signer pool stake st
    | .executePendingOperations operations => Calls.executePendingOperations cfg env 0 operations st
    | .requestUndelegate candidate pool amount => Calls.requestUndelegate cfg env candidate signer pool amount st
    | .claimManualRewards pairs => Calls.claimManualRewards cfg pairs st
    | .updateCandidatePosition candidates => Calls.updateCandidatePosition cfg env candidates st

inductive Reachable (cfg : Config α σ) : State α ι σ → Prop where
  | empty {currency : σ} : (∀ d, cfg.currency.balanceOnHold d currency = 0) → Reachable cfg (State.empty currency)
  | call {st st' : State α ι σ} (env : Env α ι) (origin : RawOrigin α) (call : Call α ι) :
      Reachable cfg st → dispatch cfg env origin call st = .ok st' → Reachable cfg st'

end Tanssi.PooledStaking
