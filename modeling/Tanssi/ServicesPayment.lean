import Tanssi.Frame
import Tanssi.AssignedCollators

/-! `pallet_services_payment`: the block production credits of a container chain. A signed
account buys credits for a para at the para's block cost, never more than `MaxCreditsStored`
held at once, and pays through `OnChargeForBlockCredit`; `burn_credit_for_para` takes one
credit for a block. The pallet is not part of the dancebox runtime and is modelled alone.
Block numbers and balances are naturals up to their types' largest values, where the code
saturates; the currency is a state the charge handler moves, and which the rest of the chain
may change between calls. -/
namespace Tanssi.ServicesPayment
open Frame

inductive Error where
  | insufficientFundsToPurchaseCredits
  | insufficientCredits
  | creditPriceTooExpensive
  deriving DecidableEq, Repr

inductive DispatchError where
  | badOrigin
  | module (error : Error)
  deriving DecidableEq, Repr

/-- The runtime's side: the largest block number and balance, `MaxCreditsStored` (a block
number itself), `ProvideBlockProductionCost` and `OnChargeForBlockCredit`, which takes the
fee from the payer in a currency state `σ`. -/
structure Config (α σ : Type) where
  blockNumberMax : Nat
  balanceMax : Nat
  maxCreditsStored : Nat
  maxCreditsStoredFits : maxCreditsStored ≤ blockNumberMax
  blockCost : ParaId → Nat
  chargeCredits : α → ParaId → Nat → Nat → σ → Except Error σ

inductive Event (α : Type) where
  | creditsPurchased (paraId : ParaId) (payer : α) (fee creditsPurchased creditsRemaining : Nat)
  | creditBurned (paraId : ParaId) (creditsRemaining : Nat)
  deriving DecidableEq, Repr

structure State (α σ : Type) where
  blockProductionCredits : ParaId → Option Nat
  currency : σ
  events : List (Event α)

variable {α σ : Type}

/-- `BlockProductionCredits::get(para_id).unwrap_or(zero)`, as both calls read it. -/
def State.credits (st : State α σ) (paraId : ParaId) : Nat := (st.blockProductionCredits paraId).getD 0

/-- `BlockProductionCredits::insert` of a para's new credits, and the event that says so. -/
def State.setCredits (st : State α σ) (paraId : ParaId) (credits : Nat) (event : Event α) : State α σ :=
  { st with blockProductionCredits := Function.update st.blockProductionCredits paraId (some credits),
            events := st.events ++ [event] }

def genesis (currency : σ) : State α σ := ⟨fun _ => none, currency, []⟩

section Purchase
variable (cfg : Config α σ) (paraId : ParaId) (credits : Nat) (st : State α σ)

/-- `credits.min(credits_purchasable)`: what `MaxCreditsStored` leaves room for. -/
def actualCreditsPurchased : Nat := min credits (cfg.maxCreditsStored - st.credits paraId)

/-- `existing_credits.saturating_add(actual_credits_purchased)`. -/
def updatedCredits : Nat := min (st.credits paraId + actualCreditsPurchased cfg paraId credits st) cfg.blockNumberMax

/-- `block_cost.saturating_mul(actual_credits_purchased)`. -/
def totalFee : Nat := min (cfg.blockCost paraId * actualCreditsPurchased cfg paraId credits st) cfg.balanceMax

end Purchase

/-- `purchase_credits`: as many of the credits asked for as fit under `MaxCreditsStored`,
refused when the block cost is above the price the payer names. -/
def purchaseCredits (cfg : Config α σ) (origin : RawOrigin α) (paraId : ParaId) (credits : Nat)
    (maxPricePerCredit : Option Nat) (st : State α σ) : Except DispatchError (State α σ) := do
  let account ← match ensureSigned origin with
    | some account => pure account
    | none => throw .badOrigin
  let actualCreditsPurchased := actualCreditsPurchased cfg paraId credits st
  let updatedCredits := updatedCredits cfg paraId credits st
  let blockCost := cfg.blockCost paraId
  if let some maxPricePerCredit := maxPricePerCredit then
    if ¬ blockCost ≤ maxPricePerCredit then throw (.module .creditPriceTooExpensive)
  let totalFee := totalFee cfg paraId credits st
  let currency ← match cfg.chargeCredits account paraId actualCreditsPurchased totalFee st.currency with
    | .ok currency => pure currency
    | .error error => throw (.module error)
  pure ({ st with currency }.setCredits paraId updatedCredits
    (.creditsPurchased paraId account totalFee actualCreditsPurchased updatedCredits))

/-- `burn_credit_for_para`: one credit for one block. -/
def burnCreditForPara (paraId : ParaId) (st : State α σ) : Except DispatchError (State α σ) := do
  let existingCredits := st.credits paraId
  if ¬ existingCredits ≥ 1 then throw (.module .insufficientCredits)
  let updatedCredits := existingCredits - 1
  pure (st.setCredits paraId updatedCredits (.creditBurned paraId updatedCredits))

inductive Call where
  | purchaseCredits (paraId : ParaId) (credits : Nat) (maxPricePerCredit : Option Nat)
  deriving DecidableEq, Repr

def dispatch (cfg : Config α σ) (origin : RawOrigin α) : Call → State α σ → Except DispatchError (State α σ)
  | .purchaseCredits paraId credits maxPricePerCredit => purchaseCredits cfg origin paraId credits maxPricePerCredit

inductive Reachable (cfg : Config α σ) : State α σ → Prop where
  | genesis (currency : σ) : Reachable cfg (genesis currency)
  | call {st st' : State α σ} (origin : RawOrigin α) (call : Call) :
      Reachable cfg st → dispatch cfg origin call st = .ok st' → Reachable cfg st'
  | burn {st st' : State α σ} (paraId : ParaId) :
      Reachable cfg st → burnCreditForPara paraId st = .ok st' → Reachable cfg st'
  | currency {st : State α σ} (currency : σ) : Reachable cfg st → Reachable cfg { st with currency }

/- What a successful call did. -/

section Steps
variable {cfg : Config α σ} {origin : RawOrigin α} {paraId : ParaId} {credits : Nat}
  {maxPricePerCredit : Option Nat} {st st' : State α σ}

theorem purchaseCreditsOk (h : purchaseCredits cfg origin paraId credits maxPricePerCredit st = .ok st') :
    ∃ account currency, ensureSigned origin = some account ∧
      (∀ price, maxPricePerCredit = some price → cfg.blockCost paraId ≤ price) ∧
      cfg.chargeCredits account paraId (actualCreditsPurchased cfg paraId credits st) (totalFee cfg paraId credits st)
        st.currency = .ok currency ∧
      st' = { st with currency }.setCredits paraId (updatedCredits cfg paraId credits st)
        (.creditsPurchased paraId account (totalFee cfg paraId credits st) (actualCreditsPurchased cfg paraId credits st)
          (updatedCredits cfg paraId credits st)) := by
  simp only [purchaseCredits] at h
  cases signed : ensureSigned origin with
  | none => simp [signed] at h
  | some account =>
    have priced : ∀ price, maxPricePerCredit = some price → cfg.blockCost paraId ≤ price := by
      rintro price rfl
      by_contra expensive
      simp [signed, expensive] at h
    cases charged : cfg.chargeCredits account paraId (actualCreditsPurchased cfg paraId credits st)
        (totalFee cfg paraId credits st) st.currency with
    | error error => cases maxPricePerCredit <;> simp [signed, charged, priced, mapThrow] at h
    | ok currency =>
      refine ⟨account, currency, rfl, priced, charged, ?_⟩
      cases maxPricePerCredit <;> simp [signed, charged, priced] at h <;> exact h.symm

theorem burnCreditForParaOk (h : burnCreditForPara paraId st = .ok st') :
    1 ≤ st.credits paraId ∧
      st' = st.setCredits paraId (st.credits paraId - 1) (.creditBurned paraId (st.credits paraId - 1)) := by
  simp only [burnCreditForPara] at h
  split at h
  · simp [mapThrow] at h
  · exact ⟨by omega, (pureEqOk.1 h).symm⟩

@[simp] theorem creditsSetCredits {credits : Nat} {event : Event α} (other : ParaId) :
    (st.setCredits paraId credits event).credits other = if other = paraId then credits else st.credits other := by
  by_cases same : other = paraId
  · subst same
    simp [State.credits, State.setCredits]
  · simp [State.credits, State.setCredits, same]

@[simp] theorem eventsSetCredits {credits : Nat} {event : Event α} :
    (st.setCredits paraId credits event).events = st.events ++ [event] := rfl

theorem updatedCreditsEq (credits : Nat) (held : st.credits paraId ≤ cfg.maxCreditsStored) :
    updatedCredits cfg paraId credits st = st.credits paraId + actualCreditsPurchased cfg paraId credits st ∧
      updatedCredits cfg paraId credits st ≤ cfg.maxCreditsStored := by
  have fits := cfg.maxCreditsStoredFits
  simp only [updatedCredits, actualCreditsPurchased]
  omega

end Steps

/- What the events say of the credits of a para: those each event bought and burned, and
those it left. -/

def Event.bought (paraId : ParaId) : Event α → Nat
  | .creditsPurchased p _ _ purchased _ => if p = paraId then purchased else 0
  | .creditBurned .. => 0

def Event.burned (paraId : ParaId) : Event α → Nat
  | .creditsPurchased .. => 0
  | .creditBurned p _ => if p = paraId then 1 else 0

def Event.remaining (paraId : ParaId) : Event α → Option Nat
  | .creditsPurchased p _ _ _ creditsRemaining => if p = paraId then some creditsRemaining else none
  | .creditBurned p creditsRemaining => if p = paraId then some creditsRemaining else none

structure Accounted (cfg : Config α σ) (st : State α σ) : Prop where
  bounded : ∀ paraId, st.credits paraId ≤ cfg.maxCreditsStored
  ledger : ∀ paraId, st.credits paraId + (st.events.map (Event.burned paraId)).sum = (st.events.map (Event.bought paraId)).sum
  latest : ∀ paraId, st.credits paraId = ((st.events.filterMap (Event.remaining paraId)).getLast?).getD 0

section Accounted
variable {cfg : Config α σ} {st st' : State α σ} {paraId : ParaId}

theorem genesisAccounted (currency : σ) : Accounted cfg (genesis currency : State α σ) :=
  ⟨fun _ => Nat.zero_le _, fun _ => rfl, fun _ => rfl⟩

theorem Accounted.setCredits (acc : Accounted cfg st) {credits : Nat} {event : Event α}
    (bounded : credits ≤ cfg.maxCreditsStored)
    (moved : credits + event.burned paraId = st.credits paraId + event.bought paraId)
    (reported : event.remaining paraId = some credits)
    (others : ∀ other, other ≠ paraId → event.burned other = 0 ∧ event.bought other = 0 ∧ event.remaining other = none) :
    Accounted cfg (st.setCredits paraId credits event) := by
  constructor
  · intro other
    rw [creditsSetCredits]
    split
    · exact bounded
    · exact acc.bounded other
  · intro other
    have ledger := acc.ledger other
    simp only [creditsSetCredits, eventsSetCredits, List.map_append, List.sum_append, List.map_cons, List.map_nil,
      List.sum_cons, List.sum_nil]
    split
    · subst other
      omega
    · rename_i different
      obtain ⟨burned, bought, -⟩ := others other different
      omega
  · intro other
    simp only [creditsSetCredits, eventsSetCredits, List.filterMap_append, List.filterMap_cons, List.filterMap_nil]
    split
    · subst other
      simp [reported]
    · rename_i different
      simp [(others other different).2.2, acc.latest other]

theorem Accounted.purchaseCredits (acc : Accounted cfg st) {origin : RawOrigin α} {credits : Nat}
    {maxPricePerCredit : Option Nat} (h : purchaseCredits cfg origin paraId credits maxPricePerCredit st = .ok st') :
    Accounted cfg st' := by
  obtain ⟨account, currency, -, -, -, rfl⟩ := purchaseCreditsOk h
  obtain ⟨rises, bounded⟩ := updatedCreditsEq credits (acc.bounded paraId)
  have moved : Accounted cfg { st with currency } := ⟨acc.bounded, acc.ledger, acc.latest⟩
  refine moved.setCredits bounded ?_ (by simp [Event.remaining]) ?_
  · simp [Event.burned, Event.bought, State.credits, rises]
  · intro other different
    simp [Event.burned, Event.bought, Event.remaining, different.symm]

theorem Accounted.burnCreditForPara (acc : Accounted cfg st) (h : burnCreditForPara paraId st = .ok st') :
    Accounted cfg st' := by
  obtain ⟨positive, rfl⟩ := burnCreditForParaOk h
  refine acc.setCredits (by have := acc.bounded paraId; omega) ?_ (by simp [Event.remaining]) ?_
  · simp only [Event.burned, Event.bought, if_true]
    omega
  · intro other different
    simp [Event.burned, Event.bought, Event.remaining, different.symm]

theorem reachableAccounted (reach : Reachable cfg st) : Accounted cfg st := by
  induction reach with
  | genesis currency => exact genesisAccounted currency
  | call origin call _ dispatched acc =>
    cases call with
    | purchaseCredits paraId credits maxPricePerCredit => exact acc.purchaseCredits dispatched
  | burn paraId _ burned acc => exact acc.burnCreditForPara burned
  | currency currency _ acc => exact ⟨acc.bounded, acc.ledger, acc.latest⟩

def sampleConfig : Config Nat Nat :=
  ⟨2 ^ 64 - 1, 2 ^ 128 - 1, 5, by decide, fun _ => 100,
    fun _ _ _ fee balance => if fee ≤ balance then .ok (balance - fee) else .error .insufficientFundsToPurchaseCredits⟩

theorem reachableAccountedAfterBurn :
    match purchaseCredits sampleConfig (.signed 1) 2000 3 (some 100) (genesis 1000) >>= burnCreditForPara 2000 with
    | .ok st => Accounted sampleConfig st
    | .error _ => False := by
  split
  · rename_i st run
    obtain ⟨bought, purchased, burned⟩ := bindEqOk.1 run
    exact reachableAccounted
      (.burn 2000 (.call (.signed 1) (.purchaseCredits 2000 3 (some 100)) (.genesis 1000) purchased) burned)
  · rename_i error failed
    have succeeds : (purchaseCredits sampleConfig (.signed 1) 2000 3 (some 100) (genesis 1000) >>=
        burnCreditForPara 2000).toBool = true := by decide
    rw [failed] at succeeds
    cases succeeds

end Accounted

end Tanssi.ServicesPayment
