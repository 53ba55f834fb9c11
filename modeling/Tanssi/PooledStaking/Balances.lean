import Tanssi.PooledStaking.Calls

/-! The currency under the pallet's hold reason, as `pallet_balances` provides it; it is not
part of this repository. `Currency.Lawful` is what the hold bookkeeping relies on: `hold`
and `release` with `Precision::Exact` move exactly their amount on or off the account's
hold, and `transfer` moves free balance only. `ledger` is a currency of free and held
balances per account that meets it, so the laws are not void. -/
namespace Tanssi.PooledStaking
open Frame

variable {α σ : Type} [DecidableEq α]

structure Currency.Lawful (currency : Currency α σ) : Prop where
  hold : ∀ {d x s s'}, currency.hold d x s = some s' →
    ∀ a, currency.balanceOnHold a s' = currency.balanceOnHold a s + if a = d then x else 0
  release : ∀ {d x s s'}, currency.release d x s = some s' →
    ∀ a, currency.balanceOnHold a s' + (if a = d then x else 0) = currency.balanceOnHold a s
  transfer : ∀ {a b x s s'}, currency.transfer a b x s = some s' →
    ∀ d, currency.balanceOnHold d s' = currency.balanceOnHold d s

structure Account where
  free : Nat
  held : Nat
  deriving DecidableEq, Repr

def ledger : Currency α (α → Account) where
  hold d x s := if x ≤ (s d).free then some (Function.update s d ⟨(s d).free - x, (s d).held + x⟩) else none
  release d x s := if x ≤ (s d).held then some (Function.update s d ⟨(s d).free + x, (s d).held - x⟩) else none
  transfer a b x s :=
    if x ≤ (s a).free then
      let taken := Function.update s a ⟨(s a).free - x, (s a).held⟩
      some (Function.update taken b ⟨(taken b).free + x, (taken b).held⟩)
    else none
  balanceOnHold d s := (s d).held

theorem ledgerLawful : (ledger : Currency α (α → Account)).Lawful := by
  refine ⟨fun {d x s s'} h a => ?_, fun {d x s s'} h a => ?_, fun {a b x s s'} h d => ?_⟩
  · simp only [ledger, Option.ite_none_right_eq_some, Option.some.injEq] at h
    obtain ⟨-, rfl⟩ := h
    by_cases same : a = d
    · subst same; simp [ledger]
    · simp [ledger, same]
  · simp only [ledger, Option.ite_none_right_eq_some, Option.some.injEq] at h
    obtain ⟨enough, rfl⟩ := h
    by_cases same : a = d
    · subst same; simp [ledger]; omega
    · simp [ledger, same]
  · simp only [ledger, Option.ite_none_right_eq_some, Option.some.injEq] at h
    obtain ⟨-, rfl⟩ := h
    by_cases toB : d = b
    · subst toB
      by_cases fromA : d = a
      · subst fromA; simp [ledger]
      · simp [ledger, fromA]
    · by_cases fromA : d = a
      · subst fromA; simp [ledger, toB]
      · simp [ledger, toB, fromA]

/- A pallet to run calls on: accounts `0` and `1`, the first the staking account, each with a
free balance of 100; every timer has elapsed and every candidate is eligible. -/

def sampleConfig : Config (Fin 2) (Fin 2 → Account) := ⟨ledger, 0, 1, 1, 0, 100⟩

def sampleEnv : Env (Fin 2) Unit := ⟨(), (), fun _ => true, fun _ => true, fun _ => true⟩

def sampleAccounts : Fin 2 → Account := fun _ => ⟨100, 0⟩

theorem sampleDelegation : ∃ st : State (Fin 2) Unit (Fin 2 → Account),
    dispatch sampleConfig sampleEnv (.signed 1) (.requestDelegate 1 .autoCompounding 3) (State.empty sampleAccounts) =
      .ok st ∧ Reachable sampleConfig st ∧ st.pools 1 .candidateTotalStake = 3 ∧ st.pools 1 (.shares .joining 1) = 3 ∧
      (st.currency 1).held = 3 ∧ st.sortedEligibleCandidates = [⟨1, 3⟩] := by
  obtain ⟨st, delegated, facts⟩ := toOptionAny.1 (show (dispatch sampleConfig sampleEnv (.signed 1)
    (.requestDelegate 1 .autoCompounding 3) (State.empty sampleAccounts : State (Fin 2) Unit (Fin 2 → Account))).toOption.any
      (fun st => decide (st.pools 1 .candidateTotalStake = 3 ∧ st.pools 1 (.shares .joining 1) = 3 ∧
        (st.currency 1).held = 3 ∧ st.sortedEligibleCandidates = [⟨1, 3⟩])) = true by decide +kernel)
  have reach : Reachable sampleConfig st := .call sampleEnv (.signed 1) _ (.empty fun _ => rfl) delegated
  simp only [decide_eq_true_eq] at facts
  exact ⟨st, delegated, reach, facts⟩

end Tanssi.PooledStaking
