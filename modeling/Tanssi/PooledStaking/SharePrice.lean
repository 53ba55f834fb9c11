import Tanssi.PooledStaking.Pools

/-! The value of a share, `T / S` for a pool's stake `T` and supply `S`, across joins and
leaves. Both conversions round down. Leaving takes out at most what the shares are
worth, so the value per share never drops. Joining pays at most what the new shares are
worth, so the value per share never rises, and after a reward it drops. When a slash
has left a pool with shares and no stake, the joiner's stake goes to all holders. The
pool design of the README says that joining and leaving keep the value of a share. -/
namespace Tanssi.PooledStaking
open Frame

variable {α ι σ : Type} [DecidableEq α]

namespace Pool
variable {cfg : Config α σ} {pool : AllTargetPool} {candidate delegator : α} {st st' : State α ι σ}

theorem sharesSupplyAddShares {shares stake : Nat} (h : addShares cfg pool candidate delegator shares st = .ok (stake, st')) :
    sharesSupply pool candidate st' = sharesSupply pool candidate st + shares ∧
      totalStaked pool candidate st' = totalStaked pool candidate st + stake := by
  obtain ⟨-, -, -, -, -, rfl⟩ := addSharesOk h
  simp

theorem sharesSupplySubShares {shares stake : Nat} (h : subShares pool candidate delegator shares st = .ok (stake, st')) :
    sharesSupply pool candidate st' = sharesSupply pool candidate st - shares ∧
      totalStaked pool candidate st' = totalStaked pool candidate st - stake := by
  obtain ⟨-, -, -, -, -, rfl⟩ := subSharesOk h
  simp

variable (cfg) in
theorem sharePriceFavoursHolders (shares stake : Nat) :
    (addShares cfg pool candidate delegator shares st = .ok (stake, st') → totalStaked pool candidate st ≠ 0 →
      totalStaked pool candidate st' * sharesSupply pool candidate st ≤
        totalStaked pool candidate st * sharesSupply pool candidate st') ∧
    (subShares pool candidate delegator shares st = .ok (stake, st') →
      totalStaked pool candidate st * sharesSupply pool candidate st' ≤
        totalStaked pool candidate st' * sharesSupply pool candidate st) := by
  constructor
  · intro h staked
    obtain ⟨supply, total⟩ := sharesSupplyAddShares h
    obtain ⟨-, converted, -⟩ := addSharesOk h
    obtain ⟨-, ⟨empty, -⟩ | ⟨-, -, rfl⟩⟩ := sharesToStakeOrInitOk converted
    · exact absurd empty staked
    rw [supply, total]
    generalize totalStaked pool candidate st = T at *
    generalize sharesSupply pool candidate st = S at *
    calc (T + shares * T / S) * S = T * S + shares * T / S * S := by ring
      _ ≤ T * S + shares * T := Nat.add_le_add_left (Nat.div_mul_le_self _ _) _
      _ = T * (S + shares) := by ring
  · intro h
    obtain ⟨supply, total⟩ := sharesSupplySubShares h
    obtain ⟨-, converted, -, -, -, -⟩ := subSharesOk h
    obtain ⟨-, rfl, -⟩ := sharesToStakeOk converted
    rw [supply, total]
    generalize totalStaked pool candidate st = T at *
    generalize sharesSupply pool candidate st = S at *
    have paid : shares * T / S * S ≤ T * shares := by
      rw [Nat.mul_comm T]; exact Nat.div_mul_le_self _ _
    rw [Nat.mul_sub, Nat.sub_mul]
    omega

end Pool

/- Delegator 1 holds the 3 shares of candidate 0's auto-compounding pool, worth 3: delegator
2 buys one share for 1, and delegator 1 sells one for 1. -/

def heldPoolConfig : Config Nat Unit :=
  ⟨⟨fun _ _ s => some s, fun _ _ s => some s, fun _ _ _ s => some s, fun _ _ => 0⟩, 0, 1, 1, 0, 0⟩

def heldPool : State Nat Unit Unit :=
  (((State.empty ()).setPool 0 (.shares .autoCompounding 1) 3).setPool 0 (.sharesSupply .autoCompounding) 3).setPool 0
    (.sharesTotalStaked .autoCompounding) 3

theorem sharePriceFavoursHoldersOnHeldPool :
    ∃ joined left, Pool.addShares heldPoolConfig .autoCompounding 0 2 1 heldPool = .ok (1, joined) ∧
      Pool.totalStaked .autoCompounding 0 heldPool ≠ 0 ∧ Pool.subShares .autoCompounding 0 1 1 heldPool = .ok (1, left) ∧
      Pool.totalStaked .autoCompounding 0 joined * Pool.sharesSupply .autoCompounding 0 heldPool ≤
        Pool.totalStaked .autoCompounding 0 heldPool * Pool.sharesSupply .autoCompounding 0 joined ∧
      Pool.totalStaked .autoCompounding 0 heldPool * Pool.sharesSupply .autoCompounding 0 left ≤
        Pool.totalStaked .autoCompounding 0 left * Pool.sharesSupply .autoCompounding 0 heldPool := by
  obtain ⟨joined, added⟩ : ∃ joined, Pool.addShares heldPoolConfig .autoCompounding 0 2 1 heldPool = .ok (1, joined) :=
    ⟨_, rfl⟩
  obtain ⟨left, removed⟩ : ∃ left, Pool.subShares .autoCompounding 0 1 1 heldPool = .ok (1, left) := ⟨_, rfl⟩
  have staked : Pool.totalStaked .autoCompounding 0 heldPool ≠ 0 := by decide
  exact ⟨joined, left, added, staked, removed, (Pool.sharePriceFavoursHolders heldPoolConfig 1 1).1 added staked,
    (Pool.sharePriceFavoursHolders heldPoolConfig 1 1).2 removed⟩

/- Delegator 1 holds the 3 shares of candidate 0's auto-compounding pool, worth 3. After a
reward of 2, delegator 2 joins with a stake of 2: it buys one share and pays 1 for it, and
a share is worth `6 / 4` instead of `5 / 3`. After a slash of 3 instead, it buys two shares
at the initial value and pays 2, and its shares are then worth nothing. -/

theorem joiningLowersSharePrice :
    let cfg : Config Nat Unit := ⟨⟨fun _ _ s => some s,fun _ _ s => some s,fun _ _ _ s => some s,fun _ _ => 0⟩,0,1,1,0,0⟩
    let held : State Nat Unit Unit := (((State.empty ()).setPool 0 (.shares .autoCompounding 1) 3).setPool 0
      (.sharesSupply .autoCompounding) 3).setPool 0 (.sharesTotalStaked .autoCompounding) 3
    (∃ rewarded joined, Pool.shareStakeAmongHolders .autoCompounding 0 2 held = .ok rewarded ∧
      Pool.stakeToSharesOrInit cfg .autoCompounding 0 2 rewarded = .ok 1 ∧
      Pool.addShares cfg .autoCompounding 0 2 1 rewarded = .ok (1, joined) ∧
      Pool.totalStaked .autoCompounding 0 joined * Pool.sharesSupply .autoCompounding 0 rewarded <
        Pool.totalStaked .autoCompounding 0 rewarded * Pool.sharesSupply .autoCompounding 0 joined) ∧
    (∃ slashed joined, Pool.slashStakeAmongHolders .autoCompounding 0 3 held = .ok slashed ∧
      Pool.totalStaked .autoCompounding 0 slashed = 0 ∧ Pool.sharesSupply .autoCompounding 0 slashed ≠ 0 ∧
      Pool.stakeToSharesOrInit cfg .autoCompounding 0 2 slashed = .ok 2 ∧
      Pool.addShares cfg .autoCompounding 0 2 2 slashed = .ok (2, joined) ∧
      Pool.sharesToStake .autoCompounding 0 2 joined = .ok 0) := by
  dsimp only
  exact ⟨⟨_, _, rfl, rfl, rfl, by decide⟩, ⟨_, _, rfl, by decide, by decide, rfl, rfl, rfl⟩⟩

end Tanssi.PooledStaking
