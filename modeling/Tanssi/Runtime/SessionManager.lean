import Tanssi.Invulnerables
import Tanssi.PooledStaking.Pallet

/-! The dancebox session manager `CollatorsFromInvulnerablesAndThenFromStaking`: the
collators of a new session are the invulnerables, then the eligible staking candidates
that are not invulnerables, cut at `max_collators`. Logging is left out. -/
namespace Tanssi.Runtime
open PooledStaking Frame

variable {α β : Type} [DecidableEq α]

/-- `pallet_invulnerables::Config for Runtime`: `UpdateOrigin = EnsureRoot`. -/
def invulnerablesConfig : Invulnerables.Config (RawOrigin α) where
  updateOrigin := ensureRoot
  maxInvulnerables := 100

def newSession (invulnerables : List α) (candidatesStaking : List (EligibleCandidate α β))
    (maxCollators : Nat) : List α :=
  (invulnerables ++ candidatesStaking.filterMap fun elig =>
    -- a candidate that is also invulnerable is not counted twice
    if elig.candidate ∈ invulnerables then none else some elig.candidate).take maxCollators

theorem newSessionEq (invulnerables : List α) (candidatesStaking : List (EligibleCandidate α β))
    (maxCollators : Nat) :
    newSession invulnerables candidatesStaking maxCollators =
      (invulnerables ++ (candidatesStaking.map (·.candidate)).filter (· ∉ invulnerables)).take maxCollators := by
  unfold newSession
  congr 2
  induction candidatesStaking with
  | nil => rfl
  | cons elig rest ih =>
    by_cases inv : elig.candidate ∈ invulnerables <;> simp [inv, ih]

/- The session manager removes repeats across its two sources only. -/

theorem newSessionSourcesNodup {invulnerables : List α} {candidatesStaking : List (EligibleCandidate α β)}
    (hi : invulnerables.Nodup) (hc : (candidatesStaking.map (·.candidate)).Nodup) :
    (invulnerables ++ (candidatesStaking.map (·.candidate)).filter (· ∉ invulnerables)).Nodup := by
  refine hi.append (hc.filter _) ?_
  intro x inv staked
  have notInv : x ∉ invulnerables := by simpa using (List.mem_filter.1 staked).2
  exact notInv inv

theorem newSessionCollators {invulnerables : List α} {candidatesStaking : List (EligibleCandidate α β)}
    (maxCollators : Nat) (hi : invulnerables.Nodup) (hc : (candidatesStaking.map (·.candidate)).Nodup) :
    (newSession invulnerables candidatesStaking maxCollators).Nodup ∧
      (newSession invulnerables candidatesStaking maxCollators).length =
        min maxCollators (invulnerables ++ candidatesStaking.map (·.candidate)).toFinset.card ∧
      ∀ x ∈ newSession invulnerables candidatesStaking maxCollators,
        x ∈ invulnerables ∨ ∃ elig ∈ candidatesStaking, elig.candidate = x := by
  have nodup := newSessionSourcesNodup hi hc
  rw [newSessionEq]
  refine ⟨nodup.sublist (List.take_sublist _ _), ?_, fun x picked => ?_⟩
  · have sameSet : (invulnerables ++ candidatesStaking.map (·.candidate)).toFinset =
        (invulnerables ++ (candidatesStaking.map (·.candidate)).filter (· ∉ invulnerables)).toFinset := by
      ext x
      by_cases inv : x ∈ invulnerables <;> simp [inv]
    rw [List.length_take, sameSet, List.toFinset_card_of_nodup nodup]
  · have source := List.mem_of_mem_take picked
    simp only [List.mem_append, List.mem_filter, List.mem_map] at source
    exact source.imp_right fun staked => staked.1

theorem newSessionCollatorsThreeSeats :
    let candidates : List (EligibleCandidate Nat Nat) := [⟨2, 5⟩, ⟨3, 4⟩]
    ([1, 2] : List Nat).Nodup ∧ (candidates.map EligibleCandidate.candidate).Nodup ∧ newSession [1, 2] candidates 3 = [1, 2, 3] ∧
      (newSession [1, 2] candidates 3).Nodup ∧
      (newSession [1, 2] candidates 3).length = min 3 ([1, 2] ++ candidates.map EligibleCandidate.candidate).toFinset.card ∧
      ∀ x ∈ newSession [1, 2] candidates 3, x ∈ [1, 2] ∨ ∃ elig ∈ candidates, elig.candidate = x := by
  dsimp only
  exact ⟨by decide, by decide, by decide, newSessionCollators 3 (by decide) (by decide)⟩

/- `set_invulnerables` keeps every account with keys in the order given, repeats
included, and the session manager passes a repeated invulnerable on twice. -/

theorem setInvulnerablesRepeatsCollator (a : α) (candidatesStaking : List (EligibleCandidate α β))
    (maxCollators : Nat) :
    Invulnerables.Reachable (invulnerablesConfig : Invulnerables.Config (RawOrigin α)) [a,a] ∧
      ¬ (newSession [a,a] candidatesStaking (maxCollators + 2)).Nodup := by
  constructor
  · have built : Invulnerables.buildGenesis (invulnerablesConfig : Invulnerables.Config (RawOrigin α))
        ([] : List α) = some [] := by
      simp [Invulnerables.buildGenesis]
    have empty : Invulnerables.Reachable (invulnerablesConfig : Invulnerables.Config (RawOrigin α)) [] :=
      .genesis built
    refine .call (fun _ => true) (.setInvulnerables .root [a,a]) empty ?_
    simp [Invulnerables.dispatch, Invulnerables.setInvulnerables, Invulnerables.ensureOrigin,
      invulnerablesConfig, ensureRoot]
  · rw [newSessionEq]
    simp

end Tanssi.Runtime
