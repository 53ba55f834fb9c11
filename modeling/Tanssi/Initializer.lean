import Mathlib

/-! `pallet_initializer`. The session pallet tells it of a new session from its
`on_initialize`, in the first block of the session; the change is buffered, and the
initializer's `on_finalize` hands it to the runtime's `apply_new_session` at the end of that
block, after the block's extrinsics. The change to session 0, at genesis, is applied at once.
The runtime's handler is a parameter, `none` where it panics. -/

namespace Tanssi.Initializer

structure BufferedSessionChange (α κ : Type) where
  changed : Bool
  validators : List (α × κ)
  queued : List (α × κ)
  sessionIndex : Nat
  deriving DecidableEq, Repr

variable {α κ S : Type}

/-- `on_new_session`: the queued keys default to the validators; the change to session 0 is
applied at once, a later one replaces the buffered change. -/
def onNewSession (applyNewSession : Bool → Nat → List (α × κ) → List (α × κ) → S → Option S) (changed : Bool)
    (sessionIndex : Nat) (validators : List (α × κ)) (queued : Option (List (α × κ)))
    (buffered : Option (BufferedSessionChange α κ)) (st : S) : Option (Option (BufferedSessionChange α κ) × S) :=
  let queued := queued.getD validators
  if sessionIndex = 0 then (applyNewSession false 0 validators queued st).map fun st => (buffered, st)
  else some (some ⟨changed, validators, queued, sessionIndex⟩, st)

/-- `on_genesis_session`. -/
def onGenesisSession (applyNewSession : Bool → Nat → List (α × κ) → List (α × κ) → S → Option S)
    (validators : List (α × κ)) (buffered : Option (BufferedSessionChange α κ)) (st : S) :
    Option (Option (BufferedSessionChange α κ) × S) :=
  onNewSession applyNewSession false 0 validators none buffered st

/-- `on_finalize`: the buffered change is taken and applied. -/
def onFinalize (applyNewSession : Bool → Nat → List (α × κ) → List (α × κ) → S → Option S)
    (buffered : Option (BufferedSessionChange α κ)) (st : S) : Option (Option (BufferedSessionChange α κ) × S) :=
  match buffered with
  | some change =>
    (applyNewSession change.changed change.sessionIndex change.validators change.queued st).map fun st => (none, st)
  | none => some (none, st)

section Lemmas
variable {applyNewSession : Bool → Nat → List (α × κ) → List (α × κ) → S → Option S}
  {buffered buffered' : Option (BufferedSessionChange α κ)} {st st' : S}

theorem onNewSessionBuffers {changed : Bool} {sessionIndex : Nat} (later : sessionIndex ≠ 0) (validators queued : List (α × κ)) :
    onNewSession applyNewSession changed sessionIndex validators (some queued) buffered st =
      some (some ⟨changed, validators, queued, sessionIndex⟩, st) := by
  simp [onNewSession, later]

theorem onGenesisSessionApplies (h : onGenesisSession applyNewSession validators buffered st = some (buffered', st')) :
    buffered' = buffered ∧ applyNewSession false 0 validators validators st = some st' := by
  simp only [onGenesisSession, onNewSession, Option.getD_none, if_true] at h
  obtain ⟨applied, ran, same⟩ := Option.map_eq_some_iff.1 h
  obtain ⟨rfl, rfl⟩ := Prod.mk.inj same
  exact ⟨rfl, ran⟩

theorem onFinalizeApplies (h : onFinalize applyNewSession buffered st = some (buffered', st')) :
    buffered' = none ∧ (buffered = none → st' = st) ∧
      ∀ change, buffered = some change →
        applyNewSession change.changed change.sessionIndex change.validators change.queued st = some st' := by
  unfold onFinalize at h
  cases buffered with
  | none =>
    obtain ⟨rfl, rfl⟩ := Prod.mk.inj (Option.some.inj h)
    exact ⟨rfl, fun _ => rfl, fun _ absurd => by cases absurd⟩
  | some change =>
    obtain ⟨applied, ran, same⟩ := Option.map_eq_some_iff.1 h
    obtain ⟨rfl, rfl⟩ := Prod.mk.inj same
    refine ⟨rfl, fun absurd => (by cases absurd), ?_⟩
    rintro _ ⟨⟩
    exact ran

end Lemmas

end Tanssi.Initializer
