import Tanssi.Frame

/-! `pallet_invulnerables`: the permissioned collators. A call either fails and
leaves the list as it was (the dispatch is transactional) or returns the new list.
Key registration (`CollatorIdOf` then `CollatorRegistration::is_registered`) is an
arbitrary predicate supplied with each call; events and weights are left out. -/
namespace Tanssi.Invulnerables

inductive Error where
  | badOrigin
  | tooManyInvulnerables
  | alreadyInvulnerable
  | notInvulnerable
  deriving DecidableEq, Repr

structure Config (ο : Type) where
  updateOrigin : ο → Bool
  maxInvulnerables : Nat

variable {ο α : Type} [DecidableEq α]

/-- The genesis build panics on a duplicate or on more than `MaxInvulnerables`. -/
def buildGenesis (c : Config ο) (invulnerables : List α) : Option (List α) :=
  if invulnerables.Nodup ∧ invulnerables.length ≤ c.maxInvulnerables then some invulnerables else none

def ensureOrigin (c : Config ο) (origin : ο) : Except Error Unit :=
  if c.updateOrigin origin then .ok () else .error .badOrigin

def setInvulnerables (c : Config ο) (hasKeys : α → Bool) (origin : ο) (new : List α) (_ : List α) :
    Except Error (List α) := do
  ensureOrigin c origin
  if c.maxInvulnerables < new.length then throw .tooManyInvulnerables
  -- accounts without registered keys are skipped, the others kept in order
  let newWithKeys := new.filter hasKeys
  -- `BoundedVec::try_from`
  if c.maxInvulnerables < newWithKeys.length then throw .tooManyInvulnerables
  pure newWithKeys

def addInvulnerable (c : Config ο) (origin : ο) (who : α) (invulnerables : List α) : Except Error (List α) := do
  ensureOrigin c origin
  if who ∈ invulnerables then throw .alreadyInvulnerable
  -- `try_push` on the bounded vector
  if c.maxInvulnerables ≤ invulnerables.length then throw .tooManyInvulnerables
  pure (invulnerables ++ [who])

def removeInvulnerable (c : Config ο) (origin : ο) (who : α) (invulnerables : List α) : Except Error (List α) := do
  ensureOrigin c origin
  match invulnerables.idxOf? who with
  | none => throw .notInvulnerable
  | some pos => pure (invulnerables.eraseIdx pos)

inductive Call (ο α : Type) where
  | setInvulnerables (origin : ο) (new : List α)
  | addInvulnerable (origin : ο) (who : α)
  | removeInvulnerable (origin : ο) (who : α)

def dispatch (c : Config ο) (hasKeys : α → Bool) : Call ο α → List α → Except Error (List α)
  | .setInvulnerables origin new => setInvulnerables c hasKeys origin new
  | .addInvulnerable origin who => addInvulnerable c origin who
  | .removeInvulnerable origin who => removeInvulnerable c origin who

/-- `new_session` of the pallet's own session manager. -/
def newSession (invulnerables : List α) : List α := invulnerables

inductive Reachable (c : Config ο) : List α → Prop where
  | genesis {invulnerables st : List α} : buildGenesis c invulnerables = some st → Reachable c st
  | call {st st' : List α} (hasKeys : α → Bool) (call : Call ο α) :
      Reachable c st → dispatch c hasKeys call st = .ok st' → Reachable c st'

/- What a successful call did, once per call. -/

end Tanssi.Invulnerables
