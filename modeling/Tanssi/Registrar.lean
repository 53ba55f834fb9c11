import Tanssi.Frame
import Tanssi.BinarySearch
import Tanssi.DelayedChanges
import Tanssi.AssignedCollators

/-! `pallet_registrar`: the container chains served. A para id is registered into
`PendingVerification` with a deposit reserved from its creator; marked valid for
collating, it is scheduled into the para id list `SessionDelay` sessions ahead;
deregistered, it is scheduled out of the list, or taken out of `PendingVerification`,
and its deposit is unreserved. Every list is kept sorted, so that `binary_search`
finds a para id where it is. `ParaGenesisData` and `BootNodes`, which no call reads
back, events and weights are left out; so is the encoding of the genesis data, of which
the model keeps the size. -/
namespace Tanssi.Registrar
open Frame BinarySearch DelayedChanges

/-- What `ReservableCurrency` provides: `can_reserve`, `reserve`, `unreserve` and the
reserved balance of an account. -/
structure Currency (α σ : Type) where
  canReserve : α → Nat → σ → Bool
  reserve : α → Nat → σ → Option σ
  unreserve : α → Nat → σ → σ
  reservedBalance : α → σ → Nat

structure Currency.Lawful {α σ : Type} (currency : Currency α σ) : Prop where
  reserve : ∀ {a x s s'}, currency.reserve a x s = some s' →
    currency.reservedBalance a s' = currency.reservedBalance a s + x ∧
      ∀ b, b ≠ a → currency.reservedBalance b s' = currency.reservedBalance b s
  unreserve : ∀ a x s, currency.reservedBalance a (currency.unreserve a x s) = currency.reservedBalance a s - x ∧
    ∀ b, b ≠ a → currency.reservedBalance b (currency.unreserve a x s) = currency.reservedBalance b s

structure Config (α γ σ : Type) where
  registrarOrigin : RawOrigin α → Bool
  maxLengthParaIds : Nat
  maxGenesisDataSize : Nat
  encodedSize : γ → Nat
  sessionDelay : Nat
  currency : Currency α σ
  depositAmount : Nat

structure DepositInfo (α : Type) where
  creator : α
  deposit : Nat
  deriving DecidableEq, Repr

structure State (α σ : Type) where
  registeredParaIds : List ParaId
  pendingParaIds : List (Nat × List ParaId)
  pendingVerification : List ParaId
  registrarDeposit : ParaId → Option (DepositInfo α)
  currency : σ

inductive Error where
  | paraIdAlreadyRegistered
  | paraIdNotRegistered
  | paraIdListFull
  | genesisDataTooBig
  | paraIdNotInPendingVerification
  | notSufficientDeposit
  deriving DecidableEq, Repr

inductive DispatchError where
  | badOrigin
  | module (error : Error)
  | currency
  deriving DecidableEq, Repr

variable {α γ σ β : Type}

/-- `ok_or`. -/
def okOr (x : Option β) (e : DispatchError) : Except DispatchError β :=
  match x with
  | some b => pure b
  | none => throw e

/-- `BoundedVec::try_insert`: refused when the vector is full. -/
def tryInsert (bound : Nat) (paraIds : List ParaId) (index : Nat) (paraId : ParaId) : Option (List ParaId) :=
  if paraIds.length < bound then some (paraIds.insertIdx index paraId) else none

theorem tryInsertSome {bound index : Nat} {paraIds inserted : List ParaId} {paraId : ParaId}
    (h : tryInsert bound paraIds index paraId = some inserted) : inserted = paraIds.insertIdx index paraId := by
  unfold tryInsert at h
  split at h
  · exact (Option.some.inj h).symm
  · cases h

def baseParas (st : State α σ) : List ParaId := latest st.registeredParaIds st.pendingParaIds

def setDeposit [DecidableEq α] (st : State α σ) (paraId : ParaId) (info : Option (DepositInfo α)) : State α σ :=
  { st with registrarDeposit := Function.update st.registrarDeposit paraId info }

section Calls
variable (cfg : Config α γ σ) (currentSessionIndex : Nat) (origin : RawOrigin α)

/-- The genesis build sorts the para ids and panics on a duplicate, on more than
`MaxLengthParaIds` of them or on genesis data over `MaxGenesisDataSize`. -/
def build (paraIds : List (ParaId × γ)) (currency : σ) : Option (State α σ) :=
  let sorted := paraIds.mergeSort fun a b => decide (a.1 ≤ b.1)
  -- `dedup_by` panics on two equal neighbours
  if (sorted.map (·.1)).IsChain (· ≠ ·) ∧ sorted.length ≤ cfg.maxLengthParaIds ∧
      ∀ p ∈ sorted, cfg.encodedSize p.2 ≤ cfg.maxGenesisDataSize then
    some ⟨sorted.map (·.1), [], [], fun _ => none, currency⟩
  else none

/-- `schedule_parachain_change`: the updater works on the latest list and may write storage
itself; the list it returns is scheduled for `SessionDelay` sessions ahead. -/
def scheduleParachainChange (updater : List ParaId → State α σ → Except DispatchError (List ParaId × State α σ))
    (st : State α σ) : Except DispatchError (State α σ) := do
  let pendingParas := st.pendingParaIds
  let (newParas, st) ← updater (baseParas st) st
  let scheduledSession := currentSessionIndex + cfg.sessionDelay
  pure { st with pendingParaIds := schedule pendingParas scheduledSession newParas }

variable [DecidableEq α]

def register (paraId : ParaId) (genesisData : γ) (st : State α σ) : Except DispatchError (State α σ) := do
  let account ← okOr (ensureSigned origin) .badOrigin
  let deposit := cfg.depositAmount
  if !cfg.currency.canReserve account deposit st.currency then throw (.module .notSufficientDeposit)
  if (binarySearch compare (baseParas st) paraId).isOk then throw (.module .paraIdAlreadyRegistered)
  let pendingVerification ← match binarySearch compare st.pendingVerification paraId with
    | .ok _ => throw (.module .paraIdAlreadyRegistered)
    | .error index => okOr (tryInsert cfg.maxLengthParaIds st.pendingVerification index paraId) (.module .paraIdListFull)
  if cfg.maxGenesisDataSize < cfg.encodedSize genesisData then throw (.module .genesisDataTooBig)
  let currency ← okOr (cfg.currency.reserve account deposit st.currency) .currency
  pure { setDeposit st paraId (some ⟨account, deposit⟩) with pendingVerification, currency }

/-- The para id leaves the list, or `PendingVerification` when it is not in the list yet;
its deposit, if it has one, goes back to its creator. -/
def deregister (paraId : ParaId) (st : State α σ) : Except DispatchError (State α σ) := do
  if !cfg.registrarOrigin origin then throw .badOrigin
  let st ← scheduleParachainChange cfg currentSessionIndex (fun paraIds st =>
    match binarySearch compare paraIds paraId with
    | .ok index => pure (paraIds.eraseIdx index, st)
    | .error _ =>
      match binarySearch compare st.pendingVerification paraId with
      | .ok index => pure (paraIds, { st with pendingVerification := st.pendingVerification.eraseIdx index })
      | .error _ => throw (.module .paraIdNotRegistered)) st
  -- a para id registered at genesis has no deposit
  match st.registrarDeposit paraId with
  | some assetInfo =>
    let st := { st with currency := cfg.currency.unreserve assetInfo.creator assetInfo.deposit st.currency }
    pure (setDeposit st paraId none)
  | none => pure st

def markValidForCollating (paraId : ParaId) (st : State α σ) : Except DispatchError (State α σ) := do
  if !cfg.registrarOrigin origin then throw .badOrigin
  let pendingVerification ← match binarySearch compare st.pendingVerification paraId with
    | .ok i => pure (st.pendingVerification.eraseIdx i)
    | .error _ => throw (.module .paraIdNotInPendingVerification)
  let st ← scheduleParachainChange cfg currentSessionIndex (fun paraIds st =>
    match binarySearch compare paraIds paraId with
    | .ok _ => throw (.module .paraIdAlreadyRegistered)
    | .error index => do
      let paraIds ← okOr (tryInsert cfg.maxLengthParaIds paraIds index paraId) (.module .paraIdListFull)
      pure (paraIds, st)) st
  pure { st with pendingVerification }

/-- `EitherOfDiverse<RegistrarOrigin, EnsureSigned>`: a signed origin must be the creator of
the para id's deposit. The boot nodes it writes are left out. -/
def setBootNodes (paraId : ParaId) (st : State α σ) : Except DispatchError (State α σ) := do
  if !cfg.registrarOrigin origin then
    let signedAccount ← okOr (ensureSigned origin) .badOrigin
    let depositInfo ← okOr (st.registrarDeposit paraId) .badOrigin
    if depositInfo.creator ≠ signedAccount then throw .badOrigin
  pure st

end Calls

inductive Call (γ : Type) where
  | register (paraId : ParaId) (genesisData : γ)
  | deregister (paraId : ParaId)
  | markValidForCollating (paraId : ParaId)
  | setBootNodes (paraId : ParaId)

def dispatch [DecidableEq α] (cfg : Config α γ σ) (currentSessionIndex : Nat) (origin : RawOrigin α) :
    Call γ → State α σ → Except DispatchError (State α σ)
  | .register paraId genesisData => register cfg origin paraId genesisData
  | .deregister paraId => deregister cfg currentSessionIndex origin paraId
  | .markValidForCollating paraId => markValidForCollating cfg currentSessionIndex origin paraId
  | .setBootNodes paraId => setBootNodes cfg origin paraId

/- What a successful call did, once per call. -/

section Steps
variable {cfg : Config α γ σ} {s : Nat} {origin : RawOrigin α} {paraId : ParaId} {st st' : State α σ}

theorem buildSome {paraIds : List (ParaId × γ)} {currency : σ} (h : build cfg paraIds currency = some st) :
    let sorted := paraIds.mergeSort fun a b => decide (a.1 ≤ b.1)
    ((sorted.map (·.1)).IsChain (· ≠ ·) ∧ sorted.length ≤ cfg.maxLengthParaIds ∧
        ∀ p ∈ sorted, cfg.encodedSize p.2 ≤ cfg.maxGenesisDataSize) ∧
      st = ⟨sorted.map (·.1), [], [], fun _ => none, currency⟩ := by
  simp only [build] at h
  split at h
  · exact ⟨‹_›, (Option.some.inj h).symm⟩
  · cases h

@[simp] theorem okOrEqOk {x : Option β} {e : DispatchError} {b : β} : okOr x e = .ok b ↔ x = some b := by
  cases x <;> simp [okOr]

theorem scheduleParachainChangeOk {updater : List ParaId → State α σ → Except DispatchError (List ParaId × State α σ)}
    (h : scheduleParachainChange cfg s updater st = .ok st') :
    ∃ newParas st₁, updater (baseParas st) st = .ok (newParas, st₁) ∧
      st' = { st₁ with pendingParaIds := schedule st.pendingParaIds (s + cfg.sessionDelay) newParas } := by
  simp only [scheduleParachainChange, bindEqOk] at h
  obtain ⟨⟨newParas, st₁⟩, updated, scheduled⟩ := h
  exact ⟨newParas, st₁, updated, (pureEqOk.1 scheduled).symm⟩

variable [DecidableEq α]

theorem registerOk {genesisData : γ} (h : register cfg origin paraId genesisData st = .ok st') :
    ∃ account index pendingVerification currency,
      ensureSigned origin = some account ∧
      (∃ index', binarySearch compare (baseParas st) paraId = .error index') ∧
      binarySearch compare st.pendingVerification paraId = .error index ∧
      tryInsert cfg.maxLengthParaIds st.pendingVerification index paraId = some pendingVerification ∧
      cfg.currency.reserve account cfg.depositAmount st.currency = some currency ∧
      st' = { setDeposit st paraId (some ⟨account, cfg.depositAmount⟩) with pendingVerification, currency } := by
  simp only [register, bindEqOk, okOrEqOk] at h
  obtain ⟨account, signed, h⟩ := h
  -- the checks in the order of the source, each failure a `throw`
  split at h
  · simp at h
  obtain ⟨index', unlisted⟩ : ∃ index', binarySearch compare (baseParas st) paraId = .error index' := by
    cases found : binarySearch compare (baseParas st) paraId with
    | ok i => simp [found, Except.isOk, Except.toBool, bindEqOk] at h
    | error i => exact ⟨i, rfl⟩
  simp only [unlisted, Except.isOk, Except.toBool, Bool.false_eq_true, ↓reduceIte] at h
  cases searched : binarySearch compare st.pendingVerification paraId with
  | ok i => simp [searched, bindEqOk] at h
  | error index =>
    simp only [searched] at h
    obtain ⟨pendingVerification, inserted, h⟩ := bindEqOk.1 h
    split at h
    · simp [bindEqOk] at h
    obtain ⟨currency, reserved, done⟩ := bindEqOk.1 h
    exact ⟨account, index, pendingVerification, currency, signed, ⟨index', unlisted⟩, rfl, okOrEqOk.1 inserted,
      okOrEqOk.1 reserved, (pureEqOk.1 done).symm⟩

omit [DecidableEq α] in
theorem deregisterScheduled {newParas : List ParaId} {st₁ : State α σ}
    (h : (match binarySearch compare (baseParas st) paraId with
      | .ok index => pure ((baseParas st).eraseIdx index, st)
      | .error _ =>
        match binarySearch compare st.pendingVerification paraId with
        | .ok index => pure (baseParas st, { st with pendingVerification := st.pendingVerification.eraseIdx index })
        | .error _ => throw (.module .paraIdNotRegistered) : Except DispatchError (List ParaId × State α σ)) =
      .ok (newParas, st₁)) :
    (∃ i, binarySearch compare (baseParas st) paraId = .ok i ∧ newParas = (baseParas st).eraseIdx i ∧ st₁ = st) ∨
      (∃ j i, binarySearch compare (baseParas st) paraId = .error j ∧
        binarySearch compare st.pendingVerification paraId = .ok i ∧ newParas = baseParas st ∧
        st₁ = { st with pendingVerification := st.pendingVerification.eraseIdx i }) := by
  split at h
  · rename_i i found
    obtain ⟨rfl, rfl⟩ := Prod.mk.inj (pureEqOk.1 h).symm
    exact .inl ⟨i, found, rfl, rfl⟩
  · rename_i j missing
    split at h
    · rename_i i found
      obtain ⟨rfl, rfl⟩ := Prod.mk.inj (pureEqOk.1 h).symm
      exact .inr ⟨j, i, missing, found, rfl, rfl⟩
    · simp at h

theorem deregisterOk (h : deregister cfg s origin paraId st = .ok st') :
    cfg.registrarOrigin origin ∧ ∃ newParas st₁,
      ((∃ i, binarySearch compare (baseParas st) paraId = .ok i ∧ newParas = (baseParas st).eraseIdx i ∧ st₁ = st) ∨
        (∃ j i, binarySearch compare (baseParas st) paraId = .error j ∧
          binarySearch compare st.pendingVerification paraId = .ok i ∧ newParas = baseParas st ∧
          st₁ = { st with pendingVerification := st.pendingVerification.eraseIdx i })) ∧
      let scheduled := { st₁ with pendingParaIds := schedule st.pendingParaIds (s + cfg.sessionDelay) newParas }
      ((∃ info, st.registrarDeposit paraId = some info ∧
          st' = setDeposit { scheduled with currency := cfg.currency.unreserve info.creator info.deposit st.currency }
            paraId none) ∨
        st.registrarDeposit paraId = none ∧ st' = scheduled) := by
  unfold deregister at h
  split at h
  · simp at h
  rename_i allowed
  obtain ⟨scheduled, hscheduled, h⟩ := bindEqOk.1 h
  obtain ⟨newParas, st₁, updated, rfl⟩ := scheduleParachainChangeOk hscheduled
  have changed := deregisterScheduled updated
  have same : st₁.registrarDeposit = st.registrarDeposit ∧ st₁.currency = st.currency := by
    rcases changed with ⟨_, _, _, rfl⟩ | ⟨_, _, _, _, _, rfl⟩ <;> exact ⟨rfl, rfl⟩
  refine ⟨by simpa using allowed, newParas, st₁, changed, ?_⟩
  split at h
  · rename_i info deposited
    rw [same.1] at deposited
    exact .inl ⟨info, deposited, by rw [← same.2]; exact (pureEqOk.1 h).symm⟩
  · rename_i none'
    rw [same.1] at none'
    exact .inr ⟨none', (pureEqOk.1 h).symm⟩

theorem deregisterFields (h : deregister cfg s origin paraId st = .ok st') :
    ∃ newParas,
      ((∃ i, binarySearch compare (baseParas st) paraId = .ok i ∧ newParas = (baseParas st).eraseIdx i ∧
          st'.pendingVerification = st.pendingVerification) ∨
        (∃ j i, binarySearch compare (baseParas st) paraId = .error j ∧
          binarySearch compare st.pendingVerification paraId = .ok i ∧ newParas = baseParas st ∧
          st'.pendingVerification = st.pendingVerification.eraseIdx i)) ∧
      st'.registeredParaIds = st.registeredParaIds ∧
      st'.pendingParaIds = schedule st.pendingParaIds (s + cfg.sessionDelay) newParas ∧
      st'.registrarDeposit = Function.update st.registrarDeposit paraId none ∧
      ((∃ info, st.registrarDeposit paraId = some info ∧
          st'.currency = cfg.currency.unreserve info.creator info.deposit st.currency) ∨
        st.registrarDeposit paraId = none ∧ st'.currency = st.currency) := by
  obtain ⟨-, newParas, st₁, changed, released⟩ := deregisterOk h
  have same : st₁.registeredParaIds = st.registeredParaIds ∧ st₁.registrarDeposit = st.registrarDeposit ∧
      st₁.currency = st.currency := by
    rcases changed with ⟨_, _, _, rfl⟩ | ⟨_, _, _, _, _, rfl⟩ <;> exact ⟨rfl, rfl, rfl⟩
  have kept : st'.registeredParaIds = st₁.registeredParaIds ∧ st'.pendingVerification = st₁.pendingVerification ∧
      st'.pendingParaIds = schedule st.pendingParaIds (s + cfg.sessionDelay) newParas ∧
      st'.registrarDeposit = Function.update st.registrarDeposit paraId none := by
    rcases released with ⟨_, _, rfl⟩ | ⟨none', rfl⟩
    · exact ⟨rfl, rfl, rfl, by simp only [setDeposit, same.2.1]⟩
    · exact ⟨rfl, rfl, rfl, by rw [Function.update_eq_self_iff.2 none'.symm, same.2.1]⟩
  refine ⟨newParas, ?_, kept.1.trans same.1, kept.2.2.1, kept.2.2.2, ?_⟩
  · rcases changed with ⟨i, found, rfl, rfl⟩ | ⟨j, i, missing, found, rfl, rfl⟩
    · exact .inl ⟨i, found, rfl, kept.2.1⟩
    · exact .inr ⟨j, i, missing, found, rfl, kept.2.1⟩
  · rcases released with ⟨info, deposited, rfl⟩ | ⟨none', rfl⟩
    · exact .inl ⟨info, deposited, rfl⟩
    · exact .inr ⟨none', same.2.2⟩

omit [DecidableEq α] in
theorem markValidForCollatingOk (h : markValidForCollating cfg s origin paraId st = .ok st') :
    cfg.registrarOrigin origin ∧ ∃ i j newParas,
      binarySearch compare st.pendingVerification paraId = .ok i ∧
      binarySearch compare (baseParas st) paraId = .error j ∧
      tryInsert cfg.maxLengthParaIds (baseParas st) j paraId = some newParas ∧
      st' = { st with
        pendingVerification := st.pendingVerification.eraseIdx i
        pendingParaIds := schedule st.pendingParaIds (s + cfg.sessionDelay) newParas } := by
  unfold markValidForCollating at h
  by_cases allowed : cfg.registrarOrigin origin = true
  swap
  · simp [allowed] at h
  cases found : binarySearch compare st.pendingVerification paraId with
  | error _ => simp [found, allowed] at h
  | ok i =>
    simp only [found, allowed, Bool.not_true, Bool.false_eq_true, ↓reduceIte] at h
    obtain ⟨_, removed, h⟩ := bindEqOk.1 h
    obtain ⟨scheduled, hscheduled, done⟩ := bindEqOk.1 h
    obtain ⟨newParas, st₁, updated, rfl⟩ := scheduleParachainChangeOk hscheduled
    split at updated
    · simp at updated
    · rename_i j missing
      obtain ⟨inserted, insertedOk, same⟩ := mapEqOk.1 updated
      obtain ⟨rfl, rfl⟩ := Prod.mk.inj same
      rw [← pureEqOk.1 removed] at done
      exact ⟨allowed, i, j, inserted, rfl, missing, okOrEqOk.1 insertedOk, (pureEqOk.1 done).symm⟩

theorem setBootNodesOk (h : setBootNodes cfg origin paraId st = .ok st') : st' = st := by
  simp only [setBootNodes] at h
  split at h
  · obtain ⟨_, _, h⟩ := bindEqOk.1 h
    obtain ⟨_, _, h⟩ := bindEqOk.1 h
    split at h
    · simp [mapEqOk] at h
    · exact (pureEqOk.1 h).symm
  · exact (pureEqOk.1 h).symm

end Steps

structure SessionChangeOutcome where
  prevParas : List ParaId
  newParas : Option (List ParaId)
  deriving DecidableEq, Repr

def initializerOnNewSession (sessionIndex : Nat) (st : State α σ) : SessionChangeOutcome × State α σ :=
  let (newParas, future) := applyDue st.pendingParaIds sessionIndex
  (⟨st.registeredParaIds, newParas⟩,
    { st with registeredParaIds := newParas.getD st.registeredParaIds, pendingParaIds := future })

theorem initializerOnNewSessionIdle (t : Nat) {st : State α σ} (idle : st.pendingParaIds = []) :
    (initializerOnNewSession t st).2 = st := by
  cases st
  cases idle
  rfl

/-- `GetSessionContainerChains`: the list `sessionIndex` will have. -/
def sessionContainerChains (sessionIndex : Nat) (st : State α σ) : List ParaId :=
  valueAt st.registeredParaIds st.pendingParaIds sessionIndex

def CallStep [DecidableEq α] (cfg : Config α γ σ) (s : Nat) (st st' : State α σ) : Prop :=
  ∃ (origin : RawOrigin α) (call : Call γ), dispatch cfg s origin call st = .ok st'

inductive Reachable [DecidableEq α] (cfg : Config α γ σ) : Nat → State α σ → Prop where
  | genesis {paraIds : List (ParaId × γ)} {currency : σ} {st : State α σ} :
      build cfg paraIds currency = some st → Reachable cfg 0 (initializerOnNewSession 0 st).2
  | call {s : Nat} {st st' : State α σ} (origin : RawOrigin α) (call : Call γ) :
      Reachable cfg s st → dispatch cfg s origin call st = .ok st' → Reachable cfg s st'
  | newSession {s : Nat} {st : State α σ} :
      Reachable cfg s st → Reachable cfg (s + 1) (initializerOnNewSession (s + 1) st).2

/- A call either leaves the para id lists alone or schedules one change at the scheduled
session; it never touches the registered list. -/

section Queue
variable [DecidableEq α] {cfg : Config α γ σ} {s : Nat} {st st' : State α σ}

theorem dispatchQueue {origin : RawOrigin α} {call : Call γ} (h : dispatch cfg s origin call st = .ok st') :
    st'.registeredParaIds = st.registeredParaIds ∧
      (st'.pendingParaIds = st.pendingParaIds ∨
        ∃ newParas, st'.pendingParaIds = schedule st.pendingParaIds (s + cfg.sessionDelay) newParas) := by
  cases call with
  | register paraId genesisData =>
    obtain ⟨_, _, _, _, _, _, _, _, _, rfl⟩ := registerOk h
    exact ⟨rfl, .inl rfl⟩
  | deregister paraId =>
    obtain ⟨newParas, _, registered, scheduled, _⟩ := deregisterFields h
    exact ⟨registered, .inr ⟨newParas, scheduled⟩⟩
  | markValidForCollating paraId =>
    obtain ⟨_, _, _, newParas, _, _, _, rfl⟩ := markValidForCollatingOk h
    exact ⟨rfl, .inr ⟨newParas, rfl⟩⟩
  | setBootNodes paraId =>
    obtain rfl := setBootNodesOk h
    exact ⟨rfl, .inl rfl⟩

theorem sessionContainerChainsDispatch {origin : RawOrigin α} {call : Call γ} {t : Nat}
    (before : t < s + cfg.sessionDelay) (h : dispatch cfg s origin call st = .ok st') :
    sessionContainerChains t st' = sessionContainerChains t st := by
  obtain ⟨registered, same | ⟨newParas, scheduled⟩⟩ := dispatchQueue h
  · simp only [sessionContainerChains, registered, same]
  · simp only [sessionContainerChains, registered, scheduled]
    exact valueAtSchedule before

theorem dispatchWindow {origin : RawOrigin α} {call : Call γ} (positive : 0 < cfg.sessionDelay)
    (inv : Window s cfg.sessionDelay st.pendingParaIds) (h : dispatch cfg s origin call st = .ok st') :
    Window s cfg.sessionDelay st'.pendingParaIds := by
  obtain ⟨-, same | ⟨newParas, scheduled⟩⟩ := dispatchQueue h
  · exact same ▸ inv
  · exact scheduled ▸ scheduleWindow positive inv

theorem sessionContainerChainsCalls {t : Nat} (before : t < s + cfg.sessionDelay)
    (calls : Relation.ReflTransGen (CallStep cfg s) st st') :
    sessionContainerChains t st' = sessionContainerChains t st := by
  induction calls with
  | refl => rfl
  | tail _ step same =>
    obtain ⟨origin, call, h⟩ := step
    rw [sessionContainerChainsDispatch before h, same]

end Queue

/- A call made at the new session's index in the block whose end applies the change to that
session has the effect it has once the change is applied: the calls read the para id lists
only through the latest one, which the change keeps, and schedule after the session the
change applies. -/

section NewSession
variable [DecidableEq α] {cfg : Config α γ σ} {t : Nat} {origin : RawOrigin α} {paraId : ParaId} {st : State α σ}

omit [DecidableEq α] in
theorem baseParasNewSession (sorted : st.pendingParaIds.Pairwise fun a b => a.1 < b.1) :
    baseParas (initializerOnNewSession t st).2 = baseParas st :=
  applyDueLatest sorted

theorem registerNewSession (sorted : st.pendingParaIds.Pairwise fun a b => a.1 < b.1) (genesisData : γ) :
    register cfg origin paraId genesisData (initializerOnNewSession t st).2 =
      (fun st' => (initializerOnNewSession t st').2) <$> register cfg origin paraId genesisData st := by
  simp only [register, baseParasNewSession sorted]
  cases searched : binarySearch compare st.pendingVerification paraId <;>
    simp only [searched, initializerOnNewSession, setDeposit, map_bind, mapIte, map_pure]

theorem deregisterNewSession (positive : 0 < cfg.sessionDelay) (sorted : st.pendingParaIds.Pairwise fun a b => a.1 < b.1) :
    deregister cfg t origin paraId (initializerOnNewSession t st).2 =
      (fun st' => (initializerOnNewSession t st').2) <$> deregister cfg t origin paraId st := by
  simp only [deregister, scheduleParachainChange, baseParasNewSession sorted]
  cases binarySearch compare (baseParas st) paraId <;>
    cases searched : binarySearch compare st.pendingVerification paraId <;>
    cases deposited : st.registrarDeposit paraId <;>
    simp only [searched, deposited, initializerOnNewSession, setDeposit, mapIte, map_pure, mapThrow, pure_bind, throwBind,
      applyDueSchedule (Nat.lt_add_of_pos_right positive)]

omit [DecidableEq α] in
theorem markValidForCollatingNewSession (positive : 0 < cfg.sessionDelay)
    (sorted : st.pendingParaIds.Pairwise fun a b => a.1 < b.1) :
    markValidForCollating cfg t origin paraId (initializerOnNewSession t st).2 =
      (fun st' => (initializerOnNewSession t st').2) <$> markValidForCollating cfg t origin paraId st := by
  simp only [markValidForCollating, scheduleParachainChange, baseParasNewSession sorted]
  cases binarySearch compare (baseParas st) paraId with
  | ok i =>
    cases searched : binarySearch compare st.pendingVerification paraId <;>
      simp only [searched, initializerOnNewSession, mapIte, mapThrow, pure_bind, throwBind]
  | error j =>
    cases inserted : tryInsert cfg.maxLengthParaIds (baseParas st) j paraId <;>
      cases searched : binarySearch compare st.pendingVerification paraId <;>
      simp only [inserted, searched, okOr, initializerOnNewSession, mapIte, map_pure, mapThrow, pure_bind, throwBind,
        applyDueSchedule (Nat.lt_add_of_pos_right positive)]

theorem setBootNodesNewSession :
    setBootNodes cfg origin paraId (initializerOnNewSession t st).2 =
      (fun st' => (initializerOnNewSession t st').2) <$> setBootNodes cfg origin paraId st := by
  simp only [setBootNodes]
  cases deposited : st.registrarDeposit paraId <;>
    simp only [deposited, initializerOnNewSession, map_bind, mapIte, map_pure, mapThrow, throwBind]

theorem dispatchNewSession (positive : 0 < cfg.sessionDelay) (sorted : st.pendingParaIds.Pairwise fun a b => a.1 < b.1)
    (call : Call γ) :
    dispatch cfg t origin call (initializerOnNewSession t st).2 =
      (fun st' => (initializerOnNewSession t st').2) <$> dispatch cfg t origin call st := by
  cases call with
  | register paraId genesisData => exact registerNewSession sorted genesisData
  | deregister paraId => exact deregisterNewSession positive sorted
  | markValidForCollating paraId => exact markValidForCollatingNewSession positive sorted
  | setBootNodes paraId => exact setBootNodesNewSession

omit [DecidableEq α] in
theorem sessionContainerChainsNewSession (sorted : st.pendingParaIds.Pairwise fun a b => a.1 < b.1) {later : Nat}
    (after : t ≤ later) : sessionContainerChains later (initializerOnNewSession t st).2 = sessionContainerChains later st :=
  valueAtApplyDue sorted after

end NewSession

/- A session change makes registered what the queue predicted for the new session. -/

theorem registeredAfter (t : Nat) (st : State α σ) :
    (initializerOnNewSession t st).2.registeredParaIds = sessionContainerChains t st :=
  applyDueValue

theorem Reachable.window [DecidableEq α] {cfg : Config α γ σ} {s : Nat} {st : State α σ}
    (positive : 0 < cfg.sessionDelay) (reach : Reachable cfg s st) : Window s cfg.sessionDelay st.pendingParaIds := by
  induction reach with
  | genesis built =>
    obtain ⟨-, rfl⟩ := buildSome built
    exact Window.nil
  | call origin call _ dispatched inv => exact dispatchWindow positive inv dispatched
  | newSession _ inv => exact applyDueWindow inv

theorem Reachable.calls [DecidableEq α] {cfg : Config α γ σ} {s : Nat} {st st' : State α σ}
    (reach : Reachable cfg s st) (calls : Relation.ReflTransGen (CallStep cfg s) st st') : Reachable cfg s st' := by
  induction calls with
  | refl => exact reach
  | tail _ step reached =>
    obtain ⟨origin, call, h⟩ := step
    exact .call origin call reached h

end Tanssi.Registrar
