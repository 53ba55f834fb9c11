import Tanssi.Registrar
import Tanssi.FiniteSum

/-! What every reachable state of the registrar keeps. Every para id list is strictly
increasing, so that each `binary_search` of the calls answers right; `PendingVerification`
is apart from the latest list; and a para id has a deposit only while it is in one of the
two. Then `register` never finds a deposit to overwrite, and, for a currency that reserves
exactly and unreserves all it can, what an account has reserved besides the deposits
recorded for it never changes: each deposit comes back whole at the one `deregister` that
drops it. -/
namespace Tanssi.Registrar
open Frame BinarySearch DelayedChanges FiniteSum

variable {α γ σ : Type}

structure ListsValid (cfg : Config α γ σ) (s : Nat) (st : State α σ) : Prop where
  registered : Sorted compare st.registeredParaIds
  pending : ∀ c ∈ st.pendingParaIds, Sorted compare c.2
  verification : Sorted compare st.pendingVerification
  queue : Ahead s cfg.sessionDelay st.pendingParaIds
  disjoint : ∀ p ∈ st.pendingVerification, p ∉ baseParas st
  deposited : ∀ p, st.registrarDeposit p ≠ none → p ∈ st.pendingVerification ∨ p ∈ baseParas st

namespace ListsValid
variable {cfg : Config α γ σ} {s : Nat} {st st' : State α σ} {paraId : ParaId}

theorem base (inv : ListsValid cfg s st) : Sorted compare (baseParas st) :=
  latestOf inv.registered inv.pending

theorem baseScheduled (inv : ListsValid cfg s st) {newParas : List ParaId}
    (scheduled : st'.pendingParaIds = schedule st.pendingParaIds (s + cfg.sessionDelay) newParas) :
    baseParas st' = newParas := by
  rw [baseParas, scheduled]
  exact scheduleLatest inv.queue.sorted inv.queue.within

theorem noDeposit (inv : ListsValid cfg s st) {i j : Nat}
    (unlisted : binarySearch compare (baseParas st) paraId = .error i)
    (unverified : binarySearch compare st.pendingVerification paraId = .error j) :
    st.registrarDeposit paraId = none := by
  by_contra deposited
  rcases inv.deposited paraId deposited with listed | listed
  · exact binarySearchErrorNotMem inv.verification unverified listed
  · exact binarySearchErrorNotMem inv.base unlisted listed

theorem genesis {paraIds : List (ParaId × γ)} {currency : σ} (built : build cfg paraIds currency = some st) :
    ListsValid cfg 0 (initializerOnNewSession 0 st).2 := by
  obtain ⟨⟨apart, -, -⟩, rfl⟩ := buildSome built
  rw [initializerOnNewSessionIdle 0 rfl]
  have sorted : (paraIds.mergeSort fun a b => decide (a.1 ≤ b.1)).Pairwise fun a b => decide (a.1 ≤ b.1) = true :=
    @List.pairwise_mergeSort _ (fun a b => decide (a.1 ≤ b.1))
      (fun _ _ _ ab bc => decide_eq_true (Nat.le_trans (of_decide_eq_true ab) (of_decide_eq_true bc)))
      (fun a b => by rcases Nat.le_total a.1 b.1 with le | le <;> simp [le]) paraIds
  have increasing := sortedOfIsChain (List.pairwise_map.2 (sorted.imp of_decide_eq_true)) apart
  exact ⟨increasing, by simp, .nil, ⟨.nil, by simp⟩, by simp, by simp⟩

theorem afterNewSession (inv : ListsValid cfg s st) : ListsValid cfg (s + 1) (initializerOnNewSession (s + 1) st).2 := by
  have base' : baseParas (initializerOnNewSession (s + 1) st).2 = baseParas st := applyDueLatest inv.queue.sorted
  refine ⟨applyDueOf inv.registered inv.pending, fun c listed => inv.pending c (applyDueMem listed),
    inv.verification, applyDueAhead inv.queue, fun p listed => ?_, fun p deposited => ?_⟩
  · rw [base']
    exact inv.disjoint p listed
  · rw [base']
    exact inv.deposited p deposited

theorem afterMarkValidForCollating (inv : ListsValid cfg s st) {origin : RawOrigin α}
    (h : markValidForCollating cfg s origin paraId st = .ok st') : ListsValid cfg s st' := by
  obtain ⟨-, i, j, newParas, found, missing, inserted, changed⟩ := markValidForCollatingOk h
  have base' : baseParas st' = newParas := inv.baseScheduled (by subst changed; rfl)
  subst changed
  obtain rfl := tryInsertSome inserted
  have room := binarySearchErrorBound missing
  have removed : ∀ p, p ∈ st.pendingVerification.eraseIdx i ↔ p ≠ paraId ∧ p ∈ st.pendingVerification := by
    intro p
    rw [eraseIdxFound inv.verification found, (sortedNodup inv.verification).mem_erase_iff]
  refine ⟨inv.registered, fun c listed => ?_, List.Pairwise.sublist (List.eraseIdx_sublist _ _) inv.verification,
    scheduleAhead inv.queue, fun p listed => ?_, fun p deposited => ?_⟩
  · rcases scheduleMem listed with fresh | old
    · exact fresh ▸ insertIdxSorted inv.base missing
    · exact inv.pending c old
  · rw [base', List.mem_insertIdx room]
    obtain ⟨other, verified⟩ := (removed p).1 listed
    rintro (same | old)
    · exact other same
    · exact inv.disjoint p verified old
  · rw [base', List.mem_insertIdx room, removed]
    by_cases same : p = paraId
    · exact .inr (.inl same)
    · exact (inv.deposited p deposited).imp (fun verified => ⟨same, verified⟩) .inr

variable [DecidableEq α]

theorem afterRegister (inv : ListsValid cfg s st) {origin : RawOrigin α} {genesisData : γ}
    (h : register cfg origin paraId genesisData st = .ok st') : ListsValid cfg s st' := by
  obtain ⟨_, index, _, _, -, ⟨j, unlisted⟩, searched, inserted, -, rfl⟩ := registerOk h
  obtain rfl := tryInsertSome inserted
  have room := binarySearchErrorBound searched
  have fresh : paraId ∉ baseParas st := binarySearchErrorNotMem inv.base unlisted
  refine ⟨inv.registered, inv.pending, insertIdxSorted inv.verification searched, inv.queue,
    fun p listed => ?_, fun p deposited => ?_⟩
  · rcases (List.mem_insertIdx room).1 listed with rfl | verified
    · exact fresh
    · exact inv.disjoint p verified
  · by_cases same : p = paraId
    · exact .inl ((List.mem_insertIdx room).2 (.inl same))
    · have kept : st.registrarDeposit p ≠ none := by simpa [setDeposit, Function.update_of_ne same] using deposited
      exact (inv.deposited p kept).imp (fun verified => (List.mem_insertIdx room).2 (.inr verified)) id

theorem afterDeregister (inv : ListsValid cfg s st) {origin : RawOrigin α}
    (h : deregister cfg s origin paraId st = .ok st') : ListsValid cfg s st' := by
  obtain ⟨newParas, changed, registered, scheduled, deposits, -⟩ := deregisterFields h
  have base' := inv.baseScheduled scheduled
  have shrunk : newParas.Sublist (baseParas st) ∧ st'.pendingVerification.Sublist st.pendingVerification ∧
      ∀ p, p ≠ paraId → (p ∈ baseParas st → p ∈ newParas) ∧
        (p ∈ st.pendingVerification → p ∈ st'.pendingVerification) := by
    rcases changed with ⟨i, found, rfl, same⟩ | ⟨j, i, -, found, rfl, erased⟩
    · rw [same, eraseIdxFound inv.base found]
      exact ⟨List.erase_sublist, List.Sublist.refl _, fun p other => ⟨(List.mem_erase_of_ne other).2, id⟩⟩
    · rw [erased, eraseIdxFound inv.verification found]
      exact ⟨List.Sublist.refl _, List.erase_sublist, fun p other => ⟨id, (List.mem_erase_of_ne other).2⟩⟩
  refine ⟨registered ▸ inv.registered, fun c listed => ?_, List.Pairwise.sublist shrunk.2.1 inv.verification,
    scheduled ▸ scheduleAhead inv.queue, fun p listed => ?_, fun p deposited => ?_⟩
  · rw [scheduled] at listed
    rcases scheduleMem listed with fresh | old
    · exact fresh ▸ List.Pairwise.sublist shrunk.1 inv.base
    · exact inv.pending c old
  · rw [base']
    exact fun kept => inv.disjoint p (shrunk.2.1.subset listed) (shrunk.1.subset kept)
  · have other : p ≠ paraId := by
      rintro rfl
      simp [deposits] at deposited
    have kept : st.registrarDeposit p ≠ none := by simpa [deposits, Function.update_of_ne other] using deposited
    rw [base']
    exact (inv.deposited p kept).imp (shrunk.2.2 p other).2 (shrunk.2.2 p other).1

theorem afterDispatch (inv : ListsValid cfg s st) {origin : RawOrigin α} {call : Call γ}
    (h : dispatch cfg s origin call st = .ok st') : ListsValid cfg s st' := by
  cases call with
  | register => exact inv.afterRegister h
  | deregister => exact inv.afterDeregister h
  | markValidForCollating => exact inv.afterMarkValidForCollating h
  | setBootNodes =>
    obtain rfl := setBootNodesOk h
    exact inv

theorem registerFresh (inv : ListsValid cfg s st) {origin : RawOrigin α} {genesisData : γ}
    (h : register cfg origin paraId genesisData st = .ok st') : st.registrarDeposit paraId = none := by
  obtain ⟨_, _, _, _, -, ⟨_, unlisted⟩, searched, -⟩ := registerOk h
  exact inv.noDeposit unlisted searched

end ListsValid

theorem Reachable.listsValid [DecidableEq α] {cfg : Config α γ σ} {s : Nat} {st : State α σ}
    (reach : Reachable cfg s st) : ListsValid cfg s st := by
  induction reach with
  | genesis built => exact ListsValid.genesis built
  | call _ _ _ dispatched inv => exact inv.afterDispatch dispatched
  | newSession _ inv => exact inv.afterNewSession

/- The deposits. What `RegistrarDeposit` holds for an account, summed over every para id,
moves by what one write of it puts in and takes out. -/

section Deposits
variable [DecidableEq α]

def depositOf (a : α) : Option (DepositInfo α) → Nat
  | some info => if info.creator = a then info.deposit else 0
  | none => 0

noncomputable def depositsOf (a : α) (st : State α σ) : Nat := ∑ᶠ p, depositOf a (st.registrarDeposit p)

variable {cfg : Config α γ σ} {s : Nat} {st st' : State α σ} {paraId : ParaId}

theorem ListsValid.depositsFinite (inv : ListsValid cfg s st) (a : α) :
    (fun p => depositOf a (st.registrarDeposit p)).HasFiniteSupport := by
  refine (st.pendingVerification ++ baseParas st).finite_toSet.subset fun p held => ?_
  have deposited : st.registrarDeposit p ≠ none := fun none' => held (by simp [none', depositOf])
  simpa using inv.deposited p deposited

theorem depositsOfUpdate {a : α} (finite : (fun p => depositOf a (st.registrarDeposit p)).HasFiniteSupport)
    {info : Option (DepositInfo α)} (changed : st'.registrarDeposit = Function.update st.registrarDeposit paraId info) :
    depositsOf a st' + depositOf a (st.registrarDeposit paraId) = depositsOf a st + depositOf a info := by
  have moved := finsumChangeAt finite paraId (g := fun p => depositOf a (st'.registrarDeposit p)) fun p other => by
    simp only [changed, Function.update_of_ne other]
  have written : depositOf a (st'.registrarDeposit paraId) = depositOf a info := by
    rw [changed, Function.update_self]
  rw [written] at moved
  exact moved

theorem ListsValid.registerConserves (lawful : cfg.currency.Lawful) (inv : ListsValid cfg s st)
    {origin : RawOrigin α} {genesisData : γ} (h : register cfg origin paraId genesisData st = .ok st') (a : α) :
    cfg.currency.reservedBalance a st'.currency + depositsOf a st =
      cfg.currency.reservedBalance a st.currency + depositsOf a st' := by
  obtain ⟨account, _, _, currency, -, ⟨_, unlisted⟩, searched, -, reserve, changed⟩ := registerOk h
  have moved := depositsOfUpdate (inv.depositsFinite a)
    (by subst changed; rfl : st'.registrarDeposit =
      Function.update st.registrarDeposit paraId (some ⟨account, cfg.depositAmount⟩))
  have paid : st'.currency = currency := by subst changed; rfl
  rw [inv.noDeposit unlisted searched] at moved
  rw [paid]
  obtain ⟨mine, others⟩ := lawful.reserve reserve
  by_cases creator : account = a
  · subst creator
    simp only [depositOf, if_true] at moved
    rw [mine]
    omega
  · simp only [depositOf, creator, if_false] at moved
    rw [others a (Ne.symm creator)]
    omega

theorem ListsValid.deregisterConserves (lawful : cfg.currency.Lawful) (inv : ListsValid cfg s st)
    (reserved : ∀ a, depositsOf a st ≤ cfg.currency.reservedBalance a st.currency) {origin : RawOrigin α}
    (h : deregister cfg s origin paraId st = .ok st') (a : α) :
    cfg.currency.reservedBalance a st'.currency + depositsOf a st =
      cfg.currency.reservedBalance a st.currency + depositsOf a st' := by
  obtain ⟨_, -, -, -, deposits, released⟩ := deregisterFields h
  have moved := depositsOfUpdate (inv.depositsFinite a) deposits
  rcases released with ⟨info, deposited, unreserved⟩ | ⟨none', same⟩
  · have bound : depositOf a (st.registrarDeposit paraId) ≤ depositsOf a st :=
      single_le_finsum paraId (inv.depositsFinite a) fun _ => Nat.zero_le _
    rw [deposited] at moved bound
    obtain ⟨mine, others⟩ := lawful.unreserve info.creator info.deposit st.currency
    rw [unreserved]
    -- only the creator's sum and reserved balance move; the bound rules out the truncation
    by_cases creator : info.creator = a
    · subst creator
      simp only [depositOf, if_true] at moved bound
      have := reserved info.creator
      rw [mine]
      omega
    · simp only [depositOf, creator, if_false] at moved
      rw [others a (Ne.symm creator)]
      omega
  · rw [none'] at moved
    simp only [depositOf] at moved
    rw [same]
    omega

theorem ListsValid.conserves (lawful : cfg.currency.Lawful) (inv : ListsValid cfg s st)
    (reserved : ∀ a, depositsOf a st ≤ cfg.currency.reservedBalance a st.currency) {origin : RawOrigin α}
    {call : Call γ} (h : dispatch cfg s origin call st = .ok st') (a : α) :
    cfg.currency.reservedBalance a st'.currency + depositsOf a st =
      cfg.currency.reservedBalance a st.currency + depositsOf a st' := by
  cases call with
  | register => exact inv.registerConserves lawful h a
  | deregister => exact inv.deregisterConserves lawful reserved h a
  | markValidForCollating =>
    obtain ⟨-, _, _, _, _, _, _, rfl⟩ := markValidForCollatingOk h
    rfl
  | setBootNodes =>
    obtain rfl := setBootNodesOk h
    rfl

theorem Reachable.depositsReserved (lawful : cfg.currency.Lawful) (reach : Reachable cfg s st) (a : α) :
    depositsOf a st ≤ cfg.currency.reservedBalance a st.currency := by
  induction reach generalizing a with
  | genesis built =>
    obtain ⟨-, rfl⟩ := buildSome built
    rw [initializerOnNewSessionIdle 0 rfl]
    simp [depositsOf, depositOf]
  | call _ _ before dispatched reserved =>
    have := before.listsValid.conserves lawful reserved dispatched a
    have := reserved a
    omega
  | newSession _ reserved => exact reserved a

theorem registrarListsAndDeposits (lawful : cfg.currency.Lawful) (reach : Reachable cfg s st) :
    st.registeredParaIds.Pairwise (· < ·) ∧ (∀ c ∈ st.pendingParaIds, c.2.Pairwise (· < ·)) ∧
      st.pendingVerification.Pairwise (· < ·) ∧
      (∀ p ∈ st.pendingVerification, p ∉ baseParas st) ∧
      (∀ p, st.registrarDeposit p ≠ none → p ∈ st.pendingVerification ∨ p ∈ baseParas st) ∧
      (∀ origin paraId (genesisData : γ) st', register cfg origin paraId genesisData st = .ok st' →
        st.registrarDeposit paraId = none) ∧
      (∀ a, depositsOf a st ≤ cfg.currency.reservedBalance a st.currency) ∧
      (∀ origin (call : Call γ) st', dispatch cfg s origin call st = .ok st' → ∀ a,
        cfg.currency.reservedBalance a st'.currency + depositsOf a st =
          cfg.currency.reservedBalance a st.currency + depositsOf a st') ∧
      ∀ origin paraId st' info, st.registrarDeposit paraId = some info → deregister cfg s origin paraId st = .ok st' →
        st'.registrarDeposit paraId = none ∧
          cfg.currency.reservedBalance info.creator st'.currency + info.deposit =
            cfg.currency.reservedBalance info.creator st.currency := by
  have inv := reach.listsValid
  have reserved := reach.depositsReserved lawful
  refine ⟨sortedIffLt.1 inv.registered, fun c listed => sortedIffLt.1 (inv.pending c listed),
    sortedIffLt.1 inv.verification, inv.disjoint, inv.deposited, fun _ _ _ _ h => inv.registerFresh h, reserved,
    fun _ _ _ h => inv.conserves lawful reserved h, ?_⟩
  intro origin paraId st' info deposited h
  obtain ⟨_, -, -, -, deposits, -⟩ := deregisterFields h
  have moved := depositsOfUpdate (inv.depositsFinite info.creator) deposits
  have conserved := inv.deregisterConserves lawful reserved h info.creator
  rw [deposited] at moved
  simp only [depositOf, if_true] at moved
  exact ⟨by rw [deposits, Function.update_self], by omega⟩

end Deposits

/-- `pallet_balances` as the registrar uses it: a free and a reserved balance for each
account; `reserve` moves from the first to the second, `unreserve` back all it can. -/
def balances [DecidableEq α] : Currency α (α → Nat × Nat) where
  canReserve a x s := decide (x ≤ (s a).1)
  reserve a x s := if x ≤ (s a).1 then some (Function.update s a ((s a).1 - x, (s a).2 + x)) else none
  unreserve a x s := Function.update s a ((s a).1 + min x (s a).2, (s a).2 - x)
  reservedBalance a s := (s a).2

theorem balancesLawful [DecidableEq α] : (balances : Currency α (α → Nat × Nat)).Lawful where
  reserve h := by
    simp only [balances] at h
    split at h
    · cases h
      exact ⟨by simp [balances], fun b other => by simp [balances, Function.update_of_ne other]⟩
    · cases h
  unreserve a x s := ⟨by simp [balances], fun b other => by simp [balances, Function.update_of_ne other]⟩

/- Account 1 registers para 2000 right after genesis, reserving a deposit of 10 of its 50. -/

theorem registrarListsAndDepositsAfterRegister :
    let cfg : Config Nat Nat (Nat → Nat × Nat) := ⟨fun _ => true, 100, 1000, id, 2, balances, 10⟩
    let genesis : State Nat (Nat → Nat × Nat) := (initializerOnNewSession 0 ⟨[], [], [], fun _ => none, fun _ => (50, 0)⟩).2
    ∃ st, dispatch cfg 0 (.signed 1) (.register 2000 0) genesis = .ok st ∧ st.pendingVerification = [2000] ∧
      st.registrarDeposit 2000 = some ⟨1, 10⟩ ∧
      st.registeredParaIds.Pairwise (· < ·) ∧ (∀ c ∈ st.pendingParaIds, c.2.Pairwise (· < ·)) ∧
      st.pendingVerification.Pairwise (· < ·) ∧
      (∀ p ∈ st.pendingVerification, p ∉ baseParas st) ∧
      (∀ p, st.registrarDeposit p ≠ none → p ∈ st.pendingVerification ∨ p ∈ baseParas st) ∧
      (∀ origin paraId (genesisData : Nat) st', register cfg origin paraId genesisData st = .ok st' →
        st.registrarDeposit paraId = none) ∧
      (∀ a, depositsOf a st ≤ cfg.currency.reservedBalance a st.currency) ∧
      (∀ origin (call : Call Nat) st', dispatch cfg 0 origin call st = .ok st' → ∀ a,
        cfg.currency.reservedBalance a st'.currency + depositsOf a st =
          cfg.currency.reservedBalance a st.currency + depositsOf a st') ∧
      ∀ origin paraId st' info, st.registrarDeposit paraId = some info → deregister cfg 0 origin paraId st = .ok st' →
        st'.registrarDeposit paraId = none ∧
          cfg.currency.reservedBalance info.creator st'.currency + info.deposit =
            cfg.currency.reservedBalance info.creator st.currency := by
  intro cfg genesis
  have built : build cfg ([] : List (ParaId × Nat)) (fun _ => (50, 0)) = some ⟨[], [], [], fun _ => none, fun _ => (50, 0)⟩ := by
    simp [build]
  obtain ⟨st, registered, facts⟩ := toOptionAny.1 (show (dispatch cfg 0 (.signed 1) (.register 2000 0) genesis).toOption.any
    (fun st => decide (st.pendingVerification = [2000] ∧ st.registrarDeposit 2000 = some ⟨1, 10⟩)) = true by decide +kernel)
  rw [decide_eq_true_eq] at facts
  have reach : Reachable cfg 0 st := .call (.signed 1) (.register 2000 0) (.genesis built) registered
  exact ⟨st, registered, facts.1, facts.2, registrarListsAndDeposits balancesLawful reach⟩

end Tanssi.Registrar
