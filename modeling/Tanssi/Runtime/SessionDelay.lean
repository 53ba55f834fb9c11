import Tanssi.Runtime.ApplySession

/-! The session-delayed queues of the configuration and the registrar, with the
`SessionDelay` of 2 the runtime gives both. In every run each queue holds changes for the
next two sessions only, strictly increasing in the session; a session change finds at most
one change due; and what a getter predicts for the next session at any point of the
current one is what the change to it makes active. -/
namespace Tanssi.Runtime
open Frame DelayedChanges

variable {α γ σ : Type} [DecidableEq α]

theorem sessionDelayedChangesPredicted {cfg : Registrar.Config α γ σ} (delay : cfg.sessionDelay = 2) {s : Nat}
    {config config' : Configuration.State} {registrar registrar' : Registrar.State α σ}
    (configReach : Configuration.Reachable α configurationSessionDelay s config)
    (configCalls : Relation.ReflTransGen (Configuration.CallStep α configurationSessionDelay s) config config')
    (registrarReach : Registrar.Reachable cfg s registrar)
    (registrarCalls : Relation.ReflTransGen (Registrar.CallStep cfg s) registrar registrar') :
    (Window s 2 config.pendingConfigs ∧ (due config.pendingConfigs (s + 1)).1.length ≤ 1 ∧
      let active := (Configuration.initializerOnNewSession (s + 1) config').2.activeConfig
      Configuration.collatorsPerContainer (s + 1) config = active.collatorsPerContainer ∧
        Configuration.minCollatorsForOrchestrator (s + 1) config = active.minOrchestratorCollators ∧
        Configuration.maxCollatorsForOrchestrator (s + 1) config = active.maxOrchestratorCollators) ∧
      Window s 2 registrar.pendingParaIds ∧ (due registrar.pendingParaIds (s + 1)).1.length ≤ 1 ∧
      Registrar.sessionContainerChains (s + 1) registrar =
        (Registrar.initializerOnNewSession (s + 1) registrar').2.registeredParaIds := by
  have configWindow : Window s 2 config.pendingConfigs := configReach.window (by decide)
  have registrarWindow : Window s 2 registrar.pendingParaIds := delay ▸ registrarReach.window (by omega)
  -- the calls of the session leave the next session's value, which the change makes active
  have predicted : Configuration.configAt (s + 1) config =
      (Configuration.initializerOnNewSession (s + 1) config').2.activeConfig := by
    rw [Configuration.activeConfigAfter, Configuration.configAtCalls (by simp [configurationSessionDelay]) configCalls]
  have registered : (Registrar.initializerOnNewSession (s + 1) registrar').2.registeredParaIds =
      Registrar.sessionContainerChains (s + 1) registrar := by
    rw [Registrar.registeredAfter, Registrar.sessionContainerChainsCalls (by omega) registrarCalls]
  refine ⟨⟨configWindow, dueAtMostOne configWindow, ?_⟩, registrarWindow, dueAtMostOne registrarWindow, registered.symm⟩
  exact ⟨congrArg (·.collatorsPerContainer) predicted, congrArg (·.minOrchestratorCollators) predicted,
    congrArg (·.maxOrchestratorCollators) predicted⟩

/- In session 0 root sets the maximum of orchestrator collators to 7, and account 1 registers
para 2000, which root marks valid: both take effect at session 2. In session 1 root sets the
maximum to 9 and account 2 registers para 2001, neither of which session 2 sees. -/

theorem sessionDelayedChangesPredictedSessionOne :
    let cfg : Registrar.Config Nat Nat (Nat → Nat × Nat) := ⟨fun _ => true, 100, 1000, id, 2, Registrar.balances, 10⟩
    ∃ config config' registrar registrar', Configuration.Reachable Nat configurationSessionDelay 1 config ∧
      Relation.ReflTransGen (Configuration.CallStep Nat configurationSessionDelay 1) config config' ∧
      Registrar.Reachable cfg 1 registrar ∧ Relation.ReflTransGen (Registrar.CallStep cfg 1) registrar registrar' ∧
      Configuration.maxCollatorsForOrchestrator (1 + 1) config = 7 ∧ Registrar.sessionContainerChains (1 + 1) registrar = [2000] ∧
      (Window 1 2 config.pendingConfigs ∧ (due config.pendingConfigs (1 + 1)).1.length ≤ 1 ∧
        let active := (Configuration.initializerOnNewSession (1 + 1) config').2.activeConfig
        Configuration.collatorsPerContainer (1 + 1) config = active.collatorsPerContainer ∧
          Configuration.minCollatorsForOrchestrator (1 + 1) config = active.minOrchestratorCollators ∧
          Configuration.maxCollatorsForOrchestrator (1 + 1) config = active.maxOrchestratorCollators) ∧
      Window 1 2 registrar.pendingParaIds ∧ (due registrar.pendingParaIds (1 + 1)).1.length ≤ 1 ∧
      Registrar.sessionContainerChains (1 + 1) registrar =
        (Registrar.initializerOnNewSession (1 + 1) registrar').2.registeredParaIds := by
  intro cfg
  let config₀ : Configuration.State := (Configuration.initializerOnNewSession 0 ⟨default, [], false⟩).2
  let registrar₀ : Registrar.State Nat (Nat → Nat × Nat) :=
    (Registrar.initializerOnNewSession 0 ⟨[], [], [], fun _ => none, fun _ => (50, 0)⟩).2
  have configured : Configuration.build default = some ⟨default, [], false⟩ := rfl
  have registered : Registrar.build cfg ([] : List (ParaId × Nat)) (fun _ => (50, 0)) =
      some ⟨[], [], [], fun _ => none, fun _ => (50, 0)⟩ := by
    simp [Registrar.build]
  obtain ⟨config₁, set₀, configRest⟩ := toOptionAny.1 (show (Configuration.dispatch configurationSessionDelay 0
    (.root : RawOrigin Nat) (.setMaxOrchestratorCollators 7) config₀).toOption.any (fun c =>
      decide (Configuration.maxCollatorsForOrchestrator 2 (Configuration.initializerOnNewSession 1 c).2 = 7) &&
        (Configuration.dispatch configurationSessionDelay 1 (.root : RawOrigin Nat) (.setMaxOrchestratorCollators 9)
          (Configuration.initializerOnNewSession 1 c).2).toOption.any fun _ => true) = true by decide +kernel)
  simp only [Bool.and_eq_true, decide_eq_true_eq] at configRest
  obtain ⟨predictedMax, configRest⟩ := configRest
  obtain ⟨config', set₁, -⟩ := toOptionAny.1 configRest
  obtain ⟨registrar₁, register₀, registrarRest⟩ := toOptionAny.1 (show (Registrar.dispatch cfg 0 (.signed 1)
    (.register 2000 0) registrar₀).toOption.any (fun r =>
      (Registrar.dispatch cfg 0 .root (.markValidForCollating 2000) r).toOption.any fun r =>
        decide (Registrar.sessionContainerChains 2 (Registrar.initializerOnNewSession 1 r).2 = [2000]) &&
          (Registrar.dispatch cfg 1 (.signed 2) (.register 2001 0)
            (Registrar.initializerOnNewSession 1 r).2).toOption.any fun _ => true) = true by decide +kernel)
  obtain ⟨registrar₂, marked₀, registrarRest⟩ := toOptionAny.1 registrarRest
  simp only [Bool.and_eq_true, decide_eq_true_eq] at registrarRest
  obtain ⟨predictedParas, registrarRest⟩ := registrarRest
  obtain ⟨registrar', register₁, -⟩ := toOptionAny.1 registrarRest
  have configReach : Configuration.Reachable Nat configurationSessionDelay 1 (Configuration.initializerOnNewSession 1 config₁).2 :=
    .newSession (.call .root _ (.genesis configured) set₀)
  have registrarReach : Registrar.Reachable cfg 1 (Registrar.initializerOnNewSession 1 registrar₂).2 :=
    .newSession (.call .root _ (.call (.signed 1) _ (.genesis registered) register₀) marked₀)
  have configCalls : Relation.ReflTransGen (Configuration.CallStep Nat configurationSessionDelay 1)
      (Configuration.initializerOnNewSession 1 config₁).2 config' := .single ⟨.root, _, set₁⟩
  have registrarCalls : Relation.ReflTransGen (Registrar.CallStep cfg 1)
      (Registrar.initializerOnNewSession 1 registrar₂).2 registrar' := .single ⟨.signed 2, _, register₁⟩
  exact ⟨_, config', _, registrar', configReach, configCalls, registrarReach, registrarCalls, predictedMax, predictedParas,
    sessionDelayedChangesPredicted rfl configReach configCalls registrarReach registrarCalls⟩

end Tanssi.Runtime
