import Mathlib

/-! What every dispatchable call of a FRAME pallet shares: the origin it is signed
with, and the `Except` result through which a failed call leaves storage as it was.
The rules below take a successful run of a `do` block apart step by step. -/
namespace Frame

/-- `frame_system::RawOrigin`. -/
inductive RawOrigin (α : Type) where
  | root
  | signed (who : α)
  | none
  deriving DecidableEq, Repr

variable {α β ε δ : Type}

def ensureSigned : RawOrigin α → Option α
  | .signed who => some who
  | _ => Option.none

def ensureRoot : RawOrigin α → Bool
  | .root => true
  | _ => false

/-- `ensure_none`: the origin of an inherent. -/
def ensureNone : RawOrigin α → Bool
  | .none => true
  | _ => false

@[simp] theorem bindEqOk {x : Except ε α} {f : α → Except ε β} {b : β} :
    (x >>= f) = .ok b ↔ ∃ a, x = .ok a ∧ f a = .ok b := by
  cases x <;> simp [bind, Except.bind]

@[simp] theorem pureEqOk {a b : α} : (pure a : Except ε α) = .ok b ↔ a = b := by
  simp [pure, Except.pure]

@[simp] theorem throwNeOk {e : ε} {a : α} : (throw e : Except ε α) ≠ .ok a := by
  simp [throw, throwThe, MonadExceptOf.throw]

theorem mapEqOk {x : Except ε α} {f : α → β} {b : β} : (f <$> x) = .ok b ↔ ∃ a, x = .ok a ∧ f a = b := by
  cases x <;> simp [Functor.map, Except.map]

/- A run on concrete storage is evaluated as one test, `Option.any` over its results, and
taken apart into its successful calls. -/

theorem toOptionAny {x : Except ε α} {p : α → Bool} : x.toOption.any p = true ↔ ∃ a, x = .ok a ∧ p a = true := by
  cases x <;> simp [Except.toOption]

theorem bindToOptionAny {x : Option (Except ε α)} {p : α → Bool} :
    (x.bind Except.toOption).any p = true ↔ ∃ a, x = some (.ok a) ∧ p a = true := by
  rcases x with _ | _ | _ <;> simp [Except.toOption]

/- Mapping over a `do` block: through a failure, and into both branches of a check. -/

theorem mapThrow {f : α → β} {e : ε} : f <$> (throw e : Except ε α) = throw e := rfl

theorem throwBind {e : ε} {f : α → Except ε β} : (throw e : Except ε α) >>= f = throw e := rfl

theorem mapIte {f : α → β} {c : Prop} [Decidable c] {x y : Except ε α} :
    f <$> (if c then x else y) = if c then f <$> x else f <$> y := by
  split <;> rfl

/- A failure of a `do` block is a failure of one of its steps: a given error is ruled out
step by step, each step knowing how the ones before it went. -/

theorem bindNeError {x : Except ε α} {f : α → Except ε β} {e : ε} (first : x ≠ .error e)
    (rest : ∀ a, x = .ok a → f a ≠ .error e) : (x >>= f) ≠ .error e := by
  cases x with
  | error e' => simpa [bind, Except.bind] using first
  | ok a => simpa [bind, Except.bind] using rest a rfl

@[simp] theorem pureNeError {a : α} {e : ε} : (pure a : Except ε α) ≠ .error e := by
  simp [pure, Except.pure]

@[simp] theorem throwEqError {e e' : ε} : (throw e : Except ε α) = .error e' ↔ e = e' := by
  simp [throw, throwThe, MonadExceptOf.throw]

@[simp] theorem mapErrorEqOk {f : ε → δ} {x : Except ε α} {a : α} : x.mapError f = .ok a ↔ x = .ok a := by
  cases x <;> simp [Except.mapError]

theorem mapMEqOk {f : α → Except ε β} {g : α → β} :
    ∀ {l : List α}, (∀ a ∈ l, f a = .ok (g a)) → l.mapM f = .ok (l.map g)
  | [], _ => rfl
  | a :: rest, each => by
    have head := each a List.mem_cons_self
    have tail := mapMEqOk (fun x hx => each x (List.mem_cons_of_mem _ hx))
    simp only [List.mapM_cons, head, tail, List.map_cons]
    rfl

/- A closure that may panic, mapped over a list as `iter().map(f).collect()` does: `none`
is the panic, which happens exactly when one element makes the closure panic. -/

theorem mapMIsSome {f : α → Option β} : ∀ {l : List α}, (∀ a ∈ l, (f a).isSome) → (l.mapM f).isSome
  | [], _ => rfl
  | a :: rest, each => by
    obtain ⟨b, head⟩ := Option.isSome_iff_exists.1 (each a List.mem_cons_self)
    obtain ⟨bs, tail⟩ := Option.isSome_iff_exists.1 (mapMIsSome fun x listed => each x (List.mem_cons_of_mem _ listed))
    simp [List.mapM_cons, head, tail]

theorem mapMEqSome {f : α → Option β} : ∀ {l : List α} {l' : List β}, l.mapM f = some l' →
    l'.length = l.length ∧ ∀ i : Nat, l'[i]? = l[i]?.bind f
  | [], l', h => by
    obtain rfl : [] = l' := Option.some.inj h
    simp
  | a :: rest, l', h => by
    simp only [List.mapM_cons, Option.bind_eq_bind, Option.bind_eq_some_iff, Option.pure_def,
      Option.some.injEq] at h
    obtain ⟨b, head, bs, tail, rfl⟩ := h
    obtain ⟨length, positions⟩ := mapMEqSome tail
    refine ⟨by simp [length], fun i => ?_⟩
    cases i with
    | zero => simp [head]
    | succ i => simpa using positions i

end Frame
