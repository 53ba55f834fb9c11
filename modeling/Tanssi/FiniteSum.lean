import Mathlib

/-! Sums over every key of a map that is zero at all but finitely many keys, as a storage
map with a default of zero is: Mathlib's `∑ᶠ`. What a model of such storage needs is how
the sum moves when one value is written, the analogue of `Finset.sum_update_of_mem` for a
sum with no index set. -/
namespace FiniteSum
variable {β : Type}

theorem changeAtSupport {f g : β → ℕ} (a : β) (same : ∀ x, x ≠ a → g x = f x) :
    Function.support g ⊆ insert a (Function.support f) := by
  intro x hx
  by_cases here : x = a
  · exact Or.inl here
  · refine Set.mem_insert_of_mem a ?_
    rw [Function.mem_support, ← same x here]
    exact hx

theorem hasFiniteSupportOfChangeAt {f g : β → ℕ} (finite : f.HasFiniteSupport) (a : β)
    (same : ∀ x, x ≠ a → g x = f x) : g.HasFiniteSupport :=
  (Set.Finite.insert a finite).subset (changeAtSupport a same)

theorem finsumChangeAt {f g : β → ℕ} (finite : f.HasFiniteSupport) (a : β) (same : ∀ x, x ≠ a → g x = f x) :
    ∑ᶠ x, g x + f a = ∑ᶠ x, f x + g a := by
  classical
  let s := insert a finite.toFinset
  have fSub : Function.support f ⊆ s := fun x hx => Finset.mem_insert_of_mem (finite.mem_toFinset.2 hx)
  have gSub : Function.support g ⊆ s := fun x hx => by
    simpa [s, finite.mem_toFinset] using changeAtSupport a same hx
  have mem : a ∈ s := Finset.mem_insert_self _ _
  have rest : ∑ x ∈ s.erase a, g x = ∑ x ∈ s.erase a, f x :=
    Finset.sum_congr rfl fun x hx => same x (Finset.ne_of_mem_erase hx)
  rw [finsum_eq_sum_of_support_subset f fSub, finsum_eq_sum_of_support_subset g gSub,
    ← Finset.add_sum_erase s f mem, ← Finset.add_sum_erase s g mem, rest]
  omega

end FiniteSum
