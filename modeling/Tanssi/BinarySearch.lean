import Mathlib

/-! `slice::binary_search_by` as the Rust 1.70 standard library runs it, and its
contract on a list kept strictly increasing for a lawful comparison: `Ok` gives a
position holding an element equal to the one sought, `Err` the position where it can
be inserted so that the list stays strictly increasing. -/
namespace BinarySearch
variable {α : Type}

/-- The loop over `[left, right)`, `size = right - left`. The `none` branch is never
taken: the loop keeps `right ≤ xs.len()`. -/
def searchBy (f : α → Ordering) (xs : List α) (left right : Nat) : Except Nat Nat :=
  if left < right then
    let mid := left + (right - left) / 2
    match xs[mid]? with
    | none => .error left
    | some x =>
      match f x with
      | .lt => searchBy f xs (mid + 1) right
      | .gt => searchBy f xs left mid
      | .eq => .ok mid
  else .error left
termination_by right - left

/-- `binary_search`, i.e. `binary_search_by(|p| p.cmp(x))` for the order `cmp`. -/
def binarySearch (cmp : α → α → Ordering) (xs : List α) (x : α) : Except Nat Nat :=
  searchBy (cmp · x) xs 0 xs.length

def Sorted (cmp : α → α → Ordering) (xs : List α) : Prop :=
  xs.Pairwise fun a b => cmp a b = .lt

/- `Ok` needs no order at all: the loop only returns it on an equal element. -/

theorem searchByOk {f : α → Ordering} {xs : List α} {left right i : Nat}
    (h : searchBy f xs left right = .ok i) : ∃ y, xs[i]? = some y ∧ f y = .eq := by
  fun_induction searchBy f xs left right with
  | case1 => cases h
  | case2 left right _ mid x found less ih => exact ih h
  | case3 left right _ mid x found greater ih => exact ih h
  | case4 left right _ mid x found equal =>
    obtain rfl := Except.ok.inj h
    exact ⟨x,found,equal⟩
  | case5 => cases h

theorem binarySearchOk {cmp : α → α → Ordering} {xs : List α} {x : α} {i : Nat}
    (h : binarySearch cmp xs x = .ok i) : ∃ y, xs[i]? = some y ∧ cmp y x = .eq :=
  searchByOk h

section Order
variable {cmp : α → α → Ordering} [Std.TransCmp cmp]

structure Bracket (cmp : α → α → Ordering) (xs : List α) (x : α) (left right : Nat) : Prop where
  le : left ≤ right
  bound : right ≤ xs.length
  below : ∀ y ∈ xs.take left, cmp y x = .lt
  above : ∀ y ∈ xs.drop right, cmp y x = .gt

theorem takeSuccBelow {xs : List α} {x y : α} {mid : Nat} (sorted : Sorted cmp xs)
    (found : xs[mid]? = some y) (less : cmp y x = .lt) : ∀ z ∈ xs.take (mid + 1), cmp z x = .lt := by
  have split : xs.take (mid + 1) = xs.take mid ++ [y] := by simp [List.take_add_one, found]
  have before : ∀ z ∈ xs.take mid, cmp z y = .lt := by
    rw [Sorted, ← List.take_append_drop mid xs, List.pairwise_append] at sorted
    obtain ⟨h, rest⟩ := List.getElem?_eq_some_iff.1 found
    refine fun z hz => sorted.2.2 z hz y ?_
    rw [List.drop_eq_getElem_cons h, rest]
    exact List.mem_cons_self
  rw [split]
  intro z hz
  rcases List.mem_append.1 hz with hz | hz
  · exact Std.TransCmp.lt_trans (before z hz) less
  · rw [List.mem_singleton.1 hz]; exact less

theorem dropAbove {xs : List α} {x y : α} {mid : Nat} (sorted : Sorted cmp xs)
    (found : xs[mid]? = some y) (greater : cmp y x = .gt) : ∀ z ∈ xs.drop mid, cmp z x = .gt := by
  obtain ⟨h, rest⟩ := List.getElem?_eq_some_iff.1 found
  have after : ∀ z ∈ xs.drop (mid + 1), cmp y z = .lt := by
    rw [Sorted, ← List.take_append_drop (mid + 1) xs, List.pairwise_append] at sorted
    refine fun z hz => sorted.2.2 y ?_ z hz
    rw [List.take_add_one, found]
    simp
  rw [List.drop_eq_getElem_cons h, rest]
  intro z hz
  rcases List.mem_cons.1 hz with rfl | hz
  · exact greater
  · rw [Std.OrientedCmp.gt_iff_lt] at greater ⊢
    exact Std.TransCmp.lt_trans greater (after z hz)

theorem searchByError {xs : List α} {x : α} {left right i : Nat} (sorted : Sorted cmp xs)
    (bracket : Bracket cmp xs x left right) (h : searchBy (cmp · x) xs left right = .error i) :
    (∀ y ∈ xs.take i, cmp y x = .lt) ∧ ∀ y ∈ xs.drop i, cmp y x = .gt := by
  fun_induction searchBy (cmp · x) xs left right with
  | case1 left right inside mid missing =>
    have : mid < xs.length := by have := bracket.bound; omega
    simp at missing
    omega
  | case2 left right inside mid y found less ih =>
    refine ih ⟨by omega, bracket.bound, takeSuccBelow sorted found less, bracket.above⟩ h
  | case3 left right inside mid y found greater ih =>
    refine ih ⟨by omega, by have := bracket.bound; omega, bracket.below, dropAbove sorted found greater⟩ h
  | case4 => cases h
  | case5 left right done =>
    obtain rfl := Except.error.inj h
    have same : left = right := by have := bracket.le; omega
    exact ⟨bracket.below, same ▸ bracket.above⟩

theorem binarySearchError {xs : List α} {x : α} {i : Nat} (sorted : Sorted cmp xs)
    (h : binarySearch cmp xs x = .error i) :
    (∀ y ∈ xs.take i, cmp y x = .lt) ∧ ∀ y ∈ xs.drop i, cmp y x = .gt :=
  searchByError sorted ⟨Nat.zero_le _, le_rfl, by simp, by simp⟩ h

omit [Std.TransCmp cmp] in
theorem binarySearchErrorBound {xs : List α} {x : α} {i : Nat} (h : binarySearch cmp xs x = .error i) :
    i ≤ xs.length := by
  -- the loop keeps `left ≤ right ≤ xs.len()` and returns `left`
  have loop : ∀ left right, left ≤ right → right ≤ xs.length →
      searchBy (cmp · x) xs left right = .error i → i ≤ xs.length := by
    intro left right
    fun_induction searchBy (cmp · x) xs left right with
    | case1 left right inside mid missing =>
      intro _ bound h; obtain rfl := Except.error.inj h; omega
    | case2 left right inside mid y found less ih => intro _ bound; exact ih (by omega) bound
    | case3 left right inside mid y found greater ih => intro _ bound; exact ih (by omega) (by omega)
    | case4 => intro _ _ h; cases h
    | case5 left right done => intro le bound h; obtain rfl := Except.error.inj h; omega
  exact loop 0 xs.length (Nat.zero_le _) le_rfl h

theorem insertIdxEq {xs : List α} {x : α} : ∀ {i : Nat}, i ≤ xs.length → xs.insertIdx i x = xs.take i ++ x :: xs.drop i := by
  induction xs with
  | nil => intro i h; simp at h; subst h; rfl
  | cons y ys ih =>
    intro i h
    cases i with
    | zero => rfl
    | succ i => simp [List.insertIdx_succ_cons, ih (by simpa using h)]

theorem insertIdxSorted {xs : List α} {x : α} {i : Nat} (sorted : Sorted cmp xs)
    (h : binarySearch cmp xs x = .error i) : Sorted cmp (xs.insertIdx i x) := by
  obtain ⟨below, above⟩ := binarySearchError sorted h
  rw [insertIdxEq (binarySearchErrorBound h)]
  have parts := sorted
  rw [Sorted, ← List.take_append_drop i xs, List.pairwise_append] at parts
  obtain ⟨front, back, across⟩ := parts
  refine List.pairwise_append.2 ⟨front, List.pairwise_cons.2 ⟨?_, back⟩, ?_⟩
  · exact fun z hz => Std.OrientedCmp.gt_iff_lt.1 (above z hz)
  · intro a ha b hb
    rcases List.mem_cons.1 hb with rfl | hb
    · exact below a ha
    · exact across a ha b hb

variable [Std.LawfulEqCmp cmp]

theorem binarySearchErrorNotMem {xs : List α} {x : α} {i : Nat} (sorted : Sorted cmp xs)
    (h : binarySearch cmp xs x = .error i) : x ∉ xs := by
  obtain ⟨below, above⟩ := binarySearchError sorted h
  have self : cmp x x = .eq := Std.ReflCmp.compare_self
  intro hx
  rw [← List.take_append_drop i xs] at hx
  rcases List.mem_append.1 hx with hx | hx
  · have := below x hx
    rw [self] at this
    cases this
  · have := above x hx
    rw [self] at this
    cases this

theorem binarySearchMem {xs : List α} {x : α} (sorted : Sorted cmp xs) (hx : x ∈ xs) :
    ∃ i, binarySearch cmp xs x = .ok i ∧ xs[i]? = some x := by
  cases h : binarySearch cmp xs x with
  | error i => exact absurd hx (binarySearchErrorNotMem sorted h)
  | ok i =>
    obtain ⟨y, found, equal⟩ := binarySearchOk h
    exact ⟨i, rfl, Std.LawfulEqCmp.compare_eq_iff_eq.1 equal ▸ found⟩

omit [Std.TransCmp cmp] in
theorem sortedNodup {xs : List α} (sorted : Sorted cmp xs) : xs.Nodup :=
  sorted.imp fun {a b} less same => by
    have self : cmp b b = .eq := Std.ReflCmp.compare_self
    rw [same, self] at less
    cases less

omit [Std.TransCmp cmp] in
theorem eraseIdxFound [DecidableEq α] {xs : List α} {x : α} {i : Nat} (sorted : Sorted cmp xs)
    (h : binarySearch cmp xs x = .ok i) : xs.eraseIdx i = xs.erase x := by
  obtain ⟨y, found, equal⟩ := binarySearchOk h
  rw [Std.LawfulEqCmp.compare_eq_iff_eq.1 equal] at found
  have inside : i < xs.length := (List.getElem?_eq_some_iff.1 found).1
  have atI : xs[i] = x := (List.getElem?_eq_some_iff.1 found).2
  rw [← atI, List.Nodup.erase_getElem (sortedNodup sorted) i inside]

end Order

section Linear
variable [LinearOrder α]

theorem sortedIffLt {xs : List α} : Sorted compare xs ↔ xs.Pairwise (· < ·) := by
  simp only [Sorted, compare_lt_iff_lt]

theorem isChainLt : ∀ {xs : List α}, xs.IsChain (· ≤ ·) → xs.IsChain (· ≠ ·) → xs.IsChain (· < ·)
  | [], _, _ => .nil
  | [a], _, _ => .singleton a
  | _ :: _ :: _, le, ne => by
    rw [List.isChain_cons_cons] at le ne ⊢
    exact ⟨lt_of_le_of_ne le.1 ne.1, isChainLt le.2 ne.2⟩

theorem sortedOfIsChain {xs : List α} (sorted : xs.Pairwise (· ≤ ·)) (apart : xs.IsChain (· ≠ ·)) :
    Sorted compare xs :=
  sortedIffLt.2 (List.isChain_iff_pairwise.1 (isChainLt sorted.isChain apart))

end Linear
end BinarySearch
