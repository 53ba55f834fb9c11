import Mathlib

/-! Iterators that hand out a finite sequence and then keep answering `None`,
as `vec::IntoIter` does. `Drain ι α` pairs a `next` function with the sequence
still to come and the two laws linking them. A chain of two iterators borrowed with
`by_ref` is again such an iterator, whose state is the pair of the borrowed ones, so
after the chain is dropped each borrowed iterator has advanced by what the chain
took from it. -/

structure Drain (ι α : Type) where
  next : ι → Option (α × ι)
  rest : ι → List α
  nextSome : ∀ {i x j}, next i = some (x,j) → rest i = x :: rest j
  nextNone : ∀ {i}, next i = none → rest i = []

namespace Drain
variable {ι α : Type}

/-- `vec::IntoIter`. -/
def vec : Drain (List α) α where
  next
    | [] => none
    | x :: xs => some (x,xs)
  rest := id
  nextSome := by intro i x j h; cases i <;> simp_all
  nextNone := by intro i h; cases i <;> simp_all

@[simp] theorem vecRest (l : List α) : vec.rest l = l := rfl

/-- `a.by_ref().chain(&mut b)` for two `vec::IntoIter`s `a` and `b`. -/
def chain : Drain (List α × List α) α where
  next
    | (x :: xs,b) => some (x,(xs,b))
    | ([],x :: xs) => some (x,([],xs))
    | ([],[]) => none
  rest i := i.1 ++ i.2
  nextSome := by
    intro i x j h
    match i with
    | (y :: ys,b) => simp only [Option.some.injEq, Prod.mk.injEq] at h; obtain ⟨rfl,rfl⟩ := h; rfl
    | ([],y :: ys) => simp only [Option.some.injEq, Prod.mk.injEq] at h; obtain ⟨rfl,rfl⟩ := h; rfl
    | ([],[]) => simp at h
  nextNone := by
    intro i h
    match i with
    | (y :: ys,b) => simp at h
    | ([],y :: ys) => simp at h
    | ([],[]) => rfl

@[simp] theorem chainRest (p : List α × List α) : chain.rest p = p.1 ++ p.2 := rfl

/- `while xs.len() < n { match it.next() { Some(x) => xs.push(x), None => return } }`.
The flag is `true` when the loop left through the `return`, the iterator having run dry. -/
def fillGo (it : Drain ι α) : Nat → List α → ι → List α × ι × Bool
  | 0, xs, i => (xs,i,false)
  | k + 1, xs, i =>
    match it.next i with
    | some (x,j) => fillGo it k (xs ++ [x]) j
    | none => (xs,i,true)

def fillTo (it : Drain ι α) (n : Nat) (xs : List α) (i : ι) : List α × ι × Bool :=
  fillGo it (n - xs.length) xs i

theorem fillGoMoves (it : Drain ι α) :
    ∀ (k : Nat) (xs : List α) (i : ι), (fillGo it k xs i).1 ++ it.rest (fillGo it k xs i).2.1 = xs ++ it.rest i
  | 0, xs, i => rfl
  | k + 1, xs, i => by
    simp only [fillGo]
    split
    · rename_i x j h
      rw [fillGoMoves it k, it.nextSome h]
      simp
    · rfl

theorem fillToMoves (it : Drain ι α) (n : Nat) (xs : List α) (i : ι) :
    (fillTo it n xs i).1 ++ it.rest (fillTo it n xs i).2.1 = xs ++ it.rest i :=
  fillGoMoves it _ xs i

theorem fillGoDry (it : Drain ι α) :
    ∀ (k : Nat) (xs : List α) (i : ι), (fillGo it k xs i).2.2 = true → it.rest (fillGo it k xs i).2.1 = []
  | 0, xs, i, h => by simp [fillGo] at h
  | k + 1, xs, i, h => by
    simp only [fillGo] at h ⊢
    split at h
    · exact fillGoDry it k _ _ h
    · rename_i hn
      exact it.nextNone hn

theorem fillToDry (it : Drain ι α) {n : Nat} {xs : List α} {i : ι}
    (h : (fillTo it n xs i).2.2 = true) : it.rest (fillTo it n xs i).2.1 = [] :=
  fillGoDry it _ xs i h

/- How far a fill gets: it only appends, never past `n` collators beyond what was there,
and when it leaves something behind in the iterator it has reached `n`. -/

theorem fillGoPrefix (it : Drain ι α) : ∀ (k : Nat) (xs : List α) (i : ι), xs <+: (fillGo it k xs i).1
  | 0, xs, i => List.prefix_refl xs
  | k + 1, xs, i => by
    simp only [fillGo]
    split
    · exact (List.prefix_append xs _).trans (fillGoPrefix it k _ _)
    · exact List.prefix_refl xs

theorem fillGoLength (it : Drain ι α) :
    ∀ (k : Nat) (xs : List α) (i : ι), (fillGo it k xs i).1.length ≤ xs.length + k
  | 0, xs, i => le_refl _
  | k + 1, xs, i => by
    simp only [fillGo]
    split
    · rename_i x j _
      have := fillGoLength it k (xs ++ [x]) j
      simp only [List.length_append, List.length_singleton] at this
      omega
    · simp

theorem fillGoFull (it : Drain ι α) :
    ∀ (k : Nat) (xs : List α) (i : ι), (fillGo it k xs i).2.2 = false → (fillGo it k xs i).1.length = xs.length + k
  | 0, xs, i, _ => rfl
  | k + 1, xs, i, h => by
    simp only [fillGo] at h ⊢
    split at h
    · rename_i x j _
      rw [fillGoFull it k (xs ++ [x]) j h, List.length_append, List.length_singleton]
      omega
    · cases h

theorem fillToPrefix (it : Drain ι α) (n : Nat) (xs : List α) (i : ι) : xs <+: (fillTo it n xs i).1 :=
  fillGoPrefix it _ xs i

theorem fillToLength (it : Drain ι α) (n : Nat) (xs : List α) (i : ι) :
    (fillTo it n xs i).1.length ≤ max n xs.length := by
  have := fillGoLength it (n - xs.length) xs i
  simp only [fillTo]
  omega

theorem fillToFull (it : Drain ι α) {n : Nat} {xs : List α} (full : n ≤ xs.length) (i : ι) :
    fillTo it n xs i = (xs,i,false) := by
  simp only [fillTo, Nat.sub_eq_zero_of_le full, fillGo]

theorem fillToReaches (it : Drain ι α) {n : Nat} {xs : List α} {i : ι}
    (left : it.rest (fillTo it n xs i).2.1 ≠ []) : n ≤ (fillTo it n xs i).1.length := by
  have notDry : (fillTo it n xs i).2.2 = false := by
    cases h : (fillTo it n xs i).2.2
    · rfl
    · exact absurd (fillToDry it h) left
  have full := fillGoFull it (n - xs.length) xs i notDry
  simp only [fillTo] at full ⊢
  omega

end Drain
