import Mathlib

/-! Ordered maps as Rust's `BTreeMap` behaves: a list of entries strictly increasing
in the key. Iteration (`iter`, `iter_mut`, `retain`) visits the entries in that
order. The lemmas track keys, lookups and the multiset of the values, which is what
a client that moves elements between maps and iterators needs. -/

structure SortedMap (κ : Type) [LinearOrder κ] (ν : Type) where
  entries : List (κ × ν)
  sorted : entries.Pairwise (fun a b => a.1 < b.1)

namespace SortedMap
open scoped List
variable {κ : Type} [LinearOrder κ] {ν μ σ α : Type}

theorem ext' {a b : SortedMap κ ν} (h : a.entries = b.entries) : a = b := by
  cases a; cases b; cases h; rfl

instance [DecidableEq κ] [DecidableEq ν] : DecidableEq (SortedMap κ ν) := fun a b =>
  decidable_of_iff (a.entries = b.entries) ⟨ext',fun h => h ▸ rfl⟩

def empty : SortedMap κ ν := ⟨[],.nil⟩

instance : Inhabited (SortedMap κ ν) := ⟨empty⟩

def keys (m : SortedMap κ ν) : List κ := m.entries.map Prod.fst

def values (m : SortedMap κ ν) : List ν := m.entries.map Prod.snd

theorem keysNodup (m : SortedMap κ ν) : m.keys.Nodup :=
  (List.pairwise_map.mpr m.sorted).imp (fun h => ne_of_lt h)

/- Lookup. Keys are distinct, so the first match is the only one. -/
def lookupEntry (k : κ) : List (κ × ν) → Option ν
  | [] => none
  | e :: rest => if e.1 = k then some e.2 else lookupEntry k rest

def get (m : SortedMap κ ν) (k : κ) : Option ν := lookupEntry k m.entries

theorem lookupEntrySome {k : κ} {v : ν} :
    ∀ {l : List (κ × ν)}, lookupEntry k l = some v → (k,v) ∈ l
  | [], h => by simp [lookupEntry] at h
  | e :: rest, h => by
    simp only [lookupEntry] at h
    split at h
    · rename_i same; cases h; exact List.mem_cons.mpr (.inl (by rw [← same]))
    · exact List.mem_cons_of_mem _ (lookupEntrySome h)

theorem lookupEntryOfMem {k : κ} {v : ν} :
    ∀ {l : List (κ × ν)}, l.Pairwise (fun a b => a.1 < b.1) → (k,v) ∈ l → lookupEntry k l = some v
  | [], _, h => by simp at h
  | e :: rest, sorted, h => by
    obtain ⟨below, sorted⟩ := List.pairwise_cons.mp sorted
    rcases List.mem_cons.mp h with rfl | inside
    · simp [lookupEntry]
    · have lt := below _ inside
      have ne : e.1 ≠ k := ne_of_lt lt
      simp only [lookupEntry, if_neg ne]
      exact lookupEntryOfMem sorted inside

theorem getSomeIff {m : SortedMap κ ν} {k : κ} {v : ν} : m.get k = some v ↔ (k,v) ∈ m.entries :=
  ⟨lookupEntrySome,lookupEntryOfMem m.sorted⟩

theorem lookupEntryNone {k : κ} : ∀ {l : List (κ × ν)}, lookupEntry k l = none ↔ k ∉ l.map Prod.fst
  | [] => by simp [lookupEntry]
  | e :: rest => by
    by_cases h : e.1 = k
    · simp [lookupEntry, h]
    · simp only [lookupEntry, if_neg h, List.map_cons, List.mem_cons, lookupEntryNone]
      exact ⟨fun a b => b.elim (fun c => h c.symm) a,fun a => a ∘ .inr⟩

theorem getNoneIff {m : SortedMap κ ν} {k : κ} : m.get k = none ↔ k ∉ m.keys := lookupEntryNone

theorem memKeys {m : SortedMap κ ν} {k : κ} : k ∈ m.keys ↔ ∃ v, m.get k = some v := by
  constructor
  · intro present
    cases found : m.get k with
    | none => exact absurd present (getNoneIff.mp found)
    | some v => exact ⟨v,rfl⟩
  · rintro ⟨v,found⟩
    exact List.mem_map.mpr ⟨(k,v),getSomeIff.mp found,rfl⟩

/- `insert`: replace the value of a present key, else insert at the key's place. -/
def insertEntry (k : κ) (v : ν) : List (κ × ν) → List (κ × ν)
  | [] => [(k,v)]
  | e :: rest =>
    if k < e.1 then (k,v) :: e :: rest
    else if k = e.1 then (k,v) :: rest
    else e :: insertEntry k v rest

theorem memInsertEntry {k : κ} {v : ν} {x : κ × ν} :
    ∀ {l : List (κ × ν)}, x ∈ insertEntry k v l → x = (k,v) ∨ x ∈ l
  | [], h => by simpa [insertEntry] using h
  | e :: rest, h => by
    simp only [insertEntry] at h
    split_ifs at h
    · simpa using h
    · rcases List.mem_cons.mp h with h | h
      · exact .inl h
      · exact .inr (List.mem_cons_of_mem _ h)
    · rcases List.mem_cons.mp h with h | h
      · exact .inr (h ▸ List.mem_cons_self)
      · rcases memInsertEntry h with h | h
        · exact .inl h
        · exact .inr (List.mem_cons_of_mem _ h)

theorem insertEntrySorted (k : κ) (v : ν) :
    ∀ {l : List (κ × ν)}, l.Pairwise (fun a b => a.1 < b.1) →
      (insertEntry k v l).Pairwise (fun a b => a.1 < b.1)
  | [], _ => by simp [insertEntry]
  | e :: rest, sorted => by
    obtain ⟨below, tail⟩ := List.pairwise_cons.mp sorted
    simp only [insertEntry]
    split_ifs with lt eq
    · refine List.Pairwise.cons ?_ sorted
      intro x hx
      rcases List.mem_cons.mp hx with rfl | hx
      · exact lt
      · exact lt_trans lt (below x hx)
    · refine List.Pairwise.cons ?_ tail
      intro x hx
      exact eq ▸ below x hx
    · refine List.Pairwise.cons ?_ (insertEntrySorted k v tail)
      intro x hx
      rcases memInsertEntry hx with rfl | hx
      · exact lt_of_le_of_ne (not_lt.mp lt) (Ne.symm eq)
      · exact below x hx

def insert (m : SortedMap κ ν) (k : κ) (v : ν) : SortedMap κ ν :=
  ⟨insertEntry k v m.entries,insertEntrySorted k v m.sorted⟩

theorem lookupInsertEntrySelf (k : κ) (v : ν) : ∀ l : List (κ × ν), lookupEntry k (insertEntry k v l) = some v
  | [] => by simp [insertEntry, lookupEntry]
  | e :: rest => by
    simp only [insertEntry]
    split_ifs with lt eq
    · simp [lookupEntry]
    · simp [lookupEntry]
    · simp only [lookupEntry, if_neg (Ne.symm eq)]
      exact lookupInsertEntrySelf k v rest

theorem getInsertSelf (m : SortedMap κ ν) (k : κ) (v : ν) : (m.insert k v).get k = some v :=
  lookupInsertEntrySelf k v m.entries

/-- `entry(k).or_insert(v)`: only an absent key gets the value. -/
def orInsert (m : SortedMap κ ν) (k : κ) (v : ν) : SortedMap κ ν :=
  if k ∈ m.keys then m else m.insert k v

def retain (m : SortedMap κ ν) (p : κ → ν → Bool) : SortedMap κ ν :=
  ⟨m.entries.filter (fun e => p e.1 e.2),m.sorted.sublist List.filter_sublist⟩

theorem getRetainSome {m : SortedMap κ ν} {p : κ → ν → Bool} {k : κ} {v : ν} :
    (m.retain p).get k = some v ↔ m.get k = some v ∧ p k v = true := by
  rw [getSomeIff, getSomeIff]
  exact List.mem_filter

/-- `iter_mut` applying the same update to every value. -/
def mapVal (m : SortedMap κ ν) (f : κ → ν → μ) : SortedMap κ μ :=
  ⟨m.entries.map (fun e => (e.1,f e.1 e.2)),List.pairwise_map.mpr (m.sorted.imp id)⟩

@[simp] theorem mapValKeys (m : SortedMap κ ν) (f : κ → ν → μ) : (m.mapVal f).keys = m.keys := by
  simp [mapVal, keys, Function.comp_def]

theorem lookupEntryMap (f : κ → ν → μ) (k : κ) :
    ∀ l : List (κ × ν), lookupEntry k (l.map (fun e => (e.1,f e.1 e.2))) = (lookupEntry k l).map (f k)
  | [] => rfl
  | e :: rest => by
    by_cases same : e.1 = k
    · simp [lookupEntry, same]
    · simp only [List.map_cons, lookupEntry, if_neg same]
      exact lookupEntryMap f k rest

theorem getMapVal (m : SortedMap κ ν) (f : κ → ν → μ) (k : κ) : (m.mapVal f).get k = (m.get k).map (f k) :=
  lookupEntryMap f k m.entries

@[simp] theorem mapValValues (m : SortedMap κ ν) (f : κ → ν → μ) :
    (m.mapVal f).values = m.entries.map (fun e => f e.1 e.2) := by
  simp [mapVal, values, Function.comp_def]


/-- `iter_mut` threading a state through the values in key order. A step answering
`false` is a `return` out of the loop: the later values stay as they are. -/
def scanEntries (f : σ → κ → ν → ν × σ × Bool) : List (κ × ν) → σ → List (κ × ν) × σ
  | [], s => ([],s)
  | e :: rest, s =>
    match f s e.1 e.2 with
    | (v,s',true) => let r := scanEntries f rest s'; ((e.1,v) :: r.1,r.2)
    | (v,s',false) => ((e.1,v) :: rest,s')

omit [LinearOrder κ] in
theorem scanEntriesKeys (f : σ → κ → ν → ν × σ × Bool) :
    ∀ (l : List (κ × ν)) (s : σ), (scanEntries f l s).1.map Prod.fst = l.map Prod.fst
  | [], _ => rfl
  | e :: rest, s => by
    simp only [scanEntries]
    split <;> simp [scanEntriesKeys f rest]

def scan (m : SortedMap κ ν) (f : σ → κ → ν → ν × σ × Bool) (s : σ) : SortedMap κ ν × σ :=
  (⟨(scanEntries f m.entries s).1,by
    have h := scanEntriesKeys f m.entries s
    have sorted := List.pairwise_map.mpr m.sorted
    rw [← h] at sorted
    exact List.pairwise_map.mp sorted⟩,(scanEntries f m.entries s).2)

@[simp] theorem scanKeys (m : SortedMap κ ν) (f : σ → κ → ν → ν × σ × Bool) (s : σ) :
    (m.scan f s).1.keys = m.keys := scanEntriesKeys f m.entries s

theorem lookupScanEntries (f : σ → κ → ν → ν × σ × Bool) {k : κ} {w : ν} :
    ∀ (l : List (κ × ν)) (s : σ), lookupEntry k (scanEntries f l s).1 = some w →
      ∃ v, lookupEntry k l = some v ∧ (w = v ∨ ∃ s', (f s' k v).1 = w)
  | [], _, h => by simp [scanEntries, lookupEntry] at h
  | e :: rest, s, h => by
    simp only [scanEntries] at h
    split at h
    · rename_i v s' step
      simp only [lookupEntry] at h ⊢
      split at h
      · rename_i same
        subst same
        cases h
        exact ⟨e.2,by simp,.inr ⟨s,by rw [step]⟩⟩
      · rename_i other
        simpa [other] using lookupScanEntries f rest s' h
    · rename_i v s' step
      simp only [lookupEntry] at h ⊢
      split at h
      · rename_i same
        subst same
        cases h
        exact ⟨e.2,by simp,.inr ⟨s,by rw [step]⟩⟩
      · rename_i other
        exact ⟨w,by simpa [other] using h,.inl rfl⟩

theorem getScan (m : SortedMap κ ν) (f : σ → κ → ν → ν × σ × Bool) (s : σ) {k : κ} {w : ν}
    (h : (m.scan f s).1.get k = some w) : ∃ v, m.get k = some v ∧ (w = v ∨ ∃ s', (f s' k v).1 = w) :=
  lookupScanEntries f m.entries s h

/- Conservation. When a value is updated only by moving elements between it and the
threaded state, the values and the state together keep their multiset. -/
section Conservation
variable (contents : σ → List α)

omit [LinearOrder κ] in
theorem scanEntriesPerm (f : σ → κ → List α → List α × σ × Bool)
    (step : ∀ s k v, (f s k v).1 ++ contents (f s k v).2.1 ~ v ++ contents s) :
    ∀ (l : List (κ × List α)) (s : σ),
      ((scanEntries f l s).1.map Prod.snd).flatten ++ contents (scanEntries f l s).2 ~
        (l.map Prod.snd).flatten ++ contents s
  | [], _ => by simp [scanEntries]
  | e :: rest, s => by
    have one := step s e.1 e.2
    have swap : ∀ (a b c : List α), a ++ (b ++ c) ~ (a ++ c) ++ b := fun a b c => by
      rw [List.append_assoc]; exact List.perm_append_comm.append_left a
    simp only [scanEntries]
    split
    · rename_i v s' h
      rw [h] at one
      have ih := scanEntriesPerm f step rest s'
      simp only [List.map_cons, List.flatten_cons, List.append_assoc]
      calc v ++ (((scanEntries f rest s').1.map Prod.snd).flatten ++ contents (scanEntries f rest s').2)
          _ ~ v ++ ((rest.map Prod.snd).flatten ++ contents s') := ih.append_left v
          _ ~ (v ++ contents s') ++ (rest.map Prod.snd).flatten := swap _ _ _
          _ ~ (e.2 ++ contents s) ++ (rest.map Prod.snd).flatten := one.append_right _
          _ ~ e.2 ++ ((rest.map Prod.snd).flatten ++ contents s) := (swap _ _ _).symm
    · rename_i v s' h
      rw [h] at one
      simp only [List.map_cons, List.flatten_cons, List.append_assoc]
      calc v ++ ((rest.map Prod.snd).flatten ++ contents s')
          _ ~ (v ++ contents s') ++ (rest.map Prod.snd).flatten := swap _ _ _
          _ ~ (e.2 ++ contents s) ++ (rest.map Prod.snd).flatten := one.append_right _
          _ ~ e.2 ++ ((rest.map Prod.snd).flatten ++ contents s) := (swap _ _ _).symm

theorem scanPerm (m : SortedMap κ (List α)) (f : σ → κ → List α → List α × σ × Bool)
    (step : ∀ s k v, (f s k v).1 ++ contents (f s k v).2.1 ~ v ++ contents s) (s : σ) :
    (m.scan f s).1.values.flatten ++ contents (m.scan f s).2 ~ m.values.flatten ++ contents s :=
  scanEntriesPerm contents f step m.entries s

end Conservation

theorem retainSublist (m : SortedMap κ (List α)) (p : κ → List α → Bool) :
    (m.retain p).values.flatten.Sublist m.values.flatten :=
  (List.filter_sublist.map Prod.snd).flatten

omit [LinearOrder κ] in
theorem mapEntriesSublist (f : κ → List α → List α) (shrink : ∀ k v, (f k v).Sublist v) :
    ∀ l : List (κ × List α), (l.map (fun e => f e.1 e.2)).flatten.Sublist (l.map Prod.snd).flatten
  | [] => by simp
  | e :: rest => by simpa using (shrink e.1 e.2).append (mapEntriesSublist f shrink rest)

theorem mapValSublist (m : SortedMap κ (List α)) (f : κ → List α → List α)
    (shrink : ∀ k v, (f k v).Sublist v) : (m.mapVal f).values.flatten.Sublist m.values.flatten := by
  rw [mapValValues]
  exact mapEntriesSublist f shrink m.entries

theorem insertEntryPerm {k : κ} {v old : List α} :
    ∀ {l : List (κ × List α)}, l.Pairwise (fun a b => a.1 < b.1) → lookupEntry k l = some old →
      ((insertEntry k v l).map Prod.snd).flatten ++ old ~ (l.map Prod.snd).flatten ++ v
  | [], _, h => by simp [lookupEntry] at h
  | e :: rest, sorted, h => by
    obtain ⟨below, tail⟩ := List.pairwise_cons.mp sorted
    simp only [lookupEntry] at h
    split at h
    · rename_i same
      cases h
      have notLt : ¬ k < e.1 := by rw [same]; exact lt_irrefl _
      simp only [insertEntry, if_neg notLt, if_pos same.symm, List.map_cons, List.flatten_cons]
      calc (v ++ (rest.map Prod.snd).flatten) ++ e.2
          _ ~ e.2 ++ (v ++ (rest.map Prod.snd).flatten) := List.perm_append_comm
          _ ~ e.2 ++ ((rest.map Prod.snd).flatten ++ v) := List.perm_append_comm.append_left _
          _ = (e.2 ++ (rest.map Prod.snd).flatten) ++ v := (List.append_assoc _ _ _).symm
    · rename_i ne
      have after : e.1 < k := below (k,old) (lookupEntrySome h)
      have notLt : ¬ k < e.1 := not_lt.mpr after.le
      have notEq : k ≠ e.1 := fun eq => ne eq.symm
      simp only [insertEntry, if_neg notLt, if_neg notEq, List.map_cons, List.flatten_cons,
        List.append_assoc]
      exact (insertEntryPerm tail h).append_left e.2

theorem insertPerm {m : SortedMap κ (List α)} {k : κ} {old : List α} (v : List α) (h : m.get k = some old) :
    (m.insert k v).values.flatten ++ old ~ m.values.flatten ++ v :=
  insertEntryPerm m.sorted h

theorem lookupInsertEntryNe {k k' : κ} {v : ν} (ne : k' ≠ k) :
    ∀ l : List (κ × ν), lookupEntry k' (insertEntry k v l) = lookupEntry k' l
  | [] => by simp [insertEntry, lookupEntry, Ne.symm ne]
  | e :: rest => by
    simp only [insertEntry]
    split_ifs with lt eq
    · simp [lookupEntry, Ne.symm ne]
    · simp only [lookupEntry, if_neg (Ne.symm ne)]
      rw [← eq]; simp [Ne.symm ne]
    · simp only [lookupEntry]
      split <;> simp [lookupInsertEntryNe ne rest]

theorem getInsertNe {m : SortedMap κ ν} {k k' : κ} (v : ν) (ne : k' ≠ k) :
    (m.insert k v).get k' = m.get k' :=
  lookupInsertEntryNe ne m.entries

theorem insertEntryAbsentPerm {k : κ} (v : List α) :
    ∀ {l : List (κ × List α)}, k ∉ l.map Prod.fst →
      ((insertEntry k v l).map Prod.snd).flatten ~ (l.map Prod.snd).flatten ++ v
  | [], _ => by simp [insertEntry]
  | e :: rest, h => by
    have ne : k ≠ e.1 := fun eq => h (by simp [eq])
    have absent : k ∉ rest.map Prod.fst := fun mem => h (List.mem_cons_of_mem _ mem)
    simp only [insertEntry, if_neg ne, List.map_cons, List.flatten_cons, List.append_assoc]
    split
    · simp only [List.map_cons, List.flatten_cons]
      calc v ++ (e.2 ++ (rest.map Prod.snd).flatten)
          _ ~ (e.2 ++ (rest.map Prod.snd).flatten) ++ v := List.perm_append_comm
          _ = e.2 ++ ((rest.map Prod.snd).flatten ++ v) := List.append_assoc _ _ _
    · simp only [List.map_cons, List.flatten_cons]
      exact (insertEntryAbsentPerm v absent).append_left e.2

theorem memKeysInsert {m : SortedMap κ ν} {k k' : κ} {v : ν} : k' ∈ (m.insert k v).keys ↔ k' = k ∨ k' ∈ m.keys := by
  by_cases same : k' = k
  · subst same
    exact ⟨fun _ => .inl rfl,fun _ => memKeys.mpr ⟨v,getInsertSelf m k' v⟩⟩
  · rw [memKeys, memKeys, getInsertNe v same]
    simp [same]

theorem getOrInsertSome {m : SortedMap κ ν} {k k' : κ} {v w : ν} (h : (m.orInsert k v).get k' = some w) :
    m.get k' = some w ∨ w = v := by
  unfold orInsert at h
  split at h
  · exact .inl h
  · by_cases same : k' = k
    · subst same
      rw [getInsertSelf] at h
      exact .inr (Option.some.inj h).symm
    · rw [getInsertNe v same] at h
      exact .inl h

theorem getOrInsertOfSome {m : SortedMap κ ν} {k k' : κ} {w : ν} (v : ν) (h : m.get k' = some w) :
    (m.orInsert k v).get k' = some w := by
  unfold orInsert
  split
  · exact h
  · rename_i absent
    have ne : k' ≠ k := fun same => absent (same ▸ memKeys.mpr ⟨w,h⟩)
    rw [getInsertNe v ne]
    exact h

theorem memKeysOrInsert {m : SortedMap κ ν} {k k' : κ} {v : ν} : k' ∈ (m.orInsert k v).keys ↔ k' = k ∨ k' ∈ m.keys := by
  unfold orInsert
  split
  · rename_i present
    constructor
    · exact .inr
    · rintro (rfl | h)
      · exact present
      · exact h
  · exact memKeysInsert

theorem orInsertNilPerm (m : SortedMap κ (List α)) (k : κ) :
    (m.orInsert k []).values.flatten ~ m.values.flatten := by
  unfold orInsert
  split
  · rfl
  · rename_i absent
    have h := insertEntryAbsentPerm [] absent
    rwa [List.append_nil] at h

/- `collect()`: the entries of an iterator inserted in order, a later value replacing an
earlier one of the same key. -/
def ofList (l : List (κ × ν)) : SortedMap κ ν := l.foldl (fun m e => m.insert e.1 e.2) empty

theorem insertEntryAbove {k : κ} {v : ν} :
    ∀ {l : List (κ × ν)}, (∀ e ∈ l, e.1 < k) → insertEntry k v l = l ++ [(k,v)]
  | [], _ => rfl
  | e :: rest, below => by
    have lt := below e List.mem_cons_self
    simp only [insertEntry, if_neg (not_lt.mpr lt.le), if_neg (ne_of_gt lt), List.cons_append]
    rw [insertEntryAbove (fun x hx => below x (List.mem_cons_of_mem _ hx))]

theorem foldlInsertSorted :
    ∀ {l : List (κ × ν)} (m : SortedMap κ ν), (m.entries ++ l).Pairwise (fun a b => a.1 < b.1) →
      (l.foldl (fun m e => m.insert e.1 e.2) m).entries = m.entries ++ l
  | [], m, _ => by simp
  | e :: rest, m, sorted => by
    have above : ∀ x ∈ m.entries, x.1 < e.1 :=
      fun x hx => (List.pairwise_append.mp sorted).2.2 x hx e List.mem_cons_self
    have inserted : (m.insert e.1 e.2).entries = m.entries ++ [e] := insertEntryAbove above
    rw [List.foldl_cons, foldlInsertSorted (m.insert e.1 e.2) (by simpa [inserted] using sorted), inserted]
    simp

theorem ofListSorted {l : List (κ × ν)} (sorted : l.Pairwise (fun a b => a.1 < b.1)) : (ofList l).entries = l :=
  foldlInsertSorted empty sorted

theorem getFoldlInsertAbsent {k : κ} :
    ∀ {l : List (κ × ν)} (m : SortedMap κ ν), k ∉ l.map Prod.fst →
      (l.foldl (fun m e => m.insert e.1 e.2) m).get k = m.get k
  | [], _, _ => rfl
  | e :: rest, m, absent => by
    simp only [List.map_cons, List.mem_cons, not_or] at absent
    rw [List.foldl_cons, getFoldlInsertAbsent _ absent.2, getInsertNe _ absent.1]

theorem getOfList {l : List (κ × ν)} (distinct : (l.map Prod.fst).Nodup) {k : κ} {v : ν} (mem : (k,v) ∈ l) :
    (ofList l).get k = some v := by
  suffices ∀ m : SortedMap κ ν, (l.foldl (fun m e => m.insert e.1 e.2) m).get k = some v from this empty
  induction l with
  | nil => simp at mem
  | cons e rest ih =>
    intro m
    obtain ⟨absent, distinct⟩ := List.nodup_cons.mp distinct
    rcases List.mem_cons.mp mem with rfl | mem
    · rw [List.foldl_cons, getFoldlInsertAbsent _ absent, getInsertSelf]
    · exact ih distinct mem _

theorem lookupEntries [BEq κ] [LawfulBEq κ] (m : SortedMap κ ν) (k : κ) : m.entries.lookup k = m.get k := by
  unfold get
  induction m.entries with
  | nil => rfl
  | cons e rest ih =>
    by_cases same : e.1 = k
    · simp [List.lookup, lookupEntry, same]
    · have differ : (k == e.1) = false := beq_false_of_ne (Ne.symm same)
      simp [List.lookup, lookupEntry, same, differ, ih]

theorem foldlInsertIsSome {k : κ} : ∀ {l : List (κ × ν)} {m : SortedMap κ ν},
    ((l.foldl (fun m e => m.insert e.1 e.2) m).get k).isSome ↔ k ∈ l.map Prod.fst ∨ (m.get k).isSome
  | [], m => by simp
  | e :: rest, m => by
    rw [List.foldl_cons, foldlInsertIsSome]
    by_cases same : k = e.1
    · subst same
      simp [getInsertSelf]
    · simp [getInsertNe _ same, same]

theorem ofListIsSome {l : List (κ × ν)} {k : κ} : ((ofList l).get k).isSome ↔ k ∈ l.map Prod.fst := by
  rw [ofList, foldlInsertIsSome]
  simp [empty, get, lookupEntry]

theorem ofListGet {l : List (κ × ν)} (distinct : (l.map Prod.fst).Nodup) {k : κ} {v : ν} :
    (ofList l).get k = some v ↔ (k, v) ∈ l := by
  refine ⟨fun found => ?_, getOfList distinct⟩
  obtain ⟨⟨k', v'⟩, listed, rfl⟩ := List.mem_map.1 (ofListIsSome.1 (Option.isSome_iff_exists.2 ⟨v, found⟩))
  rw [getOfList distinct listed] at found
  cases found
  exact listed

end SortedMap
