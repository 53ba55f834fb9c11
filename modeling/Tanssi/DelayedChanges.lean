import Mathlib

/-! Changes scheduled for later sessions: a list of values, each with the session index
at which it takes effect, next to the value in effect now. A change is scheduled on top of
the latest value, at a fixed delay from the current session, overwriting the first change
at or after that session or appended behind the others; at a session change the last
change due is applied and the rest stay queued. Read at a future session, the queue
predicts the value a session change to it will apply. -/
namespace DelayedChanges
variable {β : Type}

def latest (current : β) (changes : List (Nat × β)) : β :=
  (changes.getLast?.map (·.2)).getD current

/-- `iter_mut().find(|(applyAt, _)| applyAt >= session)` overwritten, or `push((session, new))`. -/
def schedule : List (Nat × β) → Nat → β → List (Nat × β)
  | [], session, new => [(session, new)]
  | (applyAt, old) :: rest, session, new =>
    if session ≤ applyAt then (applyAt, new) :: rest else (applyAt, old) :: schedule rest session new

/-- `partition(|(applyAt, _)| applyAt <= session)`: the changes due by `session`, and the later ones. -/
def due (changes : List (Nat × β)) (session : Nat) : List (Nat × β) × List (Nat × β) :=
  changes.partition fun c => decide (c.1 ≤ session)

def valueAt (current : β) (changes : List (Nat × β)) (session : Nat) : β :=
  latest current (due changes session).1

def applyDue (changes : List (Nat × β)) (session : Nat) : Option β × List (Nat × β) :=
  if changes.isEmpty then (none, changes)
  else ((due changes session).1.getLast?.map (·.2), (due changes session).2)

structure Ahead (session delay : Nat) (changes : List (Nat × β)) : Prop where
  sorted : changes.Pairwise fun a b => a.1 < b.1
  within : ∀ c ∈ changes, c.1 ≤ session + delay

structure Window (session delay : Nat) (changes : List (Nat × β)) : Prop extends Ahead session delay changes where
  after : ∀ c ∈ changes, session < c.1

section Lemmas
variable {current new : β} {changes : List (Nat × β)} {session : Nat}

theorem Window.nil {delay : Nat} : Window session delay ([] : List (Nat × β)) := ⟨⟨.nil, by simp⟩, by simp⟩

@[simp] theorem dueFst : (due changes session).1 = changes.filter fun c => decide (c.1 ≤ session) := by
  simp [due, List.partition_eq_filter_filter]

@[simp] theorem dueSnd : (due changes session).2 = changes.filter fun c => decide (session < c.1) := by
  rw [due, List.partition_eq_filter_filter]
  refine List.filter_congr fun c _ => ?_
  by_cases early : c.1 ≤ session
  · simp [early, Nat.not_lt.2 early]
  · simp [early, Nat.lt_of_not_le early]

theorem latestAppend {rest : List (Nat × β)} :
    latest current (changes ++ rest) = latest (latest current changes) rest := by
  cases h : rest.getLast? <;> simp [latest, List.getLast?_append, h]

theorem latestCons {c : Nat × β} : latest current (c :: changes) = latest c.2 changes := by
  cases changes <;> simp [latest, List.getLast?_cons]

theorem latestOf {P : β → Prop} (now : P current) (queued : ∀ c ∈ changes, P c.2) : P (latest current changes) := by
  unfold latest
  cases last : changes.getLast? with
  | none => exact now
  | some c => exact queued c (List.mem_of_getLast? last)

theorem applyDueValue : ((applyDue changes session).1).getD current = valueAt current changes session := by
  unfold applyDue valueAt latest
  split
  · rename_i empty
    simp [List.isEmpty_iff.1 empty]
  · rfl

/- Scheduling. The entries before the scheduled session are kept, so what the queue
predicts for an earlier session does not move; scheduled at or behind every entry, the
new value is the latest. -/

theorem scheduleBelow {earlier : Nat} (before : earlier < session) :
    ∀ {changes : List (Nat × β)}, (schedule changes session new).filter (fun c => decide (c.1 ≤ earlier)) =
      changes.filter fun c => decide (c.1 ≤ earlier)
  | [] => by simp [schedule]; omega
  | (applyAt, old) :: rest => by
    unfold schedule
    split
    · rename_i later
      simp [show ¬applyAt ≤ earlier by omega]
    · simp only [List.filter_cons]
      rw [scheduleBelow before]

theorem valueAtSchedule {earlier : Nat} (before : earlier < session) :
    valueAt current (schedule changes session new) earlier = valueAt current changes earlier := by
  simp only [valueAt, dueFst, scheduleBelow before]

theorem scheduleAbove {earlier : Nat} (before : earlier < session) :
    ∀ {changes : List (Nat × β)}, (schedule changes session new).filter (fun c => decide (earlier < c.1)) =
      schedule (changes.filter fun c => decide (earlier < c.1)) session new
  | [] => by simp [schedule, before]
  | (applyAt, old) :: rest => by
    by_cases overwrite : session ≤ applyAt
    · have kept : earlier < applyAt := by omega
      simp [schedule, overwrite, kept]
    · by_cases kept : earlier < applyAt
      · simp [schedule, overwrite, kept, scheduleAbove before]
      · simp [schedule, overwrite, kept, scheduleAbove before]

theorem applyDueSchedule {earlier : Nat} (before : earlier < session) :
    applyDue (schedule changes session new) earlier =
      ((applyDue changes earlier).1, schedule (applyDue changes earlier).2 session new) := by
  unfold applyDue
  cases changes with
  | nil => simp [schedule, Nat.not_le.2 before, before]
  | cons c rest =>
    have queued : (schedule (c :: rest) session new).isEmpty = false := by
      unfold schedule
      split <;> rfl
    simp only [queued, List.isEmpty_cons, Bool.false_eq_true, if_false, dueFst, dueSnd, scheduleBelow before,
      scheduleAbove before]

theorem scheduleLatest :
    ∀ {current : β} {changes : List (Nat × β)}, (changes.Pairwise fun a b => a.1 < b.1) →
      (∀ c ∈ changes, c.1 ≤ session) → latest current (schedule changes session new) = new
  | _, [], _, _ => rfl
  | _, (applyAt, old) :: rest, sorted, bounded => by
    obtain ⟨above, sortedRest⟩ := List.pairwise_cons.1 sorted
    unfold schedule
    split
    · have last : rest = [] := by
        refine List.eq_nil_iff_forall_not_mem.2 fun c listed => ?_
        have := above c listed
        have := bounded c (List.mem_cons_of_mem _ listed)
        omega
      simp [last, latest]
    · rw [latestCons]
      exact scheduleLatest sortedRest fun c listed => bounded c (List.mem_cons_of_mem _ listed)

theorem scheduleMem : ∀ {changes : List (Nat × β)} {c : Nat × β}, c ∈ schedule changes session new →
    c.2 = new ∨ c ∈ changes
  | [], c, listed => by simp [schedule] at listed; exact .inl (by rw [listed])
  | (applyAt, old) :: rest, c, listed => by
    unfold schedule at listed
    split at listed
    · rcases List.mem_cons.1 listed with rfl | later
      · exact .inl rfl
      · exact .inr (List.mem_cons_of_mem _ later)
    · rcases List.mem_cons.1 listed with rfl | later
      · exact .inr List.mem_cons_self
      · exact (scheduleMem later).imp_right (List.mem_cons_of_mem _)

theorem scheduleSessions (session : Nat) (new : β) : ∀ (changes : List (Nat × β)),
    (schedule changes session new).map Prod.fst = changes.map Prod.fst ∨
      (schedule changes session new).map Prod.fst = changes.map Prod.fst ++ [session] ∧
        ∀ c ∈ changes, c.1 < session
  | [] => .inr ⟨rfl, by simp⟩
  | (applyAt, old) :: rest => by
    unfold schedule
    split
    · exact .inl rfl
    · rename_i earlier
      rcases scheduleSessions session new rest with same | ⟨appended, below⟩
      · exact .inl (by simp [same])
      · refine .inr ⟨by simp [appended], ?_⟩
        intro c listed
        rcases List.mem_cons.1 listed with rfl | later
        · simpa using earlier
        · exact below c later

theorem scheduleSessionMem {c : Nat × β} (listed : c ∈ schedule changes session new) :
    c.1 = session ∨ ∃ d ∈ changes, d.1 = c.1 := by
  have mapped := List.mem_map_of_mem (f := Prod.fst) listed
  rcases scheduleSessions session new changes with same | ⟨appended, _⟩
  · rw [same] at mapped
    exact .inr (List.mem_map.1 mapped)
  · rw [appended, List.mem_append, List.mem_singleton] at mapped
    exact mapped.symm.imp id List.mem_map.1

theorem scheduleAhead {delay : Nat} (inv : Ahead session delay changes) :
    Ahead session delay (schedule changes (session + delay) new) := by
  refine ⟨?_, fun c listed => ?_⟩
  · rcases scheduleSessions (session + delay) new changes with same | ⟨appended, below⟩
    · rw [← List.pairwise_map, same, List.pairwise_map]
      exact inv.sorted
    · rw [← List.pairwise_map, appended, List.pairwise_append, List.pairwise_map]
      refine ⟨inv.sorted, by simp, ?_⟩
      intro a ha b hb
      obtain ⟨c, listed, rfl⟩ := List.mem_map.1 ha
      rw [List.mem_singleton.1 hb]
      exact below c listed
  · rcases scheduleSessionMem listed with fresh | ⟨d, listed', same⟩
    · omega
    · exact same ▸ inv.within d listed'

theorem scheduleWindow {delay : Nat} (positive : 0 < delay) (inv : Window session delay changes) :
    Window session delay (schedule changes (session + delay) new) where
  toAhead := scheduleAhead inv.toAhead
  after c listed := by
    rcases scheduleSessionMem listed with fresh | ⟨d, listed', same⟩
    · omega
    · exact same ▸ inv.after d listed'

/- A session change. From a window at `session`, the change to `session + 1` finds at most
one change due, and leaves a window at `session + 1`. -/

theorem dueAtMostOne {delay : Nat} (inv : Window session delay changes) :
    (due changes (session + 1)).1.length ≤ 1 := by
  rw [dueFst]
  have sorted := inv.sorted.filter (fun c => decide (c.1 ≤ session + 1))
  have reached : ∀ c ∈ changes.filter (fun c => decide (c.1 ≤ session + 1)), c.1 = session + 1 := by
    intro c listed
    have := inv.after c (List.mem_of_mem_filter listed)
    have := of_decide_eq_true (List.mem_filter.1 listed).2
    omega
  generalize changes.filter (fun c => decide (c.1 ≤ session + 1)) = applied at sorted reached ⊢
  match applied with
  | [] => simp
  | [_] => simp
  | a :: b :: rest =>
    have ordered := List.rel_of_pairwise_cons sorted List.mem_cons_self
    have := reached a List.mem_cons_self
    have := reached b (List.mem_cons_of_mem _ List.mem_cons_self)
    omega

theorem applyDueAhead {delay : Nat} (inv : Ahead session delay changes) :
    Ahead (session + 1) delay (applyDue changes (session + 1)).2 := by
  unfold applyDue
  split
  · exact ⟨inv.sorted, fun c listed => by have := inv.within c listed; omega⟩
  · rw [dueSnd]
    refine ⟨inv.sorted.filter _, fun c listed => ?_⟩
    have := inv.within c (List.mem_of_mem_filter listed)
    omega

theorem applyDueWindow {delay : Nat} (inv : Window session delay changes) :
    Window (session + 1) delay (applyDue changes (session + 1)).2 where
  toAhead := applyDueAhead inv.toAhead
  after c listed := by
    unfold applyDue at listed
    split at listed
    · rename_i empty
      rw [List.isEmpty_iff.1 empty] at listed
      cases listed
    · rw [dueSnd] at listed
      simpa using (List.mem_filter.1 listed).2

theorem sortedSplit (session : Nat) : ∀ {changes : List (Nat × β)}, (changes.Pairwise fun a b => a.1 < b.1) →
    changes = (due changes session).1 ++ (due changes session).2
  | [], _ => rfl
  | c :: rest, sorted => by
    obtain ⟨above, sortedRest⟩ := List.pairwise_cons.1 sorted
    have split := sortedSplit session sortedRest
    rw [dueFst, dueSnd] at split ⊢
    by_cases early : c.1 ≤ session
    · simp only [List.filter_cons, early, decide_true, Nat.not_lt.2 early, decide_false]
      exact congrArg _ split
    · have later : ∀ d ∈ c :: rest, session < d.1 := by
        intro d listed
        rcases List.mem_cons.1 listed with rfl | listed
        · omega
        · have := above d listed
          omega
      rw [List.filter_eq_nil_iff.2 fun d listed => by simpa using later d listed,
        List.filter_eq_self.2 fun d listed => by simpa using later d listed]
      rfl

theorem applyDueLatest (sorted : changes.Pairwise fun a b => a.1 < b.1) :
    latest ((applyDue changes session).1.getD current) (applyDue changes session).2 = latest current changes := by
  unfold applyDue
  split
  · rfl
  · conv => rhs; rw [sortedSplit session sorted, latestAppend]
    rfl

theorem valueAtApplyDue (sorted : changes.Pairwise fun a b => a.1 < b.1) {later : Nat} (after : session ≤ later) :
    valueAt ((applyDue changes session).1.getD current) (applyDue changes session).2 later =
      valueAt current changes later := by
  unfold applyDue
  split
  · rfl
  · have due : (changes.filter fun c => decide (c.1 ≤ session)).filter (fun c => decide (c.1 ≤ later)) =
        changes.filter fun c => decide (c.1 ≤ session) := by
      rw [List.filter_eq_self]
      intro c listed
      simpa using Nat.le_trans (of_decide_eq_true (List.mem_filter.1 listed).2) after
    conv => rhs; rw [sortedSplit session sorted]
    simp only [valueAt, dueFst, dueSnd, List.filter_append, due, latestAppend]
    rfl

theorem applyDueMem {c : Nat × β} (listed : c ∈ (applyDue changes session).2) : c ∈ changes := by
  unfold applyDue at listed
  split at listed
  · exact listed
  · exact List.mem_of_mem_filter (dueSnd ▸ listed)

theorem applyDueApplied {applied : β} (h : (applyDue changes session).1 = some applied) :
    ∃ c ∈ changes, c.2 = applied := by
  unfold applyDue at h
  split at h
  · cases h
  · obtain ⟨c, last, rfl⟩ := Option.map_eq_some_iff.1 h
    exact ⟨c, List.mem_of_mem_filter (dueFst ▸ List.mem_of_getLast? last), rfl⟩

theorem applyDueOf {P : β → Prop} (now : P current) (queued : ∀ c ∈ changes, P c.2) :
    P ((applyDue changes session).1.getD current) := by
  cases applied : (applyDue changes session).1 with
  | none => exact now
  | some value =>
    obtain ⟨c, listed, rfl⟩ := applyDueApplied applied
    exact queued c listed

end Lemmas

end DelayedChanges
