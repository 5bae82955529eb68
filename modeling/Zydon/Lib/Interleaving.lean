/-
  Zydon.Lib.Interleaving

  Threads that interleave on a shared state.

  A `ThreadProgram` says what one thread does: its local states (program
  counters), and for each label the atomic step it takes.  `interleave` runs any
  number of threads of one program, one atomic step of one thread at a time.

  `soloUntil` runs one thread alone until it is done, which is what an
  uninterrupted call is; `exec_of_soloUntil` says that it is one of the
  interleavings, `soloUntil_invariant` what it keeps.  Its runs are put together
  from stretches of steps (`Solo`).

  `ownerAndThreads` interleaves one thread of one program (the only owner, or
  consumer, of a shared structure) with any number of threads of another,
  `pair` two threads of two programs, and `families` any number of threads of
  two kinds.  `beside` adds a thread to a machine.
-/

import Zydon.Lib.Machine

namespace Lib

/-- What one thread does: where it starts, and its atomic steps. -/
structure ThreadProgram (S P A : Type*) where
  start : P
  step : S → P → A → Option (S × P)

/-- The state of the threads `T` of a program. -/
structure Threads (T S P : Type*) where
  shared : S
  pc : T → P

namespace ThreadProgram

variable {T S P A : Type*} [DecidableEq T] (prog : ThreadProgram S P A)

/-- All interleavings of the steps of the threads `T`. -/
def interleave (T : Type*) [DecidableEq T] (shared : S) : Machine (Threads T S P) (T × A) where
  init := { shared := shared, pc := fun _ => prog.start }
  step := fun s a =>
    match prog.step s.shared (s.pc a.1) a.2 with
    | some (shared, p) => some { shared := shared, pc := Function.update s.pc a.1 p }
    | none => none

/-- The steps `a` of one thread alone until its local state is `done`, or
    `none` if that takes more than `fuel` steps. -/
def soloUntil (done : P → Bool) (a : A) : Nat → S → P → Option (S × P)
  | 0, shared, p => if done p then some (shared, p) else none
  | fuel + 1, shared, p =>
      if done p then some (shared, p)
      else
        match prog.step shared p a with
        | some (shared, p) => soloUntil done a fuel shared p
        | none => none

variable {prog}

/-- One step moves one thread. -/
theorem interleave_step_eq_some {shared : S} {s s' : Threads T S P} {t : T} {a : A}
    (h : (prog.interleave T shared).step s (t, a) = some s') :
    ∃ m p, prog.step s.shared (s.pc t) a = some (m, p) ∧
      s' = { shared := m, pc := Function.update s.pc t p } := by
  simp only [interleave] at h
  cases h_step : prog.step s.shared (s.pc t) a with
  | none => simp [h_step] at h
  | some r =>
      simp only [h_step, Option.some.injEq] at h
      exact ⟨r.1, r.2, rfl, h.symm⟩

/-- `n` steps `a` of one thread alone, none of them from a `done` state. -/
inductive Solo (prog : ThreadProgram S P A) (done : P → Bool) (a : A) : Nat → S → P → S → P → Prop
  | refl (m : S) (p : P) : Solo prog done a 0 m p m p
  | step {n : Nat} {m m₁ m' : S} {p p₁ p' : P} (h_done : done p = false)
      (h_step : prog.step m p a = some (m₁, p₁)) (h_rest : Solo prog done a n m₁ p₁ m' p') :
      Solo prog done a (n + 1) m p m' p'

section Solo

omit [DecidableEq T]

variable {done : P → Bool} {a : A} {n k : Nat} {m m₁ m' : S} {p p₁ p' : P}

theorem Solo.trans (h : Solo prog done a n m p m₁ p₁) (h' : Solo prog done a k m₁ p₁ m' p') :
    Solo prog done a (n + k) m p m' p' := by
  induction h with
  | refl => rwa [Nat.zero_add]
  | @step n _ _ _ _ _ _ h_done h_step _ ih =>
      rw [Nat.add_right_comm]
      exact .step h_done h_step (ih h')

/-- The invariant rule for the steps of one thread alone. -/
theorem Solo.invariant {inv : S → P → Prop} (h : Solo prog done a n m p m' p')
    (h_step : ∀ m p m' p', done p = false → inv m p → prog.step m p a = some (m', p') → inv m' p')
    (h_init : inv m p) : inv m' p' := by
  induction h with
  | refl => exact h_init
  | step h_done h_next _ ih => exact ih (h_step _ _ _ _ h_done h_init h_next)

/-- An uninterrupted run that returns has come to a `done` state in some number of
    steps. -/
theorem solo_of_soloUntil {fuel : Nat} (h : prog.soloUntil done a fuel m p = some (m', p')) :
    done p' = true ∧ ∃ n, Solo prog done a n m p m' p' := by
  induction fuel generalizing m p with
  | zero =>
      simp only [ThreadProgram.soloUntil] at h
      split at h
      · next h_done =>
          obtain ⟨rfl, rfl⟩ : m = m' ∧ p = p' := by simpa using h
          exact ⟨h_done, 0, .refl m p⟩
      · exact absurd h (by simp)
  | succ fuel ih =>
      simp only [ThreadProgram.soloUntil] at h
      split at h
      · next h_done =>
          obtain ⟨rfl, rfl⟩ : m = m' ∧ p = p' := by simpa using h
          exact ⟨h_done, 0, .refl m p⟩
      · next h_done =>
          split at h
          · next m₁ p₁ h_next =>
              obtain ⟨h_end, n, h_rest⟩ := ih h
              exact ⟨h_end, n + 1, .step (by simpa using h_done) h_next h_rest⟩
          · exact absurd h (by simp)

/-- The invariant rule for an uninterrupted run. -/
theorem soloUntil_invariant {inv : S → P → Prop}
    (h_step : ∀ m p m' p', done p = false → inv m p → prog.step m p a = some (m', p') → inv m' p')
    {fuel : Nat} (h_init : inv m p)
    (h_run : prog.soloUntil done a fuel m p = some (m', p')) : done p' = true ∧ inv m' p' := by
  obtain ⟨h_done, _, h_solo⟩ := solo_of_soloUntil h_run
  exact ⟨h_done, h_solo.invariant h_step h_init⟩

/-- An uninterrupted run returns if it has the fuel for its steps. -/
theorem Solo.soloUntil (h : Solo prog done a n m p m' p') (h_done : done p' = true) {fuel : Nat}
    (h_fuel : n ≤ fuel) : prog.soloUntil done a fuel m p = some (m', p') := by
  induction h generalizing fuel with
  | refl => cases fuel <;> simp [ThreadProgram.soloUntil, h_done]
  | step h_start h_step _ ih =>
      obtain ⟨fuel, rfl⟩ := Nat.exists_eq_add_of_le' (Nat.le_trans (Nat.le_add_left 1 _) h_fuel)
      simp only [ThreadProgram.soloUntil, h_start, h_step, Bool.false_eq_true, if_false]
      exact ih h_done (Nat.le_of_succ_le_succ h_fuel)

end Solo

/-- The steps of one thread alone are steps of the interleaving. -/
theorem Solo.exec {init m m' : S} {done : P → Bool} {a : A} {n : Nat} {p p' : P}
    (h : Solo prog done a n m p m' p') (t : T) {pc : T → P} (h_pc : pc t = p) :
    (prog.interleave T init).exec { shared := m, pc := pc } (List.replicate n (t, a))
      = some { shared := m', pc := Function.update pc t p' } := by
  induction h generalizing pc with
  | refl => rw [← h_pc, Function.update_eq_self]; rfl
  | @step n m m₁ m' p p₁ p' _ h_next _ ih =>
      have h_pc₁ : Function.update pc t p₁ t = p₁ := Function.update_self ..
      refine Machine.exec_cons_eq_some.mpr ⟨⟨m₁, _⟩, ?_, (ih h_pc₁).trans ?_⟩
      · simp only [interleave, h_pc, h_next]
      · rw [Function.update_idem]

/-- An uninterrupted run of one thread is a run of the interleaving. -/
theorem exec_of_soloUntil {init m m' : S} {done : P → Bool} {a : A} {fuel : Nat} {p p' : P}
    (h : prog.soloUntil done a fuel m p = some (m', p')) (t : T) {pc : T → P} (h_pc : pc t = p) :
    done p' ∧ ∃ n, (prog.interleave T init).exec { shared := m, pc := pc }
      (List.replicate n (t, a)) = some { shared := m', pc := Function.update pc t p' } := by
  obtain ⟨h_done, n, h_solo⟩ := solo_of_soloUntil h
  exact ⟨h_done, n, h_solo.exec t h_pc⟩

end ThreadProgram

/-- A thread that has a property is still there when one thread moves that keeps
    it. -/
theorem exists_update_of_imp {T P : Type*} [DecidableEq T] {pc : T → P} {t : T} {x : P}
    {p : P → Prop} (h_keep : p (pc t) → p x) (h : ∃ i, p (pc i)) :
    ∃ i, p (Function.update pc t x i) := by
  obtain ⟨i, h_i⟩ := h
  refine ⟨i, ?_⟩
  by_cases h_eq : i = t
  · subst h_eq
    rw [Function.update_self]
    exact h_keep h_i
  · rw [Function.update_of_ne h_eq]
    exact h_i

/-- A property of the threads of `l`, when one thread moves to where it has it. -/
theorem forall_mem_update {T P : Type*} [DecidableEq T] {pc : T → P} {t : T} {x : P}
    {p : P → Prop} {l : List T} (h_keep : t ∈ l → p x) (h : ∀ i ∈ l, i ≠ t → p (pc i)) :
    ∀ i ∈ l, p (Function.update pc t x i) := by
  intro i h_i
  by_cases h_eq : i = t
  · subst h_eq
    rw [Function.update_self]
    exact h_keep h_i
  · rw [Function.update_of_ne h_eq]
    exact h i h_i h_eq

/-! ## One owner and any number of threads -/

/-- The state of one owner and of the threads `T`. -/
structure OwnerAndThreads (T S P Q : Type*) where
  shared : S
  owner : P
  thread : T → Q

/-- All interleavings of the steps of an owner and of the threads `T`. -/
def ownerAndThreads {S P Q A B : Type*} (T : Type*) [DecidableEq T] (own : ThreadProgram S P A)
    (prog : ThreadProgram S Q B) (shared : S) : Machine (OwnerAndThreads T S P Q) (A ⊕ T × B) where
  init := { shared := shared, owner := own.start, thread := fun _ => prog.start }
  step := fun s a =>
    match a with
    | .inl a =>
        match own.step s.shared s.owner a with
        | some (shared, p) => some { s with shared := shared, owner := p }
        | none => none
    | .inr (t, b) =>
        match prog.step s.shared (s.thread t) b with
        | some (shared, q) =>
            some { s with shared := shared, thread := Function.update s.thread t q }
        | none => none

namespace OwnerAndThreads

variable {T S P Q A B : Type*} [DecidableEq T] {own : ThreadProgram S P A}
  {prog : ThreadProgram S Q B} {shared : S} {s s' : OwnerAndThreads T S P Q}

theorem step_owner_eq_some {a : A}
    (h : (ownerAndThreads T own prog shared).step s (.inl a) = some s') :
    ∃ m p, own.step s.shared s.owner a = some (m, p) ∧ s' = { s with shared := m, owner := p } := by
  simp only [ownerAndThreads] at h
  cases h_step : own.step s.shared s.owner a with
  | none => simp [h_step] at h
  | some r =>
      simp only [h_step, Option.some.injEq] at h
      exact ⟨r.1, r.2, rfl, h.symm⟩

theorem step_thread_eq_some {t : T} {b : B}
    (h : (ownerAndThreads T own prog shared).step s (.inr (t, b)) = some s') :
    ∃ m q, prog.step s.shared (s.thread t) b = some (m, q) ∧
      s' = { s with shared := m, thread := Function.update s.thread t q } := by
  simp only [ownerAndThreads] at h
  cases h_step : prog.step s.shared (s.thread t) b with
  | none => simp [h_step] at h
  | some r =>
      simp only [h_step, Option.some.injEq] at h
      exact ⟨r.1, r.2, rfl, h.symm⟩

end OwnerAndThreads

/-! ## Two threads -/

/-- The state of two threads. -/
structure Pair (S P Q : Type*) where
  shared : S
  left : P
  right : Q

/-- All interleavings of the steps of two threads. -/
def pair {S P Q A B : Type*} (left : ThreadProgram S P A) (right : ThreadProgram S Q B)
    (shared : S) : Machine (Pair S P Q) (A ⊕ B) where
  init := { shared := shared, left := left.start, right := right.start }
  step := fun s a =>
    match a with
    | .inl a =>
        match left.step s.shared s.left a with
        | some (shared, p) => some { s with shared := shared, left := p }
        | none => none
    | .inr b =>
        match right.step s.shared s.right b with
        | some (shared, q) => some { s with shared := shared, right := q }
        | none => none

namespace Pair

variable {S P Q A B : Type*} {left : ThreadProgram S P A} {right : ThreadProgram S Q B}
  {shared : S} {s s' : Pair S P Q}

theorem step_left_eq_some {a : A} (h : (pair left right shared).step s (.inl a) = some s') :
    ∃ m p, left.step s.shared s.left a = some (m, p) ∧ s' = { s with shared := m, left := p } := by
  simp only [pair] at h
  cases h_step : left.step s.shared s.left a with
  | none => simp [h_step] at h
  | some r =>
      simp only [h_step, Option.some.injEq] at h
      exact ⟨r.1, r.2, rfl, h.symm⟩

theorem step_right_eq_some {b : B} (h : (pair left right shared).step s (.inr b) = some s') :
    ∃ m q, right.step s.shared s.right b = some (m, q) ∧
      s' = { s with shared := m, right := q } := by
  simp only [pair] at h
  cases h_step : right.step s.shared s.right b with
  | none => simp [h_step] at h
  | some r =>
      simp only [h_step, Option.some.injEq] at h
      exact ⟨r.1, r.2, rfl, h.symm⟩

end Pair

/-! ## Two families of threads -/

/-- The state of the threads `T` and `U`. -/
structure Families (T U S P Q : Type*) where
  shared : S
  left : T → P
  right : U → Q

/-- All interleavings of the steps of two families of threads, each thread with a
    program of its own. -/
def families {T U S P Q A B : Type*} [DecidableEq T] [DecidableEq U]
    (left : T → ThreadProgram S P A) (right : U → ThreadProgram S Q B) (shared : S) :
    Machine (Families T U S P Q) (T × A ⊕ U × B) where
  init :=
    { shared := shared, left := fun t => (left t).start, right := fun u => (right u).start }
  step := fun s a =>
    match a with
    | .inl (t, a) =>
        match (left t).step s.shared (s.left t) a with
        | some (shared, p) => some { s with shared := shared, left := Function.update s.left t p }
        | none => none
    | .inr (u, b) =>
        match (right u).step s.shared (s.right u) b with
        | some (shared, q) =>
            some { s with shared := shared, right := Function.update s.right u q }
        | none => none

namespace Families

variable {T U S P Q A B : Type*} [DecidableEq T] [DecidableEq U] {left : T → ThreadProgram S P A}
  {right : U → ThreadProgram S Q B} {shared : S} {s s' : Families T U S P Q}

theorem step_left_eq_some {t : T} {a : A}
    (h : (families left right shared).step s (.inl (t, a)) = some s') :
    ∃ m p, (left t).step s.shared (s.left t) a = some (m, p) ∧
      s' = { s with shared := m, left := Function.update s.left t p } := by
  simp only [families] at h
  cases h_step : (left t).step s.shared (s.left t) a with
  | none => simp [h_step] at h
  | some r =>
      simp only [h_step, Option.some.injEq] at h
      exact ⟨r.1, r.2, rfl, h.symm⟩

theorem step_right_eq_some {u : U} {b : B}
    (h : (families left right shared).step s (.inr (u, b)) = some s') :
    ∃ m q, (right u).step s.shared (s.right u) b = some (m, q) ∧
      s' = { s with shared := m, right := Function.update s.right u q } := by
  simp only [families] at h
  cases h_step : (right u).step s.shared (s.right u) b with
  | none => simp [h_step] at h
  | some r =>
      simp only [h_step, Option.some.injEq] at h
      exact ⟨r.1, r.2, rfl, h.symm⟩

end Families

/-! ## A machine and one more thread -/

/-- The state of a machine, and of a thread that runs beside it. -/
structure Beside (σ P : Type*) where
  machine : σ
  thread : P

/-- All interleavings of the steps of a machine and of a thread that shares its
    state. -/
def Machine.beside {σ α P A : Type*} (M : Machine σ α) (prog : ThreadProgram σ P A) :
    Machine (Beside σ P) (α ⊕ A) where
  init := { machine := M.init, thread := prog.start }
  step := fun s a =>
    match a with
    | .inl a =>
        match M.step s.machine a with
        | some m => some { s with machine := m }
        | none => none
    | .inr a =>
        match prog.step s.machine s.thread a with
        | some (m, p) => some { machine := m, thread := p }
        | none => none

namespace Beside

variable {σ α P A : Type*} {M : Machine σ α} {prog : ThreadProgram σ P A} {s s' : Beside σ P}

theorem step_machine_eq_some {a : α} (h : (M.beside prog).step s (.inl a) = some s') :
    ∃ m, M.step s.machine a = some m ∧ s' = { s with machine := m } := by
  simp only [Machine.beside] at h
  cases h_step : M.step s.machine a with
  | none => simp [h_step] at h
  | some m =>
      simp only [h_step, Option.some.injEq] at h
      exact ⟨m, rfl, h.symm⟩

theorem step_thread_eq_some {a : A} (h : (M.beside prog).step s (.inr a) = some s') :
    ∃ m p, prog.step s.machine s.thread a = some (m, p) ∧ s' = { machine := m, thread := p } := by
  simp only [Machine.beside] at h
  cases h_step : prog.step s.machine s.thread a with
  | none => simp [h_step] at h
  | some r =>
      simp only [h_step, Option.some.injEq] at h
      exact ⟨r.1, r.2, rfl, h.symm⟩

end Beside
end Lib
