/-
  Zydon.Lib.Sections

  Critical sections: threads that work on a store of resources under locks.

  A piece of `Work` accesses one resource at a time, and what it does next depends
  on what it has read.  In `Sections` every transaction names the locks it takes, in
  order, and its work accesses nothing else.  The machine of the sections takes one
  lock, makes one access or drops one lock in a step, and the steps of the threads
  interleave in any way.

  Every run is serializable (`Sections.serialized_of_reachable`): the transactions
  that have returned have done what they do one after the other, each alone, in the
  order in which they have returned.
-/

import Mathlib.Data.List.Nodup
import Mathlib.Logic.Function.Basic
import Zydon.Lib.Machine

namespace Lib

-- ============================================================================
-- Work
-- ============================================================================

/-- Work on resources `R` with values in `V`: it is over, with an answer or an
    error, or it reads and writes a resource and goes on with the value read. -/
inductive Work (R V E A : Type) where
  | done (result : Except E A)
  | access (r : R) (write : V → V) (next : V → Work R V E A)

namespace Work

variable {R V E A B : Type}

/-- Go on with the answer; an error ends the work. -/
def bind : Work R V E A → (A → Work R V E B) → Work R V E B
  | .done (.ok a), f => f a
  | .done (.error e), _ => .done (.error e)
  | .access r write next, f => .access r write fun v => (next v).bind f

instance : Monad (Work R V E) where
  pure a := .done (.ok a)
  bind := bind

/-- Read something off a resource. -/
def read (r : R) (f : V → A) : Work R V E A := .access r id fun v => pure (f v)

/-- Write a resource. -/
def write (r : R) (f : V → V) : Work R V E Unit := .access r f fun _ => pure ()

/-- Stop with the error of a computation, or go on with its answer. -/
def lift (result : Except E A) : Work R V E A := .done result

/-- The resources that are accessed, whatever is read, are among those in `held`. -/
def Within (held : R → Prop) : Work R V E A → Prop
  | .done _ => True
  | .access r _ next => held r ∧ ∀ v, (next v).Within held

variable [DecidableEq R]

/-- All of the work at once. -/
def run : Work R V E A → (R → V) → Except E A × (R → V)
  | .done result, m => (result, m)
  | .access r write next, m => (next (m r)).run (Function.update m r (write (m r)))

variable {w : Work R V E A} {f : A → Work R V E B} {held : R → Prop} {m m' : R → V} {r : R}

omit [DecidableEq R] in
@[simp] theorem within_pure (a : A) : (pure a : Work R V E A).Within held := trivial

omit [DecidableEq R] in
@[simp] theorem within_lift (result : Except E A) :
    (lift result : Work R V E A).Within held := trivial

omit [DecidableEq R] in
theorem Within.bind (hw : w.Within held) (hf : ∀ a, (f a).Within held) :
    (w >>= f).Within held := by
  induction w with
  | done result =>
      cases result with
      | error e => trivial
      | ok a => exact hf a
  | access r write next ih => exact ⟨hw.1, fun v => ih v (hw.2 v)⟩

omit [DecidableEq R] in
/-- All resources are among those in `held`. -/
theorem within_of_forall (w : Work R V E A) (h : ∀ r, held r) : w.Within held := by
  induction w with
  | done result => trivial
  | access r write next ih => exact ⟨h r, ih⟩

@[simp] theorem run_pure (a : A) : (pure a : Work R V E A).run m = (.ok a, m) := rfl

/-- Work leaves alone what it does not access. -/
theorem Within.run_of_not (hw : w.Within held) (h_r : ¬ held r) : (w.run m).2 r = m r := by
  induction w generalizing m with
  | done result => rfl
  | access r' write next ih =>
      have h_ne : r ≠ r' := by
        rintro rfl
        exact h_r hw.1
      exact (ih (m r') (hw.2 (m r'))).trans (Function.update_of_ne h_ne ..)

/-- Work only depends on what it accesses. -/
theorem Within.run_congr (hw : w.Within held) (h_eq : ∀ r, held r → m r = m' r) :
    (w.run m).1 = (w.run m').1 ∧ ∀ r, held r → (w.run m).2 r = (w.run m').2 r := by
  induction w generalizing m m' with
  | done result => exact ⟨rfl, h_eq⟩
  | access r write next ih =>
      simp only [run, h_eq r hw.1]
      refine ih (m' r) (hw.2 (m' r)) fun r' h_r' => ?_
      by_cases h_r : r' = r
      · rw [h_r, Function.update_self, Function.update_self]
      · rw [Function.update_of_ne h_r, Function.update_of_ne h_r, h_eq r' h_r']

end Work

-- ============================================================================
-- Sections
-- ============================================================================

/-- The locks that each transaction takes, in this order, and its work, which
    accesses nothing else. -/
structure Sections (Txn R V E A : Type) where
  locks : Txn → List R
  work : Txn → Work R V E A
  within : ∀ t, (work t).Within (· ∈ locks t)

/-- Where a thread is, with the transactions `rest` it has still to begin. -/
inductive SectionPc (Txn R V E A : Type) where
  | idle (rest : List Txn)
  | locking (t : Txn) (taken left : List R) (rest : List Txn)
  | working (t : Txn) (work : Work R V E A) (rest : List Txn)
  | unlocking (t : Txn) (left : List R) (rest : List Txn)

/-- A transaction that a thread has done, with its result. -/
structure Returned (C Txn E A : Type) where
  thread : C
  txn : Txn
  result : Except E A

/-- The store, the holders of its locks, the threads, and what has returned. -/
structure SectionState (C Txn R V E A : Type) where
  store : R → V
  holder : R → Option C
  pc : C → SectionPc Txn R V E A
  returned : List (Returned C Txn E A)

variable {C Txn R V E A : Type}

namespace SectionPc

/-- The transactions that a thread has not done. -/
def ahead : SectionPc Txn R V E A → List Txn
  | .idle rest | .unlocking _ _ rest => rest
  | .locking t _ _ rest | .working t _ rest => t :: rest

end SectionPc

namespace SectionState

variable [DecidableEq C] [DecidableEq R]

def goto (s : SectionState C Txn R V E A) (c : C) (p : SectionPc Txn R V E A) :
    SectionState C Txn R V E A :=
  { s with pc := Function.update s.pc c p }

def setHolder (s : SectionState C Txn R V E A) (r : R) (holder : Option C) :
    SectionState C Txn R V E A :=
  { s with holder := Function.update s.holder r holder }

def setValue (s : SectionState C Txn R V E A) (r : R) (v : V) : SectionState C Txn R V E A :=
  { s with store := Function.update s.store r v }

def note (s : SectionState C Txn R V E A) (e : Returned C Txn E A) : SectionState C Txn R V E A :=
  { s with returned := s.returned ++ [e] }

variable {s : SectionState C Txn R V E A} {c c' : C} {p : SectionPc Txn R V E A}

omit [DecidableEq R] in
@[simp] theorem goto_pc_self : (s.goto c p).pc c = p := Function.update_self ..

omit [DecidableEq R] in
theorem goto_pc_of_ne (h : c' ≠ c) : (s.goto c p).pc c' = s.pc c' := Function.update_of_ne h ..

end SectionState

namespace Sections

variable [DecidableEq C] [DecidableEq R] (S : Sections Txn R V E A)

/-- One step of a thread; one that waits for a lock has none. -/
def step (s : SectionState C Txn R V E A) (c : C) : Option (SectionState C Txn R V E A) :=
  match s.pc c with
  | .idle [] => none
  | .idle (t :: rest) => some (s.goto c (.locking t [] (S.locks t) rest))
  | .locking t _ [] rest => some (s.goto c (.working t (S.work t) rest))
  | .locking t taken (r :: left) rest =>
      if (s.holder r).isSome then none
      else some ((s.setHolder r (some c)).goto c (.locking t (taken ++ [r]) left rest))
  | .working t (.access r write next) rest =>
      some ((s.setValue r (write (s.store r))).goto c (.working t (next (s.store r)) rest))
  | .working t (.done result) rest =>
      some ((s.note ⟨c, t, result⟩).goto c (.unlocking t (S.locks t).reverse rest))
  | .unlocking t (r :: left) rest => some ((s.setHolder r none).goto c (.unlocking t left rest))
  | .unlocking _ [] rest => some (s.goto c (.idle rest))

/-- The threads with the transactions `program`, on the store `init`. -/
def machine (init : R → V) (program : C → List Txn) : Machine (SectionState C Txn R V E A) C where
  init :=
    { store := init
      holder := fun _ => none
      pc := fun c => .idle (program c)
      returned := [] }
  step := S.step

/-- The transactions of `es`, done one after the other from the store `m`, have the
    results of `es` and leave the store `m'`. -/
def Serial : (R → V) → List (Returned C Txn E A) → (R → V) → Prop
  | m, [], m' => m = m'
  | m, e :: es, m' =>
      ((S.work e.txn).run m).1 = e.result ∧ Serial ((S.work e.txn).run m).2 es m'

/-- The transactions of `es` that a thread has done. -/
def ofThread (es : List (Returned C Txn E A)) (c : C) : List Txn :=
  (es.filter fun e => e.thread = c).map Returned.txn

/-- The run is one of the transactions one after the other. -/
structure Serialized (init : R → V) (program : C → List Txn) (s : SectionState C Txn R V E A) :
    Prop where
  /-- In the order in which they have returned; a resource that nobody has locked is as
      they leave it. -/
  serial : ∃ m, S.Serial init s.returned m ∧ ∀ r, s.holder r = none → s.store r = m r
  /-- Every thread does its transactions in its order. -/
  order : ∀ c, ofThread s.returned c ++ (s.pc c).ahead = program c
  /-- The locks of a transaction that has returned are distinct. -/
  distinct : ∀ e ∈ s.returned, (S.locks e.txn).Nodup

/-- What a step of a thread does. -/
inductive Effect (c : C) (s : SectionState C Txn R V E A) : SectionState C Txn R V E A → Prop
  | begin {t : Txn} {rest : List Txn} (h_pc : s.pc c = .idle (t :: rest)) :
      Effect c s (s.goto c (.locking t [] (S.locks t) rest))
  | take {t : Txn} {r : R} {taken left : List R} {rest : List Txn}
      (h_pc : s.pc c = .locking t taken (r :: left) rest) (h_free : s.holder r = none) :
      Effect c s ((s.setHolder r (some c)).goto c (.locking t (taken ++ [r]) left rest))
  | enter {t : Txn} {taken : List R} {rest : List Txn} (h_pc : s.pc c = .locking t taken [] rest) :
      Effect c s (s.goto c (.working t (S.work t) rest))
  | access {t : Txn} {r : R} {write : V → V} {next : V → Work R V E A} {rest : List Txn}
      (h_pc : s.pc c = .working t (.access r write next) rest) :
      Effect c s
        ((s.setValue r (write (s.store r))).goto c (.working t (next (s.store r)) rest))
  | finish {t : Txn} {result : Except E A} {rest : List Txn}
      (h_pc : s.pc c = .working t (.done result) rest) :
      Effect c s ((s.note ⟨c, t, result⟩).goto c (.unlocking t (S.locks t).reverse rest))
  | drop {t : Txn} {r : R} {left : List R} {rest : List Txn}
      (h_pc : s.pc c = .unlocking t (r :: left) rest) :
      Effect c s ((s.setHolder r none).goto c (.unlocking t left rest))
  | leave {t : Txn} {rest : List Txn} (h_pc : s.pc c = .unlocking t [] rest) :
      Effect c s (s.goto c (.idle rest))

variable {S} {s s' : SectionState C Txn R V E A} {c : C}

theorem step_effect (h : S.step s c = some s') : S.Effect c s s' := by
  unfold step at h
  split at h
  · exact absurd h (by simp)
  · next h_pc =>
      cases h
      exact .begin h_pc
  · next h_pc =>
      cases h
      exact .enter h_pc
  · next h_pc =>
      split at h
      · exact absurd h (by simp)
      · next h_free =>
          cases h
          exact .take h_pc (Option.not_isSome_iff_eq_none.mp h_free)
  · next h_pc =>
      cases h
      exact .access h_pc
  · next h_pc =>
      cases h
      exact .finish h_pc
  · next h_pc =>
      cases h
      exact .drop h_pc
  · next h_pc =>
      cases h
      exact .leave h_pc

theorem Effect.step_eq (h : S.Effect c s s') : S.step s c = some s' := by
  cases h with
  | take h_pc h_free => simp [step, h_pc, h_free]
  | begin h_pc | enter h_pc | access h_pc | finish h_pc | drop h_pc | leave h_pc =>
      simp [step, h_pc]

-- ============================================================================
-- Locks
-- ============================================================================

variable (S) in
/-- The locks a thread holds. -/
def held : SectionPc Txn R V E A → List R
  | .idle _ => []
  | .locking _ taken _ _ => taken
  | .working t _ _ => S.locks t
  | .unlocking _ left _ => left

variable (S) in
/-- A thread takes the locks of its transaction, and accesses nothing else. -/
def Ok : SectionPc Txn R V E A → Prop
  | .idle _ | .unlocking _ _ _ => True
  | .locking t taken left _ => taken ++ left = S.locks t
  | .working t work _ => work.Within (· ∈ S.locks t)

variable (S) in
/-- The locks are held by the threads that have taken them. -/
structure LockInv (s : SectionState C Txn R V E A) : Prop where
  holders : ∀ r c, s.holder r = some c ↔ r ∈ S.held (s.pc c)
  nodup : ∀ c, (S.held (s.pc c)).Nodup
  ok : ∀ c, S.Ok (s.pc c)

omit [DecidableEq R] in
/-- A thread that neither takes nor drops a lock. -/
theorem LockInv.goto (hs : S.LockInv s) {p : SectionPc Txn R V E A}
    (h_held : ∀ r, r ∈ S.held p ↔ r ∈ S.held (s.pc c)) (h_nodup : (S.held p).Nodup)
    (h_ok : S.Ok p) : S.LockInv (s.goto c p) := by
  constructor
  case holders =>
    intro r c'
    show s.holder r = some c' ↔ r ∈ S.held (Function.update s.pc c p c')
    by_cases h_c : c' = c
    · rw [h_c, Function.update_self, h_held, hs.holders]
    · rw [Function.update_of_ne h_c, hs.holders]
  case nodup =>
    exact (Function.forall_update_iff _ fun _ p => (S.held p).Nodup).mpr
      ⟨h_nodup, fun c' _ => hs.nodup c'⟩
  case ok =>
    exact (Function.forall_update_iff _ fun _ p => S.Ok p).mpr ⟨h_ok, fun c' _ => hs.ok c'⟩

/-- A thread takes a free lock, or drops one that it holds. -/
theorem LockInv.setHolder (hs : S.LockInv s) {p : SectionPc Txn R V E A} {r : R} {owner : Option C}
    (h_held : ∀ r', r' ≠ r → (r' ∈ S.held p ↔ r' ∈ S.held (s.pc c)))
    (h_r : owner = some c ∧ s.holder r = none ∧ r ∈ S.held p ∨
      owner = none ∧ s.holder r = some c ∧ r ∉ S.held p)
    (h_nodup : (S.held p).Nodup) (h_ok : S.Ok p) :
    S.LockInv ((s.setHolder r owner).goto c p) := by
  have h_other : ∀ c', c' ≠ c → r ∉ S.held (s.pc c') := by
    intro c' h_c h_mem
    rw [← hs.holders] at h_mem
    rcases h_r with ⟨-, h_none, -⟩ | ⟨-, h_some, -⟩
    · exact absurd (h_mem.symm.trans h_none) (by simp)
    · exact h_c (Option.some.inj (h_mem.symm.trans h_some))
  constructor
  case holders =>
    intro r' c'
    show Function.update s.holder r owner r' = some c' ↔ r' ∈ S.held (Function.update s.pc c p c')
    by_cases h_eq : r' = r
    · rw [h_eq, Function.update_self]
      by_cases h_c : c' = c
      · rw [h_c, Function.update_self]
        rcases h_r with ⟨rfl, -, h_mem⟩ | ⟨rfl, -, h_not⟩
        · exact ⟨fun _ => h_mem, fun _ => rfl⟩
        · exact ⟨fun h => absurd h (by simp), fun h => absurd h h_not⟩
      · rw [Function.update_of_ne h_c]
        refine ⟨fun h => ?_, fun h => absurd h (h_other c' h_c)⟩
        rcases h_r with ⟨rfl, -, -⟩ | ⟨rfl, -, -⟩
        · exact absurd (Option.some.inj h).symm h_c
        · exact absurd h (by simp)
    · rw [Function.update_of_ne h_eq, hs.holders]
      by_cases h_c : c' = c
      · rw [h_c, Function.update_self, h_held r' h_eq]
      · rw [Function.update_of_ne h_c]
  case nodup =>
    exact (Function.forall_update_iff _ fun _ p => (S.held p).Nodup).mpr
      ⟨h_nodup, fun c' _ => hs.nodup c'⟩
  case ok =>
    exact (Function.forall_update_iff _ fun _ p => S.Ok p).mpr ⟨h_ok, fun c' _ => hs.ok c'⟩

theorem LockInv.step (hs : S.LockInv s) (h : S.Effect c s s') : S.LockInv s' := by
  have h_nodup := hs.nodup c
  have h_ok := hs.ok c
  cases h with
  | begin h_pc => exact hs.goto (by simp [h_pc, held]) List.nodup_nil rfl
  | @take t r taken left rest h_pc h_free =>
      rw [h_pc] at h_nodup h_ok
      have h_not : r ∉ taken := by
        intro h_mem
        have h_holder := (hs.holders r c).mpr (by rw [h_pc]; exact h_mem)
        exact absurd (h_free.symm.trans h_holder) (by simp)
      refine hs.setHolder ?_ (.inl ⟨rfl, h_free, by simp [held]⟩) ?_ ?_
      · intro r' h_ne
        simp [h_pc, held, h_ne]
      · exact h_nodup.append (List.nodup_singleton r) (by simpa [held] using h_not)
      · rwa [Ok, List.append_assoc]
  | @enter t taken rest h_pc =>
      rw [h_pc] at h_nodup h_ok
      obtain rfl : taken = S.locks t := by rwa [Ok, List.append_nil] at h_ok
      exact hs.goto (by simp [h_pc, held]) h_nodup (S.within t)
  | @access t r write next rest h_pc =>
      rw [h_pc] at h_nodup h_ok
      have h_value : S.LockInv (s.setValue r (write (s.store r))) := ⟨hs.holders, hs.nodup, hs.ok⟩
      refine h_value.goto ?_ h_nodup (h_ok.2 _)
      intro r'
      rw [show (s.setValue r (write (s.store r))).pc c = _ from h_pc]
      rfl
  | @finish t result rest h_pc =>
      rw [h_pc] at h_nodup
      have h_note : S.LockInv (s.note ⟨c, t, result⟩) := ⟨hs.holders, hs.nodup, hs.ok⟩
      refine h_note.goto ?_ (List.nodup_reverse.mpr h_nodup) trivial
      intro r
      rw [show (s.note ⟨c, t, result⟩).pc c = _ from h_pc]
      exact List.mem_reverse
  | @drop t r left rest h_pc =>
      rw [h_pc] at h_nodup
      obtain ⟨h_not, h_nodup⟩ := List.nodup_cons.mp h_nodup
      have h_holder := (hs.holders r c).mpr (by rw [h_pc]; exact List.mem_cons_self)
      refine hs.setHolder ?_ (.inr ⟨rfl, h_holder, h_not⟩) h_nodup trivial
      intro r' h_ne
      simp [h_pc, held, h_ne]
  | leave h_pc => exact hs.goto (by simp [h_pc, held]) List.nodup_nil trivial

omit [DecidableEq C] [DecidableEq R] in
/-- Two threads that work have no lock in common. -/
theorem LockInv.apart (hs : S.LockInv s) {c c' : C} {t t' : Txn} {w w' : Work R V E A}
    {rest rest' : List Txn} {r : R} (h_c : s.pc c = .working t w rest)
    (h_c' : s.pc c' = .working t' w' rest') (h_r : r ∈ S.locks t) (h_r' : r ∈ S.locks t') :
    c = c' := by
  have h_holder := (hs.holders r c).mpr (by rw [h_c]; exact h_r)
  have h_holder' := (hs.holders r c').mpr (by rw [h_c']; exact h_r')
  exact Option.some.inj (h_holder.symm.trans h_holder')

-- ============================================================================
-- The transactions one after the other
-- ============================================================================

variable {init m : R → V} {program : C → List Txn} {es : List (Returned C Txn E A)}

omit [DecidableEq C] in
/-- One more transaction. -/
theorem Serial.snoc {m₀ : R → V} (h : S.Serial m₀ es m) {e : Returned C Txn E A}
    (h_e : ((S.work e.txn).run m).1 = e.result) :
    S.Serial m₀ (es ++ [e]) ((S.work e.txn).run m).2 := by
  induction es generalizing m₀ with
  | nil =>
      obtain rfl : m₀ = m := h
      exact ⟨h_e, rfl⟩
  | cons e' es ih => exact ⟨h.1, ih h.2⟩

variable (S) in
/-- The store `m` of the transactions that have returned, one after the other, and the
    store of the threads. -/
structure SerialInv (init m : R → V) (s : SectionState C Txn R V E A) : Prop where
  serial : S.Serial init s.returned m
  /-- What no thread works on is the same. -/
  outside : ∀ r, (∀ c t w rest, s.pc c = .working t w rest → r ∉ S.locks t) → s.store r = m r
  /-- A thread that works will come to what its transaction does in `m`. -/
  inside : ∀ c t w rest, s.pc c = .working t w rest →
    (w.run s.store).1 = ((S.work t).run m).1 ∧
      ∀ r ∈ S.locks t, (w.run s.store).2 r = ((S.work t).run m).2 r

omit [DecidableEq C] in
/-- What a thread has locked and does not work on is the same. -/
theorem SerialInv.store_eq_of_held (hs : S.SerialInv init m s) (h_lock : S.LockInv s) {r : R}
    (h_r : r ∈ S.held (s.pc c)) (h_c : ∀ t w rest, s.pc c ≠ .working t w rest) :
    s.store r = m r := by
  refine hs.outside r fun c' t w rest h_pc h_mem => ?_
  have h_holder := (h_lock.holders r c).mpr h_r
  have h_holder' := (h_lock.holders r c').mpr (by rw [h_pc]; exact h_mem)
  obtain rfl : c = c' := Option.some.inj (h_holder.symm.trans h_holder')
  exact h_c t w rest h_pc

/-- A thread that does not work does not come to work. -/
theorem SerialInv.goto (hs : S.SerialInv init m s) {p : SectionPc Txn R V E A}
    (h_c : ∀ t w rest, s.pc c ≠ .working t w rest) (h_p : ∀ t w rest, p ≠ .working t w rest) :
    S.SerialInv init m (s.goto c p) := by
  have h_iff : ∀ c' t w rest, (s.goto c p).pc c' = .working t w rest ↔
      s.pc c' = .working t w rest := by
    intro c' t w rest
    by_cases h_eq : c' = c
    · rw [h_eq, SectionState.goto_pc_self]
      exact ⟨fun h => absurd h (h_p t w rest), fun h => absurd h (h_c t w rest)⟩
    · rw [SectionState.goto_pc_of_ne h_eq]
  constructor
  case serial => exact hs.serial
  case outside =>
    intro r h_r
    exact hs.outside r fun c' t w rest h_pc => h_r c' t w rest ((h_iff c' t w rest).mpr h_pc)
  case inside =>
    intro c' t w rest h_pc
    exact hs.inside c' t w rest ((h_iff c' t w rest).mp h_pc)

/-- With all its locks a thread comes to work. -/
theorem SerialInv.enter (hs : S.SerialInv init m s) (h_lock : S.LockInv s) {t : Txn}
    {taken : List R} {rest : List Txn} (h_pc : s.pc c = .locking t taken [] rest) :
    S.SerialInv init m (s.goto c (.working t (S.work t) rest)) := by
  have h_c : ∀ t w rest, s.pc c ≠ .working t w rest := fun t w rest h =>
    absurd (h_pc.symm.trans h) (by simp)
  have h_taken : taken = S.locks t := by
    have h_ok := h_lock.ok c
    rwa [h_pc, Ok, List.append_nil] at h_ok
  constructor
  case serial => exact hs.serial
  case outside =>
    intro r h_r
    refine hs.outside r fun c' t' w rest' h_pc' => h_r c' t' w rest' ?_
    have h_ne : c' ≠ c := by
      rintro rfl
      exact h_c t' w rest' h_pc'
    exact (SectionState.goto_pc_of_ne h_ne).trans h_pc'
  case inside =>
    intro c' t' w rest' h_pc'
    by_cases h_eq : c' = c
    · rw [h_eq, SectionState.goto_pc_self] at h_pc'
      cases h_pc'
      refine (S.within t).run_congr fun r h_r => hs.store_eq_of_held h_lock (c := c) ?_ h_c
      rw [h_pc, held, h_taken]
      exact h_r
    · rw [SectionState.goto_pc_of_ne h_eq] at h_pc'
      exact hs.inside c' t' w rest' h_pc'

/-- An access is one of a thread that works, to what it has locked. -/
theorem SerialInv.access (hs : S.SerialInv init m s) (h_lock : S.LockInv s) {t : Txn} {r : R}
    {write : V → V} {next : V → Work R V E A} {rest : List Txn}
    (h_pc : s.pc c = .working t (.access r write next) rest) :
    S.SerialInv init m
      ((s.setValue r (write (s.store r))).goto c (.working t (next (s.store r)) rest)) := by
  have h_r : r ∈ S.locks t := by
    have h_ok := h_lock.ok c
    rw [h_pc] at h_ok
    exact h_ok.1
  constructor
  case serial => exact hs.serial
  case outside =>
    intro r' h_r'
    have h_not := h_r' c t _ rest SectionState.goto_pc_self
    have h_ne : r' ≠ r := by
      rintro rfl
      exact h_not h_r
    refine (Function.update_of_ne h_ne ..).trans (hs.outside r' fun c' t' w rest' h_pc' => ?_)
    by_cases h_eq : c' = c
    · rw [h_eq, h_pc] at h_pc'
      cases h_pc'
      exact h_not
    · exact h_r' c' t' w rest' ((SectionState.goto_pc_of_ne h_eq).trans h_pc')
  case inside =>
    intro c' t' w rest' h_pc'
    by_cases h_eq : c' = c
    · rw [h_eq, SectionState.goto_pc_self] at h_pc'
      cases h_pc'
      exact hs.inside c t _ rest h_pc
    · rw [SectionState.goto_pc_of_ne h_eq] at h_pc'
      have h_inside := hs.inside c' t' w rest' h_pc'
      have h_within : w.Within (· ∈ S.locks t') := by
        have h_ok := h_lock.ok c'
        rwa [show s.pc c' = _ from h_pc'] at h_ok
      have h_same : ∀ r', r' ∈ S.locks t' →
          s.store r' = Function.update s.store r (write (s.store r)) r' := by
        intro r' h_r'
        refine (Function.update_of_ne ?_ ..).symm
        rintro rfl
        exact h_eq (h_lock.apart h_pc' h_pc h_r' h_r)
      obtain ⟨h_result, h_store⟩ := h_within.run_congr h_same
      exact ⟨h_result.symm.trans h_inside.1,
        fun r' h_r' => (h_store r' h_r').symm.trans (h_inside.2 r' h_r')⟩

/-- A transaction that returns is the next one. -/
theorem SerialInv.finish (hs : S.SerialInv init m s) (h_lock : S.LockInv s) {t : Txn}
    {result : Except E A} {rest : List Txn} (h_pc : s.pc c = .working t (.done result) rest) :
    S.SerialInv init ((S.work t).run m).2
      ((s.note ⟨c, t, result⟩).goto c (.unlocking t (S.locks t).reverse rest)) := by
  have h_done := hs.inside c t _ rest h_pc
  constructor
  case serial => exact hs.serial.snoc h_done.1.symm
  case outside =>
    intro r h_r
    by_cases h_mem : r ∈ S.locks t
    · exact h_done.2 r h_mem
    · rw [(S.within t).run_of_not h_mem]
      refine hs.outside r fun c' t' w rest' h_pc' => ?_
      by_cases h_eq : c' = c
      · rw [h_eq, h_pc] at h_pc'
        cases h_pc'
        exact h_mem
      · exact h_r c' t' w rest' ((SectionState.goto_pc_of_ne h_eq).trans h_pc')
  case inside =>
    intro c' t' w rest' h_pc'
    by_cases h_eq : c' = c
    · rw [h_eq, SectionState.goto_pc_self] at h_pc'
      exact absurd h_pc' (by simp)
    · rw [SectionState.goto_pc_of_ne h_eq] at h_pc'
      have h_inside := hs.inside c' t' w rest' h_pc'
      have h_same : ∀ r, r ∈ S.locks t' → m r = ((S.work t).run m).2 r := by
        intro r h_r
        refine ((S.within t).run_of_not fun h_mem => ?_).symm
        exact h_eq (h_lock.apart h_pc' h_pc h_r h_mem)
      obtain ⟨h_result, h_store⟩ := (S.within t').run_congr h_same
      exact ⟨h_inside.1.trans h_result, fun r h_r => (h_inside.2 r h_r).trans (h_store r h_r)⟩

theorem SerialInv.step (hs : S.SerialInv init m s) (h_lock : S.LockInv s) (h : S.Effect c s s') :
    ∃ m', S.SerialInv init m' s' := by
  have h_holder : ∀ r owner, S.SerialInv init m (s.setHolder r owner) := fun _ _ =>
    ⟨hs.serial, hs.outside, hs.inside⟩
  cases h with
  | begin h_pc =>
      exact ⟨m, hs.goto (fun t w rest h => absurd (h_pc.symm.trans h) (by simp)) (by simp)⟩
  | take h_pc _ =>
      exact ⟨m, (h_holder _ _).goto (fun t w rest h => absurd (h_pc.symm.trans h) (by simp))
        (by simp)⟩
  | enter h_pc => exact ⟨m, hs.enter h_lock h_pc⟩
  | access h_pc => exact ⟨m, hs.access h_lock h_pc⟩
  | finish h_pc => exact ⟨_, hs.finish h_lock h_pc⟩
  | drop h_pc =>
      exact ⟨m, (h_holder _ _).goto (fun t w rest h => absurd (h_pc.symm.trans h) (by simp))
        (by simp)⟩
  | leave h_pc =>
      exact ⟨m, hs.goto (fun t w rest h => absurd (h_pc.symm.trans h) (by simp)) (by simp)⟩

-- ============================================================================
-- Runs
-- ============================================================================

/-- The transactions of a thread are done in its order. -/
theorem Effect.order (h : S.Effect c s s') (c' : C) :
    ofThread s'.returned c' ++ (s'.pc c').ahead = ofThread s.returned c' ++ (s.pc c').ahead := by
  by_cases h_c : c' = c
  · subst h_c
    cases h with
    | finish h_pc =>
        rw [SectionState.goto_pc_self, h_pc]
        simp [SectionState.goto, SectionState.note, ofThread, SectionPc.ahead]
    | begin h_pc | take h_pc _ | enter h_pc | access h_pc | drop h_pc | leave h_pc =>
        rw [SectionState.goto_pc_self, h_pc]
        rfl
  · have h_pc : s'.pc c' = s.pc c' := by
      cases h <;> exact SectionState.goto_pc_of_ne h_c
    rw [h_pc]
    cases h with
    | finish _ => simp [SectionState.goto, SectionState.note, ofThread, Ne.symm h_c]
    | begin _ | take _ _ | enter _ | access _ | drop _ | leave _ => rfl

variable (S) in
/-- The invariant of the runs. -/
structure Inv (init : R → V) (program : C → List Txn) (s : SectionState C Txn R V E A) : Prop where
  lock : S.LockInv s
  serial : ∃ m, S.SerialInv init m s
  order : ∀ c, ofThread s.returned c ++ (s.pc c).ahead = program c
  distinct : ∀ e ∈ s.returned, (S.locks e.txn).Nodup

theorem inv_init : S.Inv init program (S.machine init program).init where
  lock :=
    { holders := by simp [machine, held]
      nodup := fun _ => List.nodup_nil
      ok := fun _ => trivial }
  serial := ⟨init, rfl, fun _ _ => rfl, fun _ _ _ _ h => absurd h (by simp [machine])⟩
  order := fun _ => rfl
  distinct := fun _ h => absurd h List.not_mem_nil

theorem Inv.step (hs : S.Inv init program s) (h : S.Effect c s s') : S.Inv init program s' where
  lock := hs.lock.step h
  serial := by
    obtain ⟨m, h_m⟩ := hs.serial
    exact h_m.step hs.lock h
  order := fun c' => (h.order c').trans (hs.order c')
  distinct := by
    cases h with
    | @finish t result rest h_pc =>
        have h_nodup := hs.lock.nodup c
        rw [h_pc] at h_nodup
        intro e h_e
        rcases List.mem_append.mp h_e with h_e | h_e
        · exact hs.distinct e h_e
        · rw [List.mem_singleton.mp h_e]
          exact h_nodup
    | begin _ | take _ _ | enter _ | access _ | drop _ | leave _ => exact hs.distinct

theorem inv_of_reachable (h : (S.machine init program).Reachable s) : S.Inv init program s :=
  h.invariant inv_init fun _ _ _ hs h_step => hs.step (step_effect h_step)

/-- Every run of transactions that access only what they have locked is one of the
    transactions one after the other. -/
theorem serialized_of_reachable (h : (S.machine init program).Reachable s) :
    S.Serialized init program s := by
  have hs := inv_of_reachable h
  obtain ⟨m, h_m⟩ := hs.serial
  refine ⟨⟨m, h_m.serial, fun r h_r => h_m.outside r fun c t w rest h_pc h_mem => ?_⟩,
    hs.order, hs.distinct⟩
  have h_holder := (hs.lock.holders r c).mpr (by rw [h_pc]; exact h_mem)
  exact absurd (h_r.symm.trans h_holder) (by simp)

end Sections
end Lib
