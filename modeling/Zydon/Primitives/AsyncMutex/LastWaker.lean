/-
  Zydon.Primitives.AsyncMutex.LastWaker

  The waker that an unlock takes from the node of a lock future, against the
  wakers that the future has been polled with, over every interleaving.

  `PollInv` follows each future through its polls: one task at a time is in its
  `poll`, and a poll that finds it registered leaves its waker alone.
-/

import Zydon.Lib.History
import Zydon.Primitives.AsyncMutex.Progress
import Zydon.Primitives.WaitQueue.Polls

namespace Zydon
namespace AsyncMutex

open Lib WaitQueue

variable {Task Fut Waker : Type*}

-- ============================================================================
-- Polls of lock futures
-- ============================================================================

/-- The future `f`, with its node. -/
def Mutex.view (m : Mutex Fut Waker) (f : Fut) : View Waker where
  status := (m.futures f).status
  registered := (m.futures f).registered
  linked := (m.waiters.nodes f).linked
  waker := (m.waiters.nodes f).waker

/-- The future that a task is polling. -/
def Pc.polled : Pc Fut → Option Fut
  | .pollStore f | .pollEnqueue f | .pollLenAdd f | .boostLoad f | .boostExchange f _
  | .pollRetry f | .pollRemove f | .pollLenSub f => some f
  | .idle | .unlockIsEmpty | .unlockSwap | .unlockStore | .wakeOne | .wakeLenSub _ _
  | .wakeCall _ | .dropLenSub _ => none

/-- What a task knows of the future that it is polling. -/
def Stage (x : View Waker) (polls : List Waker) : Pc Fut → Prop
  | .pollStore _ | .pollEnqueue _ => x.linked = false ∧ x.waker = polls.head?
  | .boostLoad _ | .boostExchange _ _ | .pollRetry _ => x.registered = true
  | _ => True

section Model

variable [DecidableEq Task] [DecidableEq Fut]

/-- The wakers that each future has been polled with. -/
def notePoll (_ : Threads Task (Mutex Fut Waker) (Pc Fut)) (l : Task × Action Fut Waker)
    (_ : Threads Task (Mutex Fut Waker) (Pc Fut)) (polls : Fut → List Waker) : Fut → List Waker :=
  match l.2 with
  | .poll f waker => Function.update polls f (polls f ++ [waker])
  | _ => polls

/-- The tasks that use one mutex, with the polls of its futures. -/
def polledMachine (Task Fut Waker : Type*) [DecidableEq Task] [DecidableEq Fut] :
    Machine (Recorded (Threads Task (Mutex Fut Waker) (Pc Fut)) (Fut → List Waker))
      (Task × Action Fut Waker) :=
  (machine Task Fut Waker).recorded notePoll fun _ => []

/-- An unlock that dequeues a node takes the right waker from it. -/
def WakesLast (s : Recorded (Threads Task (Mutex Fut Waker) (Pc Fut)) (Fut → List Waker))
    (l : Task × Action Fut Waker) : Prop :=
  s.state.pc l.1 = .wakeOne → l.2 = .run →
    ∀ f waker, s.state.shared.waiters.wakeOneSection.1 = some (f, waker) →
      Latest (s.record f) waker (s.state.shared.futures f).status

/-- When an unlock dequeues a node, the first poll of its future had the waker of
    the last. -/
def SameWaker (s : Recorded (Threads Task (Mutex Fut Waker) (Pc Fut)) (Fut → List Waker))
    (l : Task × Action Fut Waker) : Prop :=
  s.state.pc l.1 = .wakeOne → l.2 = .run →
    ∀ f, s.state.shared.waiters.head = some f →
      Latest (s.record f) (s.record f).head? (s.state.shared.futures f).status

end Model

-- ============================================================================
-- The invariant
-- ============================================================================

/-- The invariant of the polls. -/
structure PollInv (s : Threads Task (Mutex Fut Waker) (Pc Fut)) (polls : Fut → List Waker) :
    Prop where
  rep : ∃ l, Rep s.shared.waiters l
  priorities : NoPriorities s.shared.waiters
  known : ∀ f, Known (s.shared.view f) (polls f)
  polling : ∀ t f, (s.pc t).polled = some f →
    (s.shared.futures f).status = .polling ∧ polls f ≠ []
  stage : ∀ t f, (s.pc t).polled = some f → Stage (s.shared.view f) (polls f) (s.pc t)
  alone : ∀ t u f, (s.pc t).polled = some f → (s.pc u).polled = some f → t = u

variable {s : Threads Task (Mutex Fut Waker) (Pc Fut)} {polls polls' : Fut → List Waker}
  {m m' : Mutex Fut Waker} {t u : Task} {f : Fut} {p' : Pc Fut} {x : View Waker} {ps : List Waker}

theorem pollInv_init : PollInv { shared := (new : Mutex Fut Waker), pc := fun _ : Task => .idle }
    fun _ => [] where
  rep := ⟨[], rep_new⟩
  priorities := NoPriorities.new
  known := fun _ => known_new
  polling := fun _ _ h => absurd h (by simp [Pc.polled])
  stage := fun _ _ h => absurd h (by simp [Pc.polled])
  alone := fun _ _ _ h => absurd h (by simp [Pc.polled])

/-- A future that is polled by one task is polled by no other. -/
theorem PollInv.not_polled (hs : PollInv s polls) (h : (s.pc t).polled = some f) (h_u : u ≠ t) :
    (s.pc u).polled ≠ some f := fun h_polled => h_u (hs.alone u t f h_polled h)

/-- A future that may be polled, or dropped, is polled by nobody. -/
theorem PollInv.nobody (hs : PollInv s polls) (h : (s.shared.futures f).status ≠ .polling)
    (u : Task) : (s.pc u).polled ≠ some f := fun h_polled => h (hs.polling u f h_polled).1

variable [DecidableEq Task]

/-- A step of `t` that changes no future. -/
theorem PollInv.same (hs : PollInv s polls) (h_rep : ∀ l, Rep s.shared.waiters l → Rep m'.waiters l)
    (h_priorities : NoPriorities m'.waiters) (h_view : m'.view = s.shared.view)
    (h_stage : ∀ f, p'.polled = some f → (s.pc t).polled = some f ∧
      (Stage (s.shared.view f) (polls f) (s.pc t) → Stage (s.shared.view f) (polls f) p')) :
    PollInv { shared := m', pc := Function.update s.pc t p' } polls := by
  have h_old : ∀ u f, (Function.update s.pc t p' u).polled = some f → (s.pc u).polled = some f := by
    intro u f h_polled
    by_cases h_u : u = t
    · subst h_u
      rw [Function.update_self] at h_polled
      exact (h_stage f h_polled).1
    · rwa [Function.update_of_ne h_u] at h_polled
  constructor
  case rep => exact hs.rep.imp fun l h_l => h_rep l h_l
  case priorities => exact h_priorities
  case known =>
    intro g
    show Known (m'.view g) (polls g)
    rw [h_view]
    exact hs.known g
  case polling =>
    intro u g h_polled
    have h_status := congrArg View.status (congrFun h_view g)
    exact ⟨h_status.trans (hs.polling u g (h_old u g h_polled)).1,
      (hs.polling u g (h_old u g h_polled)).2⟩
  case stage =>
    intro u g h_polled
    change (Function.update s.pc t p' u).polled = some g at h_polled
    show Stage (m'.view g) (polls g) (Function.update s.pc t p' u)
    rw [h_view]
    by_cases h_u : u = t
    · subst h_u
      rw [Function.update_self] at h_polled ⊢
      exact (h_stage g h_polled).2 (hs.stage u g (h_stage g h_polled).1)
    · rw [Function.update_of_ne h_u] at h_polled ⊢
      exact hs.stage u g h_polled
  case alone =>
    exact fun u v g h_polled h_polled' => hs.alone u v g (h_old u g h_polled) (h_old v g h_polled')

/-- A step after which `t` is in no poll, and that changes no future. -/
theorem PollInv.rest (hs : PollInv s polls) (h_rep : ∀ l, Rep s.shared.waiters l → Rep m'.waiters l)
    (h_priorities : NoPriorities m'.waiters) (h_view : m'.view = s.shared.view)
    (h_p : p'.polled = none) :
    PollInv { shared := m', pc := Function.update s.pc t p' } polls :=
  hs.same h_rep h_priorities h_view fun _ h_f => absurd (h_p.symm.trans h_f) (by simp)

variable [DecidableEq Fut]

/-- A step of `t` that changes one future. -/
theorem PollInv.change (hs : PollInv s polls) (h_rep : ∃ l, Rep m'.waiters l)
    (h_priorities : NoPriorities m'.waiters)
    (h_view : m'.view = Function.update s.shared.view f x)
    (h_polls : polls' = Function.update polls f ps) (h_known : Known x ps)
    (h_stage : ∀ g, p'.polled = some g → g = f ∧ x.status = .polling ∧ ps ≠ [] ∧ Stage x ps p')
    (h_others : ∀ u, u ≠ t → (s.pc u).polled = some f →
      p'.polled = none ∧ x.status = .polling ∧ ps ≠ [] ∧ Stage x ps (s.pc u)) :
    PollInv { shared := m', pc := Function.update s.pc t p' } polls' := by
  have h_at : m'.view f = x := by rw [h_view, Function.update_self]
  have h_away : ∀ g, g ≠ f → m'.view g = s.shared.view g := fun g h_g => by
    rw [h_view, Function.update_of_ne h_g]
  have h_polls_at : polls' f = ps := by rw [h_polls, Function.update_self]
  have h_polls_away : ∀ g, g ≠ f → polls' g = polls g := fun g h_g => by
    rw [h_polls, Function.update_of_ne h_g]
  -- what each task knows after the step
  have h_knows : ∀ u g, (Function.update s.pc t p' u).polled = some g →
      (m'.view g).status = .polling ∧ polls' g ≠ [] ∧
        Stage (m'.view g) (polls' g) (Function.update s.pc t p' u) := by
    intro u g h_polled
    by_cases h_u : u = t
    · subst h_u
      rw [Function.update_self] at h_polled ⊢
      obtain ⟨rfl, h_status, h_ne, h_new⟩ := h_stage g h_polled
      rw [h_at, h_polls_at]
      exact ⟨h_status, h_ne, h_new⟩
    · rw [Function.update_of_ne h_u] at h_polled ⊢
      by_cases h_g : g = f
      · subst h_g
        obtain ⟨-, h_status, h_ne, h_new⟩ := h_others u h_u h_polled
        rw [h_at, h_polls_at]
        exact ⟨h_status, h_ne, h_new⟩
      · rw [h_away g h_g, h_polls_away g h_g]
        exact ⟨(hs.polling u g h_polled).1, (hs.polling u g h_polled).2, hs.stage u g h_polled⟩
  constructor
  case rep => exact h_rep
  case priorities => exact h_priorities
  case known =>
    intro g
    by_cases h_g : g = f
    · subst h_g
      show Known (m'.view g) (polls' g)
      rw [h_at, h_polls_at]
      exact h_known
    · show Known (m'.view g) (polls' g)
      rw [h_away g h_g, h_polls_away g h_g]
      exact hs.known g
  case polling => exact fun u g h_polled => ⟨(h_knows u g h_polled).1, (h_knows u g h_polled).2.1⟩
  case stage => exact fun u g h_polled => (h_knows u g h_polled).2.2
  case alone =>
    intro u v g h_polled h_polled'
    have h_new : ∀ v, v ≠ t → p'.polled = some g → (s.pc v).polled ≠ some g := by
      intro v h_v h_p h_polled
      obtain ⟨rfl, -⟩ := h_stage g h_p
      exact absurd (h_p.symm.trans (h_others v h_v h_polled).1) (by simp)
    simp only [Function.update_apply] at h_polled h_polled'
    split at h_polled <;> split at h_polled'
    · next h_u h_v => rw [h_u, h_v]
    · next h_u h_v => exact absurd h_polled' (h_new v h_v h_polled)
    · next h_u h_v => exact absurd h_polled (h_new u h_u h_polled')
    · exact hs.alone u v g h_polled h_polled'

-- ============================================================================
-- The steps
-- ============================================================================

theorem view_setFuture (m : Mutex Fut Waker) (f : Fut) (g : LockFuture → LockFuture) :
    (m.setFuture f g).view = Function.update m.view f
      { m.view f with
        status := (g (m.futures f)).status
        registered := (g (m.futures f)).registered } := by
  refine Function.eq_update_iff.mpr ⟨?_, fun h h_ne => ?_⟩
  · simp [Mutex.view, Mutex.setFuture]
  · simp [Mutex.view, Mutex.setFuture, h_ne]

theorem view_ready (m : Mutex Fut Waker) (f : Fut) :
    (m.ready f).view = Function.update m.view f { m.view f with status := .ready } :=
  view_setFuture m f fun x => { x with status := .ready }

/-- The start of a poll. -/
theorem PollInv.pollStart (hs : PollInv s polls) {waker : Waker}
    (h_status : (s.shared.futures f).status = .fresh ∨ (s.shared.futures f).status = .pending)
    (h_priorities : NoPriorities m'.waiters) (h : pollStart s.shared f waker = (m', p')) :
    PollInv { shared := m', pc := Function.update s.pc t p' }
      (Function.update polls f (polls f ++ [waker])) := by
  have h_known := hs.known f
  have h_nobody : ∀ u, (s.pc u).polled ≠ some f := by
    apply hs.nobody
    rcases h_status with h | h <;> rw [h] <;> decide
  simp only [AsyncMutex.pollStart] at h
  split at h
  · cases h
    refine hs.change (x := { s.shared.view f with status := .ready }) hs.rep h_priorities
      (view_ready _ f) rfl ?_ (by simp [Pc.polled]) fun u _ h_u => absurd h_u (h_nobody u)
    exact known_of_status (by simp) (by simp)
      fun h_linked => h_known.waker_eq_append h_status h_linked waker
  · split at h
    · next h_registered =>
        cases h
        replace h_registered : (s.shared.futures f).registered = true := by
          simpa [Mutex.setFuture] using h_registered
        refine hs.change hs.rep h_priorities (view_setFuture _ f _) rfl ?_ ?_
          fun u _ h_u => absurd h_u (h_nobody u)
        · exact known_of_status (by simp) (by simp)
            fun h_linked => h_known.waker_eq_append h_status h_linked waker
        · intro g h_g
          exact ⟨(Option.some.inj h_g).symm, rfl, by simp, h_registered⟩
    · next h_not =>
        cases h
        replace h_not : (s.shared.futures f).registered = false := by
          simpa [Mutex.setFuture] using h_not
        obtain ⟨h_none, h_free⟩ := h_known.of_not_registered h_status h_not
        refine hs.change (x := ⟨.polling, false, false, some waker⟩) ?_ h_priorities ?_ rfl
          (known_of_status (by simp) (by simp) (by simp)) ?_
          fun u _ h_u => absurd h_u (h_nobody u)
        · obtain ⟨l, h_l⟩ := hs.rep
          exact ⟨l, (h_l.setWaker f waker).setPriority f 0⟩
        · refine Function.eq_update_iff.mpr ⟨?_, fun g h_g => ?_⟩
          · have h_linked : (s.shared.waiters.nodes f).linked = false := h_free
            simp [Mutex.view, Mutex.setFuture, WaitQueue.setWaker, WaitQueue.setPriority,
              modify_nodes, h_not, h_linked]
          · simp [Mutex.view, Mutex.setFuture, WaitQueue.setWaker, WaitQueue.setPriority,
              modify_nodes, h_g]
        · intro g h_g
          exact ⟨(Option.some.inj h_g).symm, rfl, by simp, rfl, by rw [h_none]; rfl⟩

/-- The drop of a future. -/
theorem PollInv.dropFuture (hs : PollInv s polls)
    (h_status : (s.shared.futures f).status ≠ .polling)
    (h_priorities : NoPriorities m'.waiters) (h : dropFuture s.shared f = (m', p')) :
    PollInv { shared := m', pc := Function.update s.pc t p' } polls := by
  have h_nobody := hs.nobody h_status
  obtain ⟨l, h_l⟩ := hs.rep
  simp only [AsyncMutex.dropFuture] at h
  split at h
  · next h_registered =>
      cases h
      refine hs.change (x := ⟨.dropped, true, false, (s.shared.waiters.nodes f).waker⟩)
        ⟨_, h_l.removeSection f⟩ h_priorities ?_ (Function.update_eq_self f polls).symm
        (known_of_status (by simp) (by simp) (by simp)) ?_ fun u _ h_u => absurd h_u (h_nobody u)
      · refine Function.eq_update_iff.mpr ⟨?_, fun g h_g => ?_⟩
        · simp [Mutex.view, Mutex.setFuture, removeSection_linked, removeSection_waker,
            h_registered]
        · simp [Mutex.view, Mutex.setFuture, removeSection_linked, removeSection_waker, h_g]
      · intro g h_g
        split at h_g <;> exact absurd h_g (by simp [Pc.polled])
  · cases h
    refine hs.change (x := { s.shared.view f with status := .dropped }) ⟨l, h_l⟩ h_priorities
      (view_setFuture _ f _) (Function.update_eq_self f polls).symm
      (known_of_status (by simp) (by simp) (hs.known f).waker_eq) (by simp [Pc.polled])
      fun u _ h_u => absurd h_u (h_nobody u)

/-- The start of a call. -/
theorem PollInv.startCall (hs : PollInv s polls) {a : Action Fut Waker}
    (h : startCall s.shared a = some (m', p')) :
    PollInv { shared := m', pc := Function.update s.pc t p' } (notePoll s (t, a) s polls) := by
  have h_priorities := startCall_noPriorities hs.priorities h
  cases a with
  | tryLock =>
      cases h
      have h_keep : (tryLock s.shared).waiters = s.shared.waiters ∧
          (tryLock s.shared).futures = s.shared.futures := by
        rw [tryLock]
        split <;> exact ⟨rfl, rfl⟩
      refine hs.rest (fun l h_l => h_keep.1 ▸ h_l) h_priorities ?_ rfl
      funext f
      simp only [Mutex.view, h_keep]
  | poll f waker =>
      simp only [AsyncMutex.startCall] at h
      split at h
      · next h_status => exact hs.pollStart h_status h_priorities (Option.some.inj h)
      · exact absurd h (by simp)
  | dropGuard =>
      simp only [AsyncMutex.startCall] at h
      split at h <;> cases h
      exact hs.rest (fun l h_l => h_l) h_priorities rfl rfl
  | dropFuture f =>
      simp only [AsyncMutex.startCall] at h
      split at h
      · next h_fresh =>
          exact hs.dropFuture (by rw [h_fresh]; decide) h_priorities (Option.some.inj h)
      · next h_pending =>
          exact hs.dropFuture (by rw [h_pending]; decide) h_priorities (Option.some.inj h)
      · next h_ready =>
          exact hs.dropFuture (by rw [h_ready]; decide) h_priorities (Option.some.inj h)
      · exact absurd h (by simp)
      · exact absurd h (by simp)
  | run | spurious => exact absurd h (by simp [AsyncMutex.startCall])

/-- A step inside the poll of `f`, which goes on. -/
theorem PollInv.goOn (hs : PollInv s polls) (h_pc : (s.pc t).polled = some f)
    (h_p : p'.polled = some f) (h_rep : ∃ l, Rep m'.waiters l)
    (h_priorities : NoPriorities m'.waiters) (h_status : x.status = (s.shared.view f).status)
    (h_waker : x.linked = true → x.waker = (polls f).head?) (h_stage : Stage x (polls f) p')
    (h_view : m'.view = Function.update s.shared.view f x) :
    PollInv { shared := m', pc := Function.update s.pc t p' } polls := by
  obtain ⟨h_polling, h_ne⟩ := hs.polling t f h_pc
  replace h_status : x.status = .polling := h_status.trans h_polling
  have h_known : Known x (polls f) :=
    known_of_status (by simp [h_status]) (by simp [h_status]) h_waker
  refine hs.change h_rep h_priorities h_view (Function.update_eq_self f polls).symm h_known ?_
    fun u h_u h_polled => absurd h_polled (hs.not_polled h_pc h_u)
  intro g h_g
  exact ⟨Option.some.inj (h_g.symm.trans h_p), h_status, h_ne, h_stage⟩

/-- The end of a poll that returns a guard. -/
theorem PollInv.ready (hs : PollInv s polls) (h_pc : (s.pc t).polled = some f)
    (h_rep : ∃ l, Rep m'.waiters l) (h_priorities : NoPriorities m'.waiters)
    (h_status : x.status = .ready) (h_waker : x.linked = true → x.waker = (polls f).head?)
    (h_view : m'.view = Function.update s.shared.view f x) :
    PollInv { shared := m', pc := Function.update s.pc t .idle } polls := by
  have h_known : Known x (polls f) :=
    known_of_status (by simp [h_status]) (by simp [h_status]) h_waker
  exact hs.change h_rep h_priorities h_view (Function.update_eq_self f polls).symm h_known
    (by simp [Pc.polled]) fun u h_u h_polled => absurd h_polled (hs.not_polled h_pc h_u)

/-- The critical section of `enqueue`. -/
theorem PollInv.pollEnqueue (hs : PollInv s polls) (h_pc : s.pc t = .pollEnqueue f)
    (h : AsyncMutex.runCall s.shared (.pollEnqueue f) = some (m', p')) :
    PollInv { shared := m', pc := Function.update s.pc t p' } polls := by
  have h_priorities := runCall_noPriorities hs.priorities h
  have h_polled : (s.pc t).polled = some f := by rw [h_pc]; rfl
  obtain ⟨h_free, h_waker⟩ : (s.shared.view f).linked = false ∧
      (s.shared.view f).waker = (polls f).head? := by
    have h_stage := hs.stage t f h_polled
    rwa [h_pc] at h_stage
  obtain ⟨l, h_l⟩ := hs.rep
  simp only [AsyncMutex.runCall, (hs.priorities.enqueueSection 0 f).1] at h
  cases h
  refine hs.goOn (x := { s.shared.view f with linked := true }) h_polled rfl
    ⟨_, h_l.link h_free⟩ h_priorities rfl (fun _ => h_waker) trivial ?_
  refine Function.eq_update_iff.mpr ⟨?_, fun g h_g => ?_⟩
  · simp [Mutex.view, link_linked h_l h_free]
  · simp [Mutex.view, link_linked h_l h_free, h_g]

/-- The exchange after enqueuing. -/
theorem PollInv.pollRetry (hs : PollInv s polls) (h_pc : s.pc t = .pollRetry f)
    (h : AsyncMutex.runCall s.shared (.pollRetry f) = some (m', p')) :
    PollInv { shared := m', pc := Function.update s.pc t p' } polls := by
  have h_priorities := runCall_noPriorities hs.priorities h
  have h_polled : (s.pc t).polled = some f := by rw [h_pc]; rfl
  have h_registered : (s.shared.futures f).registered = true := by
    have h_stage := hs.stage t f h_polled
    rwa [h_pc] at h_stage
  simp only [AsyncMutex.runCall, AsyncMutex.pollRetry, h_registered, if_true] at h
  split at h
  · cases h
    refine hs.same (fun l h_l => h_l) h_priorities rfl fun g h_g => ?_
    rw [h_pc]
    exact ⟨h_g, fun _ => trivial⟩
  · cases h
    exact hs.change (x := { s.shared.view f with status := .pending }) hs.rep h_priorities
      (view_setFuture _ f _) (Function.update_eq_self f polls).symm
      ⟨(hs.known f).waker_eq, fun h => absurd h (by simp),
        fun _ => ⟨(hs.polling t f h_polled).2, h_registered⟩⟩ (by simp [Pc.polled])
      fun u h_u h_polled' => absurd h_polled' (hs.not_polled h_polled h_u)

/-- The critical section of `remove`, in a poll that has got the lock. -/
theorem PollInv.pollRemove (hs : PollInv s polls) (h_pc : s.pc t = .pollRemove f)
    (h : AsyncMutex.runCall s.shared (.pollRemove f) = some (m', p')) :
    PollInv { shared := m', pc := Function.update s.pc t p' } polls := by
  have h_priorities := runCall_noPriorities hs.priorities h
  have h_polled : (s.pc t).polled = some f := by rw [h_pc]; rfl
  obtain ⟨l, h_l⟩ := hs.rep
  have h_rep := h_l.removeSection f
  simp only [AsyncMutex.runCall] at h
  split at h
  · cases h
    refine hs.goOn (x := { s.shared.view f with linked := false }) h_polled rfl ⟨_, h_rep⟩
      h_priorities rfl (by simp) trivial ?_
    refine Function.eq_update_iff.mpr ⟨?_, fun g h_g => ?_⟩
    · simp [Mutex.view, removeSection_linked, removeSection_waker]
    · simp [Mutex.view, removeSection_linked, removeSection_waker, h_g]
  · cases h
    refine hs.ready (x := ⟨.ready, false, false, (s.shared.waiters.nodes f).waker⟩) h_polled
      ⟨_, h_rep⟩ h_priorities rfl (by simp) ?_
    refine Function.eq_update_iff.mpr ⟨?_, fun g h_g => ?_⟩
    · simp [Mutex.view, Mutex.ready, Mutex.setFuture, removeSection_linked, removeSection_waker]
    · simp [Mutex.view, Mutex.ready, Mutex.setFuture, removeSection_linked, removeSection_waker,
        h_g]

/-- The critical section of `wake_one`. -/
theorem PollInv.wakeOne (hs : PollInv s polls)
    (h : AsyncMutex.runCall s.shared .wakeOne = some (m', p')) :
    PollInv { shared := m', pc := Function.update s.pc t p' } polls := by
  have h_priorities := runCall_noPriorities hs.priorities h
  obtain ⟨l, h_l⟩ := hs.rep
  simp only [AsyncMutex.runCall] at h
  cases h_head : s.shared.waiters.head with
  | none =>
      have h_none : s.shared.waiters.wakeOneSection = (none, s.shared.waiters) := by
        simp only [wakeOneSection, h_head]
      rw [h_none] at h
      cases h
      exact hs.rest (fun l h_l => h_l) h_priorities rfl rfl
  | some f =>
      obtain ⟨q', h_section, h_linked, h_rep, h_nodes⟩ := wakeOneSection_head h_l h_head
      rw [h_section] at h
      cases h
      refine hs.change (x := { s.shared.view f with linked := false, waker := none })
        ⟨_, h_rep⟩ h_priorities ?_ (Function.update_eq_self f polls).symm
        ⟨fun h => absurd h (by simp), fun h => ?_, (hs.known f).of_pending⟩ (by simp [Pc.polled])
        fun u _ h_polled => ?_
      · refine Function.eq_update_iff.mpr ⟨?_, fun g h_g => ?_⟩
        · simp [Mutex.view, h_nodes f]
        · simp [Mutex.view, h_nodes g, h_g]
      · exact absurd (h_linked.symm.trans ((hs.known f).of_fresh h).2.2) (by simp)
      · -- a node that is still to be enqueued is not dequeued
        obtain ⟨h_status, h_ne⟩ := hs.polling u f h_polled
        have h_stage := hs.stage u f h_polled
        refine ⟨rfl, h_status, h_ne, ?_⟩
        cases h_u : s.pc u with
        | pollStore g | pollEnqueue g =>
            rw [h_u] at h_polled h_stage
            exact absurd (h_linked.symm.trans h_stage.1) (by simp)
        | _ =>
            rw [h_u] at h_stage
            exact h_stage

/-- One operation inside a call. -/
theorem PollInv.runCall (hs : PollInv s polls) (h : runCall s.shared (s.pc t) = some (m', p')) :
    PollInv { shared := m', pc := Function.update s.pc t p' } polls := by
  have h_priorities := runCall_noPriorities hs.priorities h
  obtain ⟨l, h_l⟩ := hs.rep
  cases h_pc : s.pc t with
  | idle =>
      rw [h_pc] at h
      exact absurd h (by simp [AsyncMutex.runCall])
  | pollStore f =>
      rw [h_pc] at h
      cases h
      refine hs.same (fun l h_l => h_l) h_priorities rfl fun g h_g => ?_
      rw [h_pc]
      exact ⟨h_g, id⟩
  | pollEnqueue f => exact hs.pollEnqueue h_pc (h_pc ▸ h)
  | pollLenAdd f =>
      rw [h_pc] at h
      cases h
      exact hs.goOn (x := { s.shared.view f with registered := true }) (by rw [h_pc]; rfl) rfl
        ⟨l, h_l.lenAdd⟩ h_priorities rfl (hs.known f).waker_eq rfl (view_setFuture _ f _)
  | boostLoad f | boostExchange f current =>
      rw [h_pc] at h
      simp only [AsyncMutex.runCall] at h
      split at h <;> cases h
      all_goals
        refine hs.same (fun l h_l => h_l) h_priorities rfl fun g h_g => ?_
        rw [h_pc]
        exact ⟨h_g, id⟩
  | pollRetry f => exact hs.pollRetry h_pc (h_pc ▸ h)
  | pollRemove f => exact hs.pollRemove h_pc (h_pc ▸ h)
  | pollLenSub f =>
      rw [h_pc] at h
      cases h
      refine hs.ready (x := { s.shared.view f with status := .ready, registered := false })
        (by rw [h_pc]; rfl) ⟨l, h_l.lenSub⟩ h_priorities rfl (hs.known f).waker_eq ?_
      refine Function.eq_update_iff.mpr ⟨?_, fun g h_g => ?_⟩
      · simp [Mutex.view, Mutex.ready, Mutex.setFuture, WaitQueue.lenSub]
      · simp [Mutex.view, Mutex.ready, Mutex.setFuture, WaitQueue.lenSub, h_g]
  | unlockIsEmpty =>
      rw [h_pc] at h
      cases h
      refine hs.rest (fun l h_l => h_l) h_priorities rfl ?_
      split <;> rfl
  | unlockSwap | unlockStore =>
      rw [h_pc] at h
      cases h
      exact hs.rest (fun l h_l => h_l) h_priorities rfl rfl
  | wakeOne => exact hs.wakeOne (h_pc ▸ h)
  | wakeLenSub g hasWaker =>
      rw [h_pc] at h
      cases h
      refine hs.rest (fun l h_l => h_l.lenSub) h_priorities rfl ?_
      split <;> rfl
  | wakeCall g =>
      rw [h_pc] at h
      cases h
      refine hs.rest (fun l h_l => h_l) h_priorities ?_ rfl
      refine (view_setFuture s.shared g _).trans ?_
      exact Function.update_eq_self g s.shared.view
  | dropLenSub g =>
      rw [h_pc] at h
      cases h
      exact hs.rest (fun l h_l => h_l.lenSub) h_priorities rfl rfl

/-- Every step of a task keeps the invariant. -/
theorem PollInv.step (hs : PollInv s polls) {a : Action Fut Waker}
    (h : step s.shared (s.pc t) a = some (m', p')) :
    PollInv { shared := m', pc := Function.update s.pc t p' } (notePoll s (t, a) s polls) := by
  by_cases h_idle : s.pc t = .idle
  · rw [h_idle] at h
    exact hs.startCall h
  · by_cases h_run : a = .run
    · subst h_run
      have h_step : AsyncMutex.step s.shared (s.pc t) .run =
          AsyncMutex.runCall s.shared (s.pc t) := by
        cases h_pc : s.pc t <;> first | exact absurd h_pc h_idle | rfl
      exact hs.runCall (h_step ▸ h)
    · -- what is left is a spurious failure
      obtain ⟨f, current, rfl, h_pc, rfl, rfl⟩ : ∃ f current, a = .spurious ∧
          s.pc t = .boostExchange f current ∧ m' = s.shared ∧ p' = .boostLoad f := by
        cases h_pc : s.pc t <;> cases a <;> simp [AsyncMutex.step, h_pc] at h h_idle h_run
        exact ⟨_, _, rfl, rfl, h.1.symm, h.2.symm⟩
      refine hs.same (fun l h_l => h_l) hs.priorities rfl fun g h_g => ?_
      rw [h_pc]
      exact ⟨h_g, id⟩

-- ============================================================================
-- Runs
-- ============================================================================

theorem pollInv_of_reachable
    {s : Recorded (Threads Task (Mutex Fut Waker) (Pc Fut)) (Fut → List Waker)}
    (h : (polledMachine Task Fut Waker).Reachable s) : PollInv s.state s.record := by
  refine h.invariant (P := fun s => PollInv s.state s.record) pollInv_init ?_
  rintro s ⟨t, a⟩ s' hs h_step
  obtain ⟨h_machine, h_record⟩ := Machine.recorded_step_eq_some.mp h_step
  obtain ⟨m, p, h_task, h_state⟩ := ThreadProgram.interleave_step_eq_some h_machine
  have h_next := hs.step h_task
  rw [h_state, h_record]
  exact h_next

/-- An unlock takes the waker of the first poll. -/
theorem wakesLast_iff_sameWaker
    {s : Recorded (Threads Task (Mutex Fut Waker) (Pc Fut)) (Fut → List Waker)}
    (h : (polledMachine Task Fut Waker).Reachable s) (l : Task × Action Fut Waker) :
    WakesLast s l ↔ SameWaker s l := by
  have hs := pollInv_of_reachable h
  obtain ⟨line, h_rep⟩ := hs.rep
  have h_taken : ∀ f, s.state.shared.waiters.head = some f → ∃ q',
      s.state.shared.waiters.wakeOneSection = (some (f, (s.record f).head?), q') := by
    intro f h_head
    obtain ⟨q', h_section, h_linked, -⟩ := wakeOneSection_head h_rep h_head
    have h_waker : (s.state.shared.waiters.nodes f).waker = (s.record f).head? :=
      (hs.known f).waker_eq h_linked
    exact ⟨q', by rw [h_section, h_waker]⟩
  constructor
  · intro h_last h_pc h_run f h_head
    obtain ⟨q', h_section⟩ := h_taken f h_head
    exact h_last h_pc h_run f _ (by rw [h_section])
  · intro h_same h_pc h_run f waker h_dequeued
    cases h_head : s.state.shared.waiters.head with
    | none =>
        simp only [wakeOneSection, h_head] at h_dequeued
        exact absurd h_dequeued (by simp)
    | some g =>
        obtain ⟨q', h_section⟩ := h_taken g h_head
        rw [h_section] at h_dequeued
        obtain ⟨rfl, rfl⟩ := Prod.mk.inj (Option.some.inj h_dequeued)
        exact h_same h_pc h_run g h_head

end AsyncMutex
end Zydon
