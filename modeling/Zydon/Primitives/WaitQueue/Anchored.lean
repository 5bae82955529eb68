/-
  Zydon.Primitives.WaitQueue.Anchored

  The nodes that a wait queue holds raw pointers to, and the futures they are
  fields of.

  `enqueue` asks its caller to keep the node valid until it is dequeued.  `Waiters`
  is a queue with what has become of its futures and how far each task is in a
  `poll`; `Moored` says that a future is only dropped once its node is out of the
  queue, and `Waiters.Step` what a poll, a drop or a `wake_one` may do to keep it.
-/

import Zydon.Primitives.WaitQueue.Polls

namespace Zydon
namespace WaitQueue

variable {Task ι Waker : Type*}

-- ============================================================================
-- Pointers
-- ============================================================================

/-- The nodes that an operation can come to, by any pointers from the head or the
    tail. -/
inductive Reaches (q : WaitQueue ι Waker) : ι → Prop
  | head {i : ι} (h_head : q.head = some i) : Reaches q i
  | tail {i : ι} (h_tail : q.tail = some i) : Reaches q i
  | next {i j : ι} (h_i : Reaches q i) (h_next : (q.nodes i).next = some j) : Reaches q j
  | prev {i j : ι} (h_i : Reaches q i) (h_prev : (q.nodes i).prev = some j) : Reaches q j

variable {q q' : WaitQueue ι Waker} {l : List ι} {i j : ι}

theorem Rep.mem_of_reaches (hq : Rep q l) (h : q.Reaches i) : i ∈ l := by
  induction h with
  | head h_head => exact List.mem_of_head? (hq.head_eq ▸ h_head)
  | tail h_tail => exact List.mem_of_getLast? (hq.tail_eq ▸ h_tail)
  | next _ h_next ih =>
      obtain ⟨l₁, l₂, rfl⟩ := List.append_of_mem ih
      rw [hq.next_eq] at h_next
      exact List.mem_append_right _ (List.mem_cons_of_mem _ (List.mem_of_head? h_next))
  | prev _ h_prev ih =>
      obtain ⟨l₁, l₂, rfl⟩ := List.append_of_mem ih
      rw [hq.prev_eq] at h_prev
      exact List.mem_append_left _ (List.mem_of_getLast? h_prev)

variable [DecidableEq ι]

/-- What one operation does to the queue, with the future on whose node it is
    called. -/
inductive Operation (q : WaitQueue ι Waker) : Option ι → WaitQueue ι Waker → Prop
  | skip : Operation q none q
  | lenAdd : Operation q none q.lenAdd
  | lenSub : Operation q none q.lenSub
  | wakeOne : Operation q none q.wakeOneSection.2
  | setWaker (f : ι) (waker : Waker) : Operation q (some f) (q.setWaker f waker)
  | setPriority (f : ι) (waker : Waker) (priority : Int) :
      Operation q (some f) ((q.setWaker f waker).setPriority f priority)
  | enqueue (f : ι) : (q.nodes f).linked = false → Operation q (some f) (q.link f)
  | remove (f : ι) : Operation q (some f) (q.removeSection f).2

theorem wakeOneSection_nil (hq : Rep q []) : q.wakeOneSection = (none, q) := by
  simp only [wakeOneSection, hq.head_eq, List.head?_nil]

/-- The queue stays a list. -/
theorem Operation.rep {own : Option ι} (h : Operation q own q') (hq : Rep q l) :
    ∃ l', Rep q' l' := by
  cases h with
  | skip => exact ⟨l, hq⟩
  | lenAdd => exact ⟨l, hq.lenAdd⟩
  | lenSub => exact ⟨l, hq.lenSub⟩
  | wakeOne =>
      cases l with
      | nil => exact ⟨[], by rwa [wakeOneSection_nil hq]⟩
      | cons node l =>
          obtain ⟨_, h_section, -, h_rep, -⟩ := wakeOneSection_head hq hq.head_eq
          exact ⟨l, by rwa [h_section]⟩
  | setWaker f waker => exact ⟨l, hq.setWaker f waker⟩
  | setPriority f waker priority => exact ⟨l, (hq.setWaker f waker).setPriority f priority⟩
  | enqueue f h_free => exact ⟨_, hq.link h_free⟩
  | remove f => exact ⟨_, hq.removeSection f⟩

theorem modify_untouched {f : WaitNode ι Waker → WaitNode ι Waker} (h_ne : j ≠ i) :
    (q.modify i f).nodes j = q.nodes j := by
  rw [modify_nodes, if_neg h_ne]

/-- Unlinking a node of the list writes to it and to its neighbours. -/
theorem Rep.unlink_untouched (hq : Rep q l) (h_i : i ∈ l) (h_j : j ∉ l) :
    (q.unlink i).nodes j = q.nodes j := by
  have h_ne : j ≠ i := fun h_eq => h_j (h_eq ▸ h_i)
  have h_neighbour : ∀ k, (q.nodes i).prev = some k ∨ (q.nodes i).next = some k → j ≠ k := by
    rintro k h_k rfl
    obtain ⟨l₁, l₂, rfl⟩ := List.append_of_mem h_i
    rw [hq.prev_eq, hq.next_eq] at h_k
    rcases h_k with h_k | h_k
    · exact h_j (List.mem_append_left _ (List.mem_of_getLast? h_k))
    · exact h_j (List.mem_append_right _ (List.mem_cons_of_mem _ (List.mem_of_head? h_k)))
  simp only [WaitQueue.unlink]
  rw [modify_untouched h_ne]
  cases h_next : (q.nodes i).next <;> cases h_prev : (q.nodes i).prev <;> dsimp only
  case none.some k => exact modify_untouched (h_neighbour k (.inl h_prev))
  case some.none m => exact modify_untouched (h_neighbour m (.inr h_next))
  case some.some m k =>
    exact (modify_untouched (h_neighbour m (.inr h_next))).trans
      (modify_untouched (h_neighbour k (.inl h_prev)))

theorem Rep.link_untouched (hq : Rep q l) (h_i : j ≠ i) (h_j : j ∉ l) :
    (q.link i).nodes j = q.nodes j := by
  simp only [WaitQueue.link]
  cases h_tail : q.tail with
  | none =>
      dsimp only
      exact modify_untouched h_i
  | some last =>
      have h_last : j ≠ last := by
        rintro rfl
        exact h_j (List.mem_of_getLast? (hq.tail_eq ▸ h_tail))
      exact (modify_untouched h_last).trans (modify_untouched h_i)

/-- An operation writes to the node it is called on, and to linked nodes. -/
theorem Operation.untouched {own : Option ι} (h : Operation q own q') (hq : Rep q l)
    (h_own : own ≠ some j) (h_j : (q.nodes j).linked = false) : q'.nodes j = q.nodes j := by
  have h_out : j ∉ l := fun h_mem => absurd (h_j.symm.trans ((hq.linked_iff j).mpr h_mem)) (by simp)
  have h_ne : ∀ {f}, some f ≠ some j → j ≠ f := fun h_f h_eq => h_f (h_eq ▸ rfl)
  cases h with
  | skip | lenAdd | lenSub => rfl
  | wakeOne =>
      cases l with
      | nil => rw [wakeOneSection_nil hq]
      | cons node l =>
          have h_node : j ≠ node := List.ne_of_not_mem_cons h_out
          rw [hq.wakeOneSection_cons]
          dsimp only
          exact (modify_untouched h_node).trans (hq.unlink_untouched List.mem_cons_self h_out)
  | setWaker f waker => exact modify_untouched (h_ne h_own)
  | setPriority f waker priority =>
      exact (modify_untouched (h_ne h_own)).trans (modify_untouched (h_ne h_own))
  | enqueue f h_free => exact hq.link_untouched (h_ne h_own) h_out
  | remove f =>
      rw [WaitQueue.removeSection]
      split
      · next h_linked => exact hq.unlink_untouched ((hq.linked_iff f).mp h_linked) h_out
      · rfl

-- ============================================================================
-- Futures
-- ============================================================================

/-- How far a task is with the future that it polls. -/
inductive PollStage where
  /-- It has done nothing with the queue yet, or is done with it. -/
  | entered
  /-- It has written to the node, and is about to enqueue it. -/
  | preparing
  /-- It has enqueued the node, and is about to mark the future registered. -/
  | joining
  /-- It has found the future registered, or marked it. -/
  | settling
  /-- It has taken the node out of the queue. -/
  | leaving
  deriving DecidableEq, Repr

/-- What a task at this stage knows of its future. -/
def PollStage.Fits (x : View Waker) : PollStage → Prop
  | entered => x.linked = true → x.registered = true
  | preparing => x.linked = false ∧ x.registered = false ∧ x.waker.isSome
  | joining => True
  | settling => x.registered = true
  | leaving => x.linked = false

/-- What is known of a future that nobody polls. -/
def Rests (x : View Waker) : Prop :=
  match x.status with
  | .fresh => x.linked = false ∧ x.registered = false
  | .polling => True
  | .pending => x.registered = true
  | .ready => x.linked = true → x.registered = true
  | .dropped => x.linked = false

/-- A wait queue, with its futures and the tasks that poll them. -/
structure Waiters (Task ι Waker : Type*) where
  queue : WaitQueue ι Waker
  status : ι → FutureStatus
  registered : ι → Bool
  place : Task → Option (ι × PollStage)

namespace Waiters

/-- The future `f`, with its node. -/
def view (w : Waiters Task ι Waker) (f : ι) : View Waker where
  status := w.status f
  registered := w.registered f
  linked := (w.queue.nodes f).linked
  waker := (w.queue.nodes f).waker

/-- Some task is in `poll` of `f`. -/
def Held (w : Waiters Task ι Waker) (f : ι) : Prop := ∃ t stage, w.place t = some (f, stage)

/-- Queue, futures and tasks fit together. -/
structure Moored (w : Waiters Task ι Waker) : Prop where
  rep : ∃ l, Rep w.queue l
  rests : ∀ f, Rests (w.view f)
  placed : ∀ t f stage, w.place t = some (f, stage) →
    w.status f = .polling ∧ stage.Fits (w.view f)
  held : ∀ f, w.status f = .polling → w.Held f
  alone : ∀ t u f stage stage', w.place t = some (f, stage) → w.place u = some (f, stage') → t = u

/-- What a step may do. -/
inductive Step [DecidableEq Task] (w w' : Waiters Task ι Waker) : Prop
  /-- Of a task that uses the queue, but no future of it. -/
  | wake (h_queue : Operation w.queue none w'.queue) (h_status : w'.status = w.status)
      (h_registered : w'.registered = w.registered) (h_place : w'.place = w.place)
  /-- Of the task `t`, in `poll` of `f` or about to poll or drop it. -/
  | act (t : Task) (f : ι) (own : Option ι) (place : Option (ι × PollStage))
      (h_turn : (∃ stage, w.place t = some (f, stage)) ∨
        w.place t = none ∧ w.status f ≠ .polling ∧ w.status f ≠ .dropped)
      (h_queue : Operation w.queue own w'.queue) (h_own : own = none ∨ own = some f)
      (h_status : ∀ g, g ≠ f → w'.status g = w.status g)
      (h_registered : ∀ g, g ≠ f → w'.registered g = w.registered g)
      (h_place : w'.place = Function.update w.place t place) (h_rests : Rests (w'.view f))
      (h_now : (place = none ∧ w'.status f ≠ .polling ∧ w'.status f ≠ .fresh) ∨
        ∃ stage, place = some (f, stage) ∧ w'.status f = .polling ∧ stage.Fits (w'.view f))

variable {w w' : Waiters Task ι Waker} {f : ι}

/-- A node that is not linked is the same to all but its own future. -/
theorem view_eq {own : Option ι} (hw : w.Moored) (h_queue : Operation w.queue own w'.queue)
    (h_own : own ≠ some f) (h_status : w'.status f = w.status f)
    (h_registered : w'.registered f = w.registered f) (h_free : (w.view f).linked = false) :
    w'.view f = w.view f := by
  obtain ⟨l, h_l⟩ := hw.rep
  simp only [view, h_queue.untouched h_l h_own h_free, h_status, h_registered]

/-- What is known of a future outlives the operations on others. -/
theorem rests_of_operation {own : Option ι} (hw : w.Moored)
    (h_queue : Operation w.queue own w'.queue) (h_own : own ≠ some f)
    (h_status : w'.status f = w.status f) (h_registered : w'.registered f = w.registered f) :
    Rests (w'.view f) := by
  have h_rests := hw.rests f
  cases h_linked : (w.view f).linked with
  | false => rwa [view_eq hw h_queue h_own h_status h_registered h_linked]
  | true =>
      have h_same : (w'.view f).status = (w.view f).status := h_status
      have h_same' : (w'.view f).registered = (w.view f).registered := h_registered
      simp only [Rests, h_same, h_same'] at h_rests ⊢
      cases h : (w.view f).status <;> simp only [h, h_linked, reduceCtorEq] at h_rests ⊢
      case fresh => exact absurd h_rests.1 (by simp)
      case pending => exact h_rests
      case ready => exact fun _ => h_rests trivial

theorem fits_of_operation {own : Option ι} {stage : PollStage} (hw : w.Moored)
    (h_queue : Operation w.queue own w'.queue) (h_own : own ≠ some f)
    (h_status : w'.status f = w.status f) (h_registered : w'.registered f = w.registered f)
    (h_fits : stage.Fits (w.view f)) : stage.Fits (w'.view f) := by
  cases h_linked : (w.view f).linked with
  | false => rwa [view_eq hw h_queue h_own h_status h_registered h_linked]
  | true =>
      have h_same : (w'.view f).registered = (w.view f).registered := h_registered
      cases stage with
      | entered => exact fun _ => h_same.trans (h_fits h_linked)
      | preparing => exact absurd (h_linked.symm.trans h_fits.1) (by simp)
      | joining => trivial
      | settling => exact h_same.trans h_fits
      | leaving => exact absurd (h_linked.symm.trans h_fits) (by simp)

/-- Every step keeps queue, futures and tasks together. -/
theorem Moored.step [DecidableEq Task] (hw : w.Moored) (h : w.Step w') : w'.Moored := by
  obtain ⟨l, h_l⟩ := hw.rep
  cases h with
  | wake h_queue h_status h_registered h_place =>
      constructor
      case rep => exact h_queue.rep h_l
      case rests =>
        exact fun g => rests_of_operation hw h_queue (by simp) (congrFun h_status g)
          (congrFun h_registered g)
      case placed =>
        intro u g stage h_u
        obtain ⟨h_polling, h_fits⟩ := hw.placed u g stage (h_place ▸ h_u)
        exact ⟨(congrFun h_status g).trans h_polling, fits_of_operation hw h_queue (by simp)
          (congrFun h_status g) (congrFun h_registered g) h_fits⟩
      case held =>
        intro g h_g
        obtain ⟨u, stage, h_u⟩ := hw.held g (h_status ▸ h_g)
        exact ⟨u, stage, h_place ▸ h_u⟩
      case alone => exact h_place ▸ hw.alone
  | act t f own place h_turn h_queue h_own h_status h_registered h_place h_rests h_now =>
      have h_at : w'.place t = place := by rw [h_place, Function.update_self]
      replace h_place : ∀ u, u ≠ t → w'.place u = w.place u := fun u h_u => by
        rw [h_place, Function.update_of_ne h_u]
      have h_away : ∀ g, g ≠ f → own ≠ some g := by
        rintro g h_g rfl
        exact h_g (by simpa using h_own)
      -- the tasks other than `t` are at other futures
      have h_others : ∀ u, u ≠ t → ∀ g stage, w'.place u = some (g, stage) →
          w.place u = some (g, stage) ∧ g ≠ f := by
        intro u h_u g stage h_g
        rw [h_place u h_u] at h_g
        refine ⟨h_g, ?_⟩
        rintro rfl
        rcases h_turn with ⟨stage', h_t⟩ | ⟨-, h_not, -⟩
        · exact h_u (hw.alone u t g stage stage' h_g h_t)
        · exact h_not (hw.placed u g stage h_g).1
      have h_mine : ∀ g stage, w'.place t = some (g, stage) →
          g = f ∧ w'.status f = .polling ∧ stage.Fits (w'.view f) := by
        intro g stage h_g
        rcases h_now with ⟨h_none, -⟩ | ⟨stage', h_some, h_polling, h_fits⟩
        · exact absurd (h_none.symm.trans (h_at.symm.trans h_g)) (by simp)
        · obtain ⟨rfl, rfl⟩ : f = g ∧ stage' = stage := by
            simpa using h_some.symm.trans (h_at.symm.trans h_g)
          exact ⟨rfl, h_polling, h_fits⟩
      constructor
      case rep => exact h_queue.rep h_l
      case rests =>
        intro g
        by_cases h_g : g = f
        · exact h_g ▸ h_rests
        · exact rests_of_operation hw h_queue (h_away g h_g) (h_status g h_g) (h_registered g h_g)
      case placed =>
        intro u g stage h_u
        by_cases h_t : u = t
        · subst h_t
          obtain ⟨rfl, h_polling, h_fits⟩ := h_mine g stage h_u
          exact ⟨h_polling, h_fits⟩
        · obtain ⟨h_old, h_g⟩ := h_others u h_t g stage h_u
          obtain ⟨h_polling, h_fits⟩ := hw.placed u g stage h_old
          exact ⟨(h_status g h_g).trans h_polling, fits_of_operation hw h_queue (h_away g h_g)
            (h_status g h_g) (h_registered g h_g) h_fits⟩
      case held =>
        intro g h_polling
        by_cases h_g : g = f
        · subst h_g
          rcases h_now with ⟨-, h_not, -⟩ | ⟨stage, h_some, -, -⟩
          · exact absurd h_polling h_not
          · exact ⟨t, stage, h_at.trans h_some⟩
        · obtain ⟨u, stage, h_u⟩ := hw.held g ((h_status g h_g).symm.trans h_polling)
          have h_t : u ≠ t := by
            rintro rfl
            rcases h_turn with ⟨stage', h_f⟩ | ⟨h_none, -, -⟩
            · exact h_g (Prod.mk.inj (Option.some.inj (h_u.symm.trans h_f))).1
            · exact absurd (h_none.symm.trans h_u) (by simp)
          exact ⟨u, stage, (h_place u h_t).trans h_u⟩
      case alone =>
        intro u v g stage stage' h_u h_v
        by_cases h_ut : u = t <;> by_cases h_vt : v = t
        · rw [h_ut, h_vt]
        · subst h_ut
          exact absurd (h_mine g stage h_u).1 (h_others v h_vt g stage' h_v).2
        · subst h_vt
          exact absurd (h_mine g stage' h_v).1 (h_others u h_ut g stage h_u).2
        · exact hw.alone u v g stage stage' (h_others u h_ut g stage h_u).1
            (h_others v h_vt g stage' h_v).1

/-- A future that has been dropped stays dropped, and its memory is written to no
    more. -/
theorem Moored.dropped [DecidableEq Task] (hw : w.Moored) (h : w.Step w')
    (h_f : w.status f = .dropped) :
    w'.status f = .dropped ∧ w'.queue.nodes f = w.queue.nodes f := by
  obtain ⟨l, h_l⟩ := hw.rep
  have h_free : (w.queue.nodes f).linked = false := by
    have h_rests := hw.rests f
    simpa only [Rests, view, h_f] using h_rests
  cases h with
  | wake h_queue h_status h_registered h_place =>
      exact ⟨(congrFun h_status f).trans h_f, h_queue.untouched h_l (by simp) h_free⟩
  | act t g own place h_turn h_queue h_own h_status h_registered h_place h_rests h_now =>
      have h_ne : f ≠ g := by
        rintro rfl
        rcases h_turn with ⟨stage, h_t⟩ | ⟨-, -, h_not⟩
        · exact absurd (h_f.symm.trans (hw.placed t f stage h_t).1) (by decide)
        · exact h_not h_f
      refine ⟨(h_status f h_ne).trans h_f, h_queue.untouched h_l ?_ h_free⟩
      rintro rfl
      exact h_ne (by simpa using h_own)

/-- A future that has been used does not become new again. -/
theorem Step.used [DecidableEq Task] (h : w.Step w') (h_f : w.status f ≠ .fresh) :
    w'.status f ≠ .fresh := by
  cases h with
  | wake h_queue h_status h_registered h_place => rwa [h_status]
  | act t g own place h_turn h_queue h_own h_status h_registered h_place h_rests h_now =>
      by_cases h_fg : f = g
      · subst h_fg
        rcases h_now with ⟨-, -, h_not⟩ | ⟨stage, -, h_polling, -⟩
        · exact h_not
        · rw [h_polling]
          decide
      · rwa [h_status f h_fg]

-- ============================================================================
-- What the queue relies on
-- ============================================================================

/-- The future `f` is there, and will take its node out of the queue before it
    goes: by the poll it is in, or by its drop, which looks at `registered`. -/
def Anchored (w : Waiters Task ι Waker) (f : ι) : Prop :=
  w.Held f ∨ (w.status f = .pending ∨ w.status f = .ready) ∧ w.registered f = true

/-- What `enqueue` and the pointers of the queue rely on. -/
structure Safe (w : Waiters Task ι Waker) : Prop where
  /-- The pointers lead to linked nodes of futures that are there. -/
  reaches : ∀ f, w.queue.Reaches f → (w.queue.nodes f).linked = true ∧ w.Anchored f
  /-- The assertions of `enqueue`. -/
  enqueue : ∀ t f, w.place t = some (f, .preparing) → (w.queue.nodes f).linked = false ∧
    (w.queue.nodes f).waker.isSome ∧ (w.queue.tail = none → w.queue.head = none)

omit [DecidableEq ι] in
theorem Moored.safe (hw : w.Moored) : w.Safe := by
  obtain ⟨l, h_l⟩ := hw.rep
  constructor
  case reaches =>
    intro f h_f
    have h_linked := (h_l.linked_iff f).mpr (h_l.mem_of_reaches h_f)
    have h_rests := hw.rests f
    refine ⟨h_linked, ?_⟩
    simp only [Rests, view] at h_rests
    cases h_status : w.status f <;> simp only [h_status, h_linked, reduceCtorEq] at h_rests
    case fresh => exact absurd h_rests.1 (by simp)
    case polling => exact .inl (hw.held f h_status)
    case pending => exact .inr ⟨.inl h_status, h_rests⟩
    case ready => exact .inr ⟨.inr h_status, h_rests trivial⟩
  case enqueue =>
    intro t f h_t
    obtain ⟨h_free, -, h_waker⟩ := (hw.placed t f .preparing h_t).2
    refine ⟨h_free, h_waker, fun h_tail => ?_⟩
    rw [h_l.tail_eq, List.getLast?_eq_none_iff] at h_tail
    rw [h_l.head_eq, h_tail, List.head?_nil]

/-- Where the futures of type `F` keep their status, and whether they are
    registered. -/
structure Flags (F : Type*) where
  status : F → FutureStatus
  registered : F → Bool

/-- A future of type `F`, with its node in the queue `q`. -/
def Flags.view {F : Type*} (flags : Flags F) (x : F) (q : WaitQueue ι Waker) (f : ι) :
    View Waker where
  status := flags.status x
  registered := flags.registered x
  linked := (q.nodes f).linked
  waker := (q.nodes f).waker

/-- The queue `q` of the futures `futures`, which tasks poll at `place`. -/
def of {F : Type*} (flags : Flags F) (q : WaitQueue ι Waker) (futures : ι → F)
    (place : Task → Option (ι × PollStage)) : Waiters Task ι Waker where
  queue := q
  status := flags.status ∘ futures
  registered := flags.registered ∘ futures
  place := place

section Of

variable {F : Type*} {flags : Flags F} {q q' : WaitQueue ι Waker} {futures futures' : ι → F}
  {place : Task → Option (ι × PollStage)} {t : Task} {p : Option (ι × PollStage)} {f : ι} {x : F}
  {own : Option ι} {stage : PollStage}

omit [DecidableEq ι] in
/-- A future that nobody polls is registered as long as it is queued. -/
theorem Moored.registered_of_linked (hw : (of flags q futures place).Moored)
    (h_not : flags.status (futures f) ≠ .polling) (h_linked : (q.nodes f).linked = true) :
    flags.registered (futures f) = true := by
  have h_rests := hw.rests f
  simp only [Rests, view, of, Function.comp_apply] at h_rests
  cases h : flags.status (futures f) <;> simp only [h, h_linked, reduceCtorEq] at h_rests
  case fresh => exact absurd h_rests.1 (by simp)
  case polling => exact absurd h h_not
  case pending => exact h_rests
  case ready => exact h_rests trivial

variable [DecidableEq Task]

/-- A step of `t` that polls and drops no future. -/
theorem step_aside (h_queue : Operation q none q')
    (h_futures : ∀ f, flags.status (futures' f) = flags.status (futures f) ∧
      flags.registered (futures' f) = flags.registered (futures f)) (h_place : p = place t) :
    (of flags q futures place).Step (of flags q' futures' (Function.update place t p)) := by
  refine .wake h_queue (funext fun f => (h_futures f).1) (funext fun f => (h_futures f).2) ?_
  rw [h_place]
  exact Function.update_eq_self t place

/-- A step of `t` that makes `x` of the future `f`. -/
theorem step_act (h_turn : (∃ stage, place t = some (f, stage)) ∨
      place t = none ∧ flags.status (futures f) ≠ .polling ∧ flags.status (futures f) ≠ .dropped)
    (h_queue : Operation q own q') (h_own : own = none ∨ own = some f)
    (h_futures : futures' = Function.update futures f x) (h_rests : Rests (flags.view x q' f))
    (h_now : (p = none ∧ flags.status x ≠ .polling ∧ flags.status x ≠ .fresh) ∨
      ∃ stage, p = some (f, stage) ∧ flags.status x = .polling ∧
        stage.Fits (flags.view x q' f)) :
    (of flags q futures place).Step (of flags q' futures' (Function.update place t p)) := by
  have h_f : futures' f = x := by rw [h_futures, Function.update_self]
  have h_away : ∀ g, g ≠ f → futures' g = futures g := fun g h_g => by
    rw [h_futures, Function.update_of_ne h_g]
  have h_view : ∀ place' : Task → Option (ι × PollStage),
      (of flags q' futures' place').view f = flags.view x q' f := by
    intro place'
    simp only [view, of, Flags.view, Function.comp_apply, h_f]
  refine .act t f own p h_turn h_queue h_own ?_ ?_ rfl ?_ ?_
  · exact fun g h_g => congrArg flags.status (h_away g h_g)
  · exact fun g h_g => congrArg flags.registered (h_away g h_g)
  · rwa [h_view]
  · rw [h_view]
    simpa only [of, Function.comp_apply, h_f] using h_now

/-- A step in the poll of `f`, which goes on. -/
theorem step_go (stage' : PollStage) (h_at : place t = some (f, stage))
    (h_queue : Operation q own q') (h_own : own = none ∨ own = some f)
    (h_futures : futures' = Function.update futures f x)
    (h_polling : flags.status x = .polling) (h_p : p = some (f, stage'))
    (h_fits : stage'.Fits (flags.view x q' f)) :
    (of flags q futures place).Step (of flags q' futures' (Function.update place t p)) := by
  refine step_act (.inl ⟨stage, h_at⟩) h_queue h_own h_futures ?_
    (.inr ⟨stage', h_p, h_polling, h_fits⟩)
  simp only [Rests, Flags.view, h_polling]

/-- A step in the poll of `f` that changes no future. -/
theorem step_on (stage' : PollStage) (hw : (of flags q futures place).Moored)
    (h_at : place t = some (f, stage)) (h_queue : Operation q own q')
    (h_own : own = none ∨ own = some f) (h_futures : futures' = futures)
    (h_p : p = some (f, stage'))
    (h_fits : stage.Fits ((of flags q futures place).view f) →
      stage'.Fits (flags.view (futures f) q' f)) :
    (of flags q futures place).Step (of flags q' futures' (Function.update place t p)) := by
  obtain ⟨h_polling, h_now⟩ := hw.placed t f stage h_at
  refine step_go stage' h_at h_queue h_own ?_ h_polling h_p (h_fits h_now)
  rw [h_futures, Function.update_eq_self]

/-- The end of a poll after which the node of `f` is out of the queue. -/
theorem step_ready (h_at : place t = some (f, stage)) (h_queue : Operation q own q')
    (h_own : own = none ∨ own = some f) (h_futures : futures' = Function.update futures f x)
    (h_x : flags.status x = .ready) (h_p : p = none) (h_free : (q'.nodes f).linked = false) :
    (of flags q futures place).Step (of flags q' futures' (Function.update place t p)) := by
  refine step_act (.inl ⟨stage, h_at⟩) h_queue h_own h_futures ?_ (.inl ⟨h_p, by simp [h_x]⟩)
  simp [Rests, Flags.view, h_x, h_free]

end Of

end Waiters
end WaitQueue
end Zydon
