/-
  Zydon.Primitives.WaitQueue.Station

  A wait queue between one caller, which polls and drops futures, and one party
  that wakes them.

  Of the caller, `Place` says where it is in `poll`; of the other party, whether
  it is still to wake someone (`due`), and whom it has dequeued (`waking`).
  `Inv` says that the futures of a list are queued and that no wake-up has been
  lost.  There is one lemma for each thing the caller does, and one for what the
  other party does (`Inv.touch`).
-/

import Zydon.Lib.Parking
import Zydon.Primitives.WaitQueue.Parked

namespace Zydon
namespace WaitQueue

open Lib

variable {ι Waker : Type*}

/-- What a future records of its waiting. -/
structure WaitFlags where
  registered : Bool
  status : FutureStatus
  woken : Bool

/-- Where the caller is in `poll`. -/
inductive Place (ι : Type*) where
  /-- In `poll` of no future. -/
  | away
  | polling (f : ι)
  /-- It is about to queue the node of `f`. -/
  | entering (f : ι)
  /-- It has queued the node of `f`, which is not marked registered yet. -/
  | joining (f : ι)
  /-- It has checked again, and is about to return `Pending`. -/
  | settling (f : ι)
  /-- It has taken the node of `f` out of the queue. -/
  | leaving (f : ι)

/-- The future that the caller polls. -/
def Place.polled : Place ι → Option ι
  | .away => none
  | .polling f | .entering f | .joining f | .settling f | .leaving f => some f

/-- A wait queue with its futures and its two parties. -/
structure Station (ι Waker : Type*) where
  queue : WaitQueue ι Waker
  flags : ι → WaitFlags
  place : Place ι
  /-- The future that has been dequeued and whose waker is still to be invoked. -/
  waking : Option ι
  /-- A `wake_one` is still to come. -/
  due : Prop
  /-- There is nothing to wait for less than a `wake_one`. -/
  blocked : Prop
  /-- The last check of `poll` comes before the node is queued. -/
  early : Prop

/-- The waiter that a wake-up has taken from the queue with its waker. -/
def taken : Option (ι × Option Waker) → Option ι
  | some (g, some _) => some g
  | _ => none

namespace Station

/-- The future `f` makes no check of its own any more. -/
def Rests (s : Station ι Waker) (l : List ι) (f : ι) : Prop :=
  (s.flags f).status = .pending ∨ s.place = .settling f ∨
    s.early ∧ (s.place = .joining f ∨ f ∈ l)

/-- The line of the futures of `l`. -/
def side (s : Station ι Waker) (l : List ι) : Side ι where
  line := l
  live f := (s.flags f).status = .polling ∨ (s.flags f).status = .pending
  rests := s.Rests l
  woken f := (s.flags f).woken = true
  waking := s.waking
  due := s.due
  blocked := s.blocked

/-- The futures of `l` are queued, and no wake-up has been lost. -/
structure Inv (s : Station ι Waker) (l : List ι) : Prop where
  parked : Parked s.queue l
  polled : ∀ f, (s.flags f).status = .polling ↔ s.place.polled = some f
  registered : ∀ f ∈ l, (s.flags f).registered = true ∨ s.place = .joining f
  entering : ∀ f, s.place = .entering f → f ∉ l ∧ (s.queue.nodes f).waker.isSome
  leaving : ∀ f, s.place = .leaving f → f ∉ l
  sound : (s.side l).Sound

/-- Nothing happens to the wake-ups on their way, and what makes something to come
    for is due to wake. -/
structure Still (s s' : Station ι Waker) : Prop where
  waking : s'.waking = s.waking
  early : s'.early ↔ s.early
  owed : s.blocked ∨ s.due → s'.blocked ∨ s'.due

/-- What an operation of the party that wakes does. -/
inductive Touch [DecidableEq ι] (s s' : Station ι Waker) : Prop
  | frame (h_place : s'.place = s.place)
      (h_queue : s'.queue = s.queue ∨ s'.queue = s.queue.lenSub) (h_flags : s'.flags = s.flags)
      (h_still : s.Still s')
  | dequeue (h_place : s'.place = s.place) (h_early : s'.early ↔ s.early)
      (h_queue : s'.queue = s.queue.wakeOneSection.2) (h_flags : s'.flags = s.flags)
      (h_none : s.waking = none) (h_waking : s'.waking = taken s.queue.wakeOneSection.1)
  | invoke (g : ι) (h_place : s'.place = s.place) (h_early : s'.early ↔ s.early)
      (h_queue : s'.queue = s.queue)
      (h_flags : s'.flags = Function.update s.flags g { s.flags g with woken := true })
      (h_g : s.waking = some g) (h_waking : s'.waking = none)
      (h_owed : s.blocked ∨ s.due → s'.blocked ∨ s'.due)

namespace Inv

variable {s s' : Station ι Waker} {l : List ι} {f : ι}

/-- No future is used yet. -/
theorem init (h_queue : s.queue = new) (h_flags : ∀ f, (s.flags f).status = .fresh)
    (h_place : s.place = .away) : s.Inv [] where
  parked := h_queue ▸ Parked.new
  polled := fun f => by simp [h_flags f, h_place, Place.polled]
  registered := fun f h_f => absurd h_f List.not_mem_nil
  entering := fun f h_f => by simp [h_place] at h_f
  leaving := fun f _ => List.not_mem_nil
  sound := by
    refine Side.Sound.init rfl (fun f => ?_) (fun f => ?_)
    · simp [side, h_flags f]
    · simp [side, Rests, h_flags f, h_place]

/-! ### The party that wakes -/

/-- The queue, the futures and the place stay as they are, but for wakers and the
    length. -/
theorem frame (h : s.Inv l) (h_place : s'.place = s.place) (h_flags : s'.flags = s.flags)
    (h_parked : Parked s'.queue l)
    (h_entering : ∀ f, s.place = .entering f → (s.queue.nodes f).waker.isSome →
      (s'.queue.nodes f).waker.isSome)
    (h_still : s.Still s') : s'.Inv l where
  parked := h_parked
  polled := by
    rw [h_flags, h_place]
    exact h.polled
  registered := by
    rw [h_flags, h_place]
    exact h.registered
  entering := by
    intro f h_f
    rw [h_place] at h_f
    exact (h.entering f h_f).imp_right (h_entering f h_f)
  leaving := by
    rw [h_place]
    exact h.leaving
  sound := by
    refine h.sound.frame rfl (fun f => ?_) (fun f => ?_) (fun f => ?_) h_still.waking h_still.owed
    · simp only [side, h_flags]
    · simp only [side, Rests, h_flags, h_place, h_still.early]
      exact id
    · simp only [side, h_flags]
      exact id

/-- An operation of the party that wakes. -/
theorem touch [DecidableEq ι] (h : s.Inv l) (h_touch : s.Touch s') : ∃ l', s'.Inv l' := by
  cases h_touch with
  | frame h_place h_queue h_flags h_still =>
      rcases h_queue with h_queue | h_queue
      · exact ⟨l, h.frame h_place h_flags (h_queue ▸ h.parked) (fun _ _ => h_queue ▸ id) h_still⟩
      · exact ⟨l, h.frame h_place h_flags (h_queue ▸ h.parked.lenSub) (fun _ _ => h_queue ▸ id)
          h_still⟩
  | dequeue h_place h_early h_queue h_flags h_none h_waking =>
      obtain ⟨h_parked, h_first, h_wakers⟩ : Parked s'.queue l.tail ∧ s'.waking = l.head? ∧
          ∀ f, f ∉ l → (s'.queue.nodes f).waker = (s.queue.nodes f).waker := by
        cases l with
        | nil =>
            rw [h.parked.wakeOne_nil] at h_queue h_waking
            rw [h_queue]
            exact ⟨h.parked, h_waking, fun _ _ => rfl⟩
        | cons g l =>
            obtain ⟨waker, w, h_section, h_w, h_wakers⟩ := h.parked.wakeOne_cons
            rw [h_section] at h_queue h_waking
            rw [h_queue]
            exact ⟨h_w, h_waking, fun f h_f => h_wakers f (List.ne_of_not_mem_cons h_f)⟩
      refine ⟨l.tail, h_parked, ?_, fun f h_f => ?_, fun f h_f => ?_, fun f h_f => ?_, ?_⟩
      · rw [h_flags, h_place]
        exact h.polled
      · rw [h_flags, h_place]
        exact h.registered f (List.mem_of_mem_tail h_f)
      · rw [h_place] at h_f
        obtain ⟨h_out, h_waker⟩ := h.entering f h_f
        exact ⟨fun h_mem => h_out (List.mem_of_mem_tail h_mem), by rwa [h_wakers f h_out]⟩
      · rw [h_place] at h_f
        exact fun h_mem => h.leaving f h_f (List.mem_of_mem_tail h_mem)
      · refine h.sound.wakeOne h.parked.nodup rfl (fun f => ?_) (fun f => ?_) (fun f => ?_) h_none
          h_first
        · simp only [side, h_flags]
        · simp only [side, Rests, h_flags, h_place, h_early]
          exact Or.imp_right (Or.imp_right (And.imp_right (Or.imp_right List.mem_of_mem_tail)))
        · simp only [side, h_flags]
          exact id
  | invoke g h_place h_early h_queue h_flags h_g h_waking h_owed =>
      have h_same : ∀ f, (s'.flags f).status = (s.flags f).status ∧
          (s'.flags f).registered = (s.flags f).registered := by
        intro f
        rw [h_flags]
        by_cases h_f : f = g
        · subst h_f
          simp
        · simp [h_f]
      have h_woken : ∀ f, (s.flags f).woken = true ∨ f = g → (s'.flags f).woken = true := by
        intro f h_f
        rw [h_flags]
        by_cases h_fg : f = g
        · subst h_fg
          simp
        · simpa [h_fg] using h_f
      refine ⟨l, h_queue ▸ h.parked, fun f => ?_, fun f h_f => ?_, fun f h_f => ?_, ?_, ?_⟩
      · rw [(h_same f).1, h_place]
        exact h.polled f
      · rw [(h_same f).2, h_place]
        exact h.registered f h_f
      · rw [h_queue]
        exact h.entering f (h_place ▸ h_f)
      · rw [h_place]
        exact h.leaving
      · refine h.sound.invoke rfl (fun f => ?_) (fun f => ?_) (fun f h_f => h_woken f (.inl h_f))
          (fun f h_f => ?_) h_owed
        · simp only [side, (h_same f).1]
        · simp only [side, Rests, (h_same f).1, h_place, h_early]
          exact id
        · obtain rfl : g = f := Option.some.inj (h_g.symm.trans h_f)
          exact h_woken g (.inr rfl)

/-! ### The caller -/

/-- The caller goes on in the same place. -/
theorem go (h : s.Inv l) (h_place : s'.place = s.place) (h_flags : s'.flags = s.flags)
    (h_queue : s'.queue = s.queue) (h_still : s.Still s') : s'.Inv l :=
  h.frame h_place h_flags (h_queue ▸ h.parked) (fun _ _ => h_queue ▸ id) h_still

/-- A polled future that is not marked registered is not queued. -/
theorem not_mem (h : s.Inv l) (h_place : s.place = .polling f)
    (h_f : (s.flags f).registered = false) : f ∉ l := by
  intro h_mem
  rcases h.registered f h_mem with h_registered | h_joining
  · simp [h_f] at h_registered
  · simp [h_place] at h_joining

/-- The waker of `f` is written, and its node is about to be queued. -/
theorem prepare (h : s.Inv l) (h_place : s.place = .polling f) (h_place' : s'.place = .entering f)
    (h_flags : s'.flags = s.flags) (h_parked : Parked s'.queue l) (h_out : f ∉ l)
    (h_waker : (s'.queue.nodes f).waker.isSome) (h_still : s.Still s') : s'.Inv l where
  parked := h_parked
  polled := by
    have h_polled := h.polled
    rw [h_place] at h_polled
    rw [h_flags, h_place']
    exact h_polled
  registered := by
    intro g h_g
    have h_registered := (h.registered g h_g).resolve_right (by simp [h_place])
    rw [h_flags]
    exact .inl h_registered
  entering := by
    intro g h_g
    obtain rfl : f = g := by simpa [h_place'] using h_g
    exact ⟨h_out, h_waker⟩
  leaving := fun g h_g => absurd h_g (by simp [h_place'])
  sound := by
    refine h.sound.frame rfl (fun g => ?_) (fun g => ?_) (fun g => ?_) h_still.waking h_still.owed
    · simp only [side, h_flags]
    · simp only [side, Rests, h_flags, h_place, h_place', h_still.early, reduceCtorEq, false_or]
      exact id
    · simp only [side, h_flags]
      exact id

/-- The node of `f` is queued.  If no check follows, there is nothing to come for. -/
theorem enqueue (h : s.Inv l) (h_place : s.place = .entering f) (h_place' : s'.place = .joining f)
    (h_flags : s'.flags = s.flags) (h_parked : Parked s'.queue (l ++ [f]))
    (h_owed : s'.early → s'.blocked ∨ s'.due) : s'.Inv (l ++ [f]) where
  parked := h_parked
  polled := by
    have h_polled := h.polled
    rw [h_place] at h_polled
    rw [h_flags, h_place']
    exact h_polled
  registered := by
    intro g h_g
    rw [h_flags, h_place']
    rcases List.mem_append.mp h_g with h_g | h_g
    · exact .inl ((h.registered g h_g).resolve_right (by simp [h_place]))
    · obtain rfl : g = f := by simpa using h_g
      exact .inr rfl
  entering := fun g h_g => absurd h_g (by simp [h_place'])
  leaving := fun g h_g => absurd h_g (by simp [h_place'])
  sound := by
    have h_polling : (s.flags f).status = .polling := (h.polled f).mpr (by rw [h_place]; rfl)
    refine h.sound.link (f := f) (.inl h_polling) rfl (fun g => ?_) (fun g h_g => ?_)
      fun h_f => ?_
    · simp only [side, h_flags]
    · simp only [side, Rests, h_flags, h_place', reduceCtorEq, false_or] at h_g
      rcases h_g with h_pending | ⟨-, h_joining | h_mem⟩
      · exact .inr h_pending
      · obtain rfl : f = g := by simpa using h_joining
        exact .inl h_polling
      · rcases List.mem_append.mp h_mem with h_g | h_g
        · exact h.sound.line_live g h_g
        · obtain rfl : g = f := by simpa using h_g
          exact .inl h_polling
    · simp only [side, Rests, h_flags, h_place', h_polling, reduceCtorEq, false_or] at h_f
      exact h_owed h_f.1

/-- The last check has found nothing.  The future is queued, or its wake-up is on
    its way. -/
theorem settle (h : s.Inv l) (h_place : s.place = .polling f) (h_place' : s'.place = .settling f)
    (h_flags : s'.flags = s.flags) (h_parked : Parked s'.queue l) (h_waking : s'.waking = s.waking)
    (h_covered : f ∈ l ∨ (s.flags f).woken = true ∨ s.waking = some f)
    (h_owed : s'.blocked ∨ s'.due) : s'.Inv l where
  parked := h_parked
  polled := by
    have h_polled := h.polled
    rw [h_place] at h_polled
    rw [h_flags, h_place']
    exact h_polled
  registered := by
    intro g h_g
    have h_registered := (h.registered g h_g).resolve_right (by simp [h_place])
    rw [h_flags]
    exact .inl h_registered
  entering := fun g h_g => absurd h_g (by simp [h_place'])
  leaving := fun g h_g => absurd h_g (by simp [h_place'])
  sound := by
    have h_polling : (s.flags f).status = .polling := (h.polled f).mpr (by rw [h_place]; rfl)
    refine h.sound.rest (f := f) (.inl h_polling) rfl (fun g => ?_) (fun g h_g => ?_) ?_
      fun _ => h_owed
    · simp only [side, h_flags]
    · simp only [side, Rests, h_flags, h_place'] at h_g
      rcases h_g with h_pending | h_settling | ⟨-, h_joining | h_mem⟩
      · exact .inr h_pending
      · obtain rfl : f = g := by simpa using h_settling
        exact .inl h_polling
      · exact absurd h_joining (by simp)
      · exact h.sound.line_live g h_mem
    · simpa only [side, h_flags, h_waking] using h_covered

section Futures

variable [DecidableEq ι]

/-- The caller polls `f`, and awaits no other future. -/
theorem start (h : s.Inv l) (h_place : s.place = .away) (h_place' : s'.place = .polling f)
    (h_flags : s'.flags =
      Function.update s.flags f { s.flags f with status := .polling, woken := false })
    (h_only : ∀ g, g ≠ f → (s.flags g).status ≠ .pending) (h_parked : Parked s'.queue l)
    (h_still : s.Still s') : s'.Inv l where
  parked := h_parked
  polled := by
    intro g
    rw [h_flags, h_place']
    by_cases h_gf : g = f
    · subst h_gf
      simp [Place.polled]
    · have h_idle : (s.flags g).status ≠ .polling := by
        rw [ne_eq, h.polled g, h_place]
        simp [Place.polled]
      simp [Place.polled, h_gf, h_idle, Ne.symm h_gf]
  registered := by
    intro g h_g
    have h_registered := (h.registered g h_g).resolve_right (by simp [h_place])
    rw [h_flags]
    by_cases h_gf : g = f
    · subst h_gf
      simp [h_registered]
    · simp [h_gf, h_registered]
  entering := fun g h_g => absurd h_g (by simp [h_place'])
  leaving := fun g h_g => absurd h_g (by simp [h_place'])
  sound := by
    have h_live : ∀ g, (s.side l).live g → g = f := by
      intro g h_g
      by_contra h_gf
      rcases h_g with h_polling | h_pending
      · rw [h.polled g, h_place] at h_polling
        exact absurd h_polling (by simp [Place.polled])
      · exact h_only g h_gf h_pending
    refine h.sound.poll h_live rfl (fun g => ?_) (fun g h_g => ?_) h_still.owed
    · by_cases h_gf : g = f
      · simp [side, h_flags, h_gf]
      · simp [side, h_flags, h_gf]
    · simp only [side, Rests, h_place', h_still.early, reduceCtorEq, false_or] at h_g
      rcases h_g with h_pending | ⟨h_early, h_mem⟩
      · by_cases h_gf : g = f
        · simp [h_flags, h_gf] at h_pending
        · rw [h_flags, Function.update_of_ne h_gf] at h_pending
          exact absurd h_pending (h_only g h_gf)
      · exact ⟨.inr (.inr ⟨h_early, .inr h_mem⟩), h_mem⟩

/-- The polled future `f` is marked registered or not, as its node is queued or not,
    and `poll` goes on. -/
theorem mark (h : s.Inv l) (h_polled : s.place.polled = some f) (h_place : s'.place = .polling f)
    {registered : Bool} (h_flags : s'.flags =
      Function.update s.flags f { s.flags f with registered := registered })
    (h_registered : f ∈ l → registered = true) (h_parked : Parked s'.queue l)
    (h_still : s.Still s') : s'.Inv l := by
  have h_same : ∀ g, (s'.flags g).status = (s.flags g).status ∧
      (s'.flags g).woken = (s.flags g).woken := by
    intro g
    rw [h_flags]
    by_cases h_gf : g = f
    · subst h_gf
      simp
    · simp [h_gf]
  constructor
  case parked => exact h_parked
  case polled =>
    intro g
    rw [(h_same g).1, h.polled g, h_polled, h_place, Place.polled]
  case registered =>
    intro g h_g
    rw [h_flags]
    by_cases h_gf : g = f
    · subst h_gf
      simp [h_registered h_g]
    · have h_before : (s.flags g).registered = true := by
        refine (h.registered g h_g).resolve_right fun h_joining => h_gf ?_
        simpa [h_joining, Place.polled] using h_polled
      simp [h_gf, h_before]
  case entering => exact fun g h_g => absurd h_g (by simp [h_place])
  case leaving => exact fun g h_g => absurd h_g (by simp [h_place])
  case sound =>
    refine h.sound.frame rfl (fun g => ?_) (fun g => ?_) (fun g => ?_) h_still.waking h_still.owed
    · simp only [side, (h_same g).1]
    · simp only [side, Rests, (h_same g).1, h_place, h_still.early, reduceCtorEq, false_or]
      exact Or.imp_right fun h_g => .inr ⟨h_g.1, .inr h_g.2⟩
    · simp only [side, (h_same g).2]
      exact id

/-- `poll` of `f` returns `Pending`: the future is queued, or its wake-up is on its
    way. -/
theorem rest (h : s.Inv l) (h_polled : s.place.polled = some f) (h_place : s'.place = .away)
    {x : WaitFlags} (h_flags : s'.flags = Function.update s.flags f x)
    (h_pending : x.status = .pending) (h_woken : x.woken = (s.flags f).woken)
    (h_registered : f ∈ l → x.registered = true)
    (h_parked : Parked s'.queue l) (h_waking : s'.waking = s.waking)
    (h_covered : f ∈ l ∨ (s.flags f).woken = true ∨ s.waking = some f)
    (h_owed : f ∈ l → s'.blocked ∨ s'.due) : s'.Inv l where
  parked := h_parked
  polled := by
    intro g
    have h_g := h.polled g
    rw [h_polled] at h_g
    rw [h_flags, h_place]
    by_cases h_gf : g = f
    · subst h_gf
      simp [h_pending, Place.polled]
    · simpa [h_gf, Place.polled, Ne.symm h_gf] using h_g
  registered := by
    intro g h_g
    rw [h_flags]
    by_cases h_gf : g = f
    · subst h_gf
      simp [h_registered h_g]
    · have h_before : (s.flags g).registered = true := by
        refine (h.registered g h_g).resolve_right fun h_joining => h_gf ?_
        simpa [h_joining, Place.polled] using h_polled
      simp [h_gf, h_before]
  entering := fun g h_g => absurd h_g (by simp [h_place])
  leaving := fun g h_g => absurd h_g (by simp [h_place])
  sound := by
    have h_polling : (s.flags f).status = .polling := (h.polled f).mpr h_polled
    refine h.sound.rest (f := f) (.inl h_polling) rfl (fun g => ?_) (fun g h_g => ?_) ?_ h_owed
    · by_cases h_gf : g = f
      · subst h_gf
        simp [side, h_flags, h_pending, h_polling]
      · simp [side, h_flags, h_gf]
    · by_cases h_gf : g = f
      · exact h_gf ▸ .inl h_polling
      · simp only [side, Rests, h_flags, h_place, Function.update_of_ne h_gf, reduceCtorEq,
          false_or] at h_g
        rcases h_g with h_g | ⟨-, h_mem⟩
        · exact .inr h_g
        · exact h.sound.line_live g h_mem
    · simpa [side, h_flags, h_woken, h_waking] using h_covered

/-- The node of `f` leaves the queue. -/
theorem unlink (h : s.Inv l) (h_place : s.place = .polling f) (h_place' : s'.place = .leaving f)
    (h_flags : s'.flags = s.flags) (h_parked : Parked s'.queue (l.erase f))
    (h_still : s.Still s') : s'.Inv (l.erase f) where
  parked := h_parked
  polled := by
    have h_polled := h.polled
    rw [h_place] at h_polled
    rw [h_flags, h_place']
    exact h_polled
  registered := by
    intro g h_g
    have h_registered :=
      (h.registered g (List.mem_of_mem_erase h_g)).resolve_right (by simp [h_place])
    rw [h_flags]
    exact .inl h_registered
  entering := fun g h_g => absurd h_g (by simp [h_place'])
  leaving := by
    intro g h_g
    obtain rfl : f = g := by simpa [h_place'] using h_g
    exact h.parked.nodup.not_mem_erase
  sound := by
    have h_polling : (s.flags f).status = .polling := (h.polled f).mpr (by rw [h_place]; rfl)
    refine h.sound.leave h.parked.nodup rfl (fun g => ?_) (fun g _ => ?_) (fun g h_g => ?_)
      (fun g _ => ?_) h_still.waking h_still.owed
    · simp only [side, h_flags]
      exact id
    · simp only [side, h_flags]
      exact id
    · simp only [side, Rests, h_flags, h_place', h_still.early, reduceCtorEq, false_or] at h_g
      rcases h_g with h_pending | ⟨h_early, h_mem⟩
      · refine ⟨.inl h_pending, ?_⟩
        rintro rfl
        rw [h_polling] at h_pending
        exact absurd h_pending (by simp)
      · obtain ⟨h_gf, h_g⟩ := h.parked.nodup.mem_erase_iff.mp h_mem
        exact ⟨.inr (.inr ⟨h_early, .inr h_g⟩), h_gf⟩
    · simp only [side, h_flags]
      exact id

/-- The future `f` is ready or dropped, and its node is not queued any more. -/
theorem gone (h : s.Inv l) (h_polled : ∀ g, s.place.polled = some g → g = f)
    (h_joining : ∀ g, s.place ≠ .joining g) (h_place : s'.place = .away) {x : WaitFlags}
    (h_flags : s'.flags = Function.update s.flags f x)
    (h_x : x.status = .ready ∨ x.status = .dropped) (h_parked : Parked s'.queue (l.erase f))
    (h_still : s.Still s') : s'.Inv (l.erase f) where
  parked := h_parked
  polled := by
    intro g
    rw [h_flags, h_place]
    by_cases h_gf : g = f
    · subst h_gf
      rcases h_x with h_x | h_x <;> simp [h_x, Place.polled]
    · have h_idle : (s.flags g).status ≠ .polling := by
        rw [ne_eq, h.polled g]
        exact fun h_g => h_gf (h_polled g h_g)
      simp [h_gf, h_idle, Place.polled]
  registered := by
    intro g h_g
    obtain ⟨h_gf, h_g⟩ := h.parked.nodup.mem_erase_iff.mp h_g
    have h_registered := (h.registered g h_g).resolve_right (h_joining g)
    rw [h_flags]
    simp [h_gf, h_registered]
  entering := fun g h_g => absurd h_g (by simp [h_place])
  leaving := fun g h_g => absurd h_g (by simp [h_place])
  sound := by
    have h_gone : (s'.flags f).status ≠ .polling ∧ (s'.flags f).status ≠ .pending := by
      rw [h_flags]
      rcases h_x with h_x | h_x <;> simp [h_x]
    have h_other : ∀ g, g ≠ f → s'.flags g = s.flags g := fun g h_gf => by simp [h_flags, h_gf]
    refine h.sound.leave (f := f) h.parked.nodup rfl (fun g h_g => ?_) (fun g h_gf => ?_)
      (fun g h_g => ?_) (fun g h_gf => ?_) h_still.waking h_still.owed
    · by_cases h_gf : g = f
      · subst h_gf
        exact absurd h_g (not_or.mpr h_gone)
      · simpa only [side, h_other g h_gf] using h_g
    · simp only [side, h_other g h_gf]
      exact id
    · simp only [side, Rests, h_place, h_still.early, reduceCtorEq, false_or] at h_g
      rcases h_g with h_pending | ⟨h_early, h_mem⟩
      · have h_gf : g ≠ f := fun h_eq => h_gone.2 (h_eq ▸ h_pending)
        rw [h_other g h_gf] at h_pending
        exact ⟨.inl h_pending, h_gf⟩
      · obtain ⟨h_gf, h_g⟩ := h.parked.nodup.mem_erase_iff.mp h_mem
        exact ⟨.inr (.inr ⟨h_early, .inr h_g⟩), h_gf⟩
    · simp only [side, h_other g h_gf]
      exact id

/-- The polled future `f`, which is not queued any more, is ready. -/
theorem ready (h : s.Inv l) (h_place : s.place = .polling f ∨ s.place = .leaving f)
    (h_out : f ∉ l) (h_place' : s'.place = .away) {x : WaitFlags}
    (h_flags : s'.flags = Function.update s.flags f x) (h_x : x.status = .ready)
    (h_queue : s'.queue = s.queue) (h_still : s.Still s') : s'.Inv l := by
  have h_erase : l.erase f = l := List.erase_of_not_mem h_out
  have h_parked : Parked s'.queue (l.erase f) := by
    rw [h_queue, h_erase]
    exact h.parked
  refine h_erase ▸ h.gone (fun g h_g => ?_) (fun g h_g => ?_) h_place' h_flags (.inl h_x) h_parked
    h_still
  · rcases h_place with h_place | h_place
    · rw [h_place] at h_g
      exact (Option.some.inj h_g).symm
    · rw [h_place] at h_g
      exact (Option.some.inj h_g).symm
  · rcases h_place with h_place | h_place
    · simp [h_place] at h_g
    · simp [h_place] at h_g

/-- A future is dropped, whose node is removed if it is registered. -/
theorem drop (h : s.Inv l) (h_place : s.place = .away) (h_place' : s'.place = .away)
    (h_flags : s'.flags = Function.update s.flags f { s.flags f with status := .dropped })
    (h_queue : s'.queue =
      if (s.flags f).registered then (s.queue.removeSection f).2 else s.queue)
    (h_still : s.Still s') : s'.Inv (l.erase f) := by
  have h_parked : Parked s'.queue (l.erase f) := by
    rw [h_queue]
    by_cases h_mem : f ∈ l
    · have h_registered := (h.registered f h_mem).resolve_right (by simp [h_place])
      obtain ⟨w, h_remove, h_w⟩ := h.parked.remove_of_mem h_mem
      rw [if_pos h_registered, h_remove]
      exact h_w
    · rw [h.parked.remove_of_not_mem h_mem, ite_self, List.erase_of_not_mem h_mem]
      exact h.parked
  refine h.gone (fun g h_g => ?_) (fun g h_g => ?_) h_place' h_flags (.inr rfl) h_parked h_still
  · simp [h_place, Place.polled] at h_g
  · simp [h_place] at h_g

end Futures

end Inv
end Station
end WaitQueue
end Zydon
