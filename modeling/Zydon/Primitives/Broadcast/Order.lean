/-
  Zydon.Primitives.Broadcast.Order

  The order in which a receiver obtains the values of a broadcast channel, over
  every interleaving of the sender and the receivers.

  A receiver loads the generation and clones the value in two steps.  As long as
  each clone finds the value of the send whose generation was loaded, the numbers
  of the sends a receiver obtains increase (`increasing_of_clonesLoaded`).  A value
  that is written between the two is obtained under the generation of the send
  before, and once more under its own (`obtainedTwice_writeInPoll`).
-/

import Zydon.Lib.RefCount
import Zydon.Primitives.Broadcast.Basic

namespace Zydon
namespace Broadcast

open Lib

variable {R T Waker : Type*}

-- ============================================================================
-- What a receiver has obtained
-- ============================================================================

/-- The receiver itself. -/
def RecvPc.receiver : RecvPc T Waker → Option (Receiver T)
  | .absent => none
  | .idle x _ | .clone x _ _ | .setWaker x _ | .enqueue x | .lenAdd x | .recheck x | .remove x _
  | .removed x _ _ | .dropRemoved x _ _ | .panicked x => some x

/-- The values the receiver has obtained so far. -/
def RecvPc.got (q : RecvPc T Waker) : List (Elem T) :=
  match q.receiver with
  | some x => x.got
  | none => []

/-- The values come from sends with increasing numbers. -/
def Increasing (l : List (Elem T)) : Prop := (l.map Prod.fst).Pairwise (· < ·)

/-- The next step is the clone for the generation loaded when `n` sends had
    advanced it. -/
def RecvPc.cloning : RecvPc T Waker → Option Nat
  | .clone _ _ n => some n
  | _ => none

/-- A clone finds the value of the send whose generation the receiver has loaded:
    no send has written its value since then. -/
def ClonesLoaded (m : Halves R T Waker) : Unit × SendAction T ⊕ R × RecvAction Waker → Prop
  | .inr (r, .next) => (m.right r).cloning.all (fun n => m.shared.writes = n) = true
  | _ => True

instance (m : Halves R T Waker) : (label : Unit × SendAction T ⊕ R × RecvAction Waker) →
    Decidable (ClonesLoaded m label)
  | .inr (r, .next) =>
      inferInstanceAs
        (Decidable ((m.right r).cloning.all (fun n => m.shared.writes = n) = true))
  | .inr (_, .subscribe) | .inr (_, .poll _) | .inr (_, .dropFuture) | .inl _ => .isTrue trivial

-- ============================================================================
-- The invariant
-- ============================================================================

/-- The generation counts the sends until the sender is dropped, and the value is
    that of the last one. -/
structure SendInv (s : BroadcastInner R T Waker) (p : SendPc Waker) : Prop where
  counts : p.closing = false → Counts s.generation s.sends
  closed : p.closing = true → s.generation = closedGeneration
  number : ∀ v, s.value = some v → v.1 = s.writes

/-- A generation that a receiver has loaded and is about to clone the value of. -/
def RecvPc.found : RecvPc T Waker → Option (BitVec 64 × Nat)
  | .clone _ generation n => some (generation, n)
  | .remove _ found | .removed _ found _ => found
  | _ => none

/-- What is known of a receiver, with `sends` generations advanced and the sender
    in `drop` or not. -/
structure Consistent (sends : Nat) (closing : Bool) (x : Receiver T) : Prop where
  increasing : Increasing x.got
  le_seen : ∀ e ∈ x.got, e.1 ≤ x.seen
  seen_le : x.seen ≤ sends
  counts : closing = false → Counts x.lastSeen x.seen

/-- What is known of a generation that a receiver has found. -/
structure Found (sends : Nat) (closing : Bool) (x : Receiver T) (generation : BitVec 64) (n : Nat) :
    Prop where
  lt : x.seen < n
  le : n ≤ sends
  counts : closing = false → Counts generation n

/-- The invariant of a receiver. -/
structure RecvInv (sends : Nat) (closing : Bool) (q : RecvPc T Waker) : Prop where
  consistent : ∀ x, q.receiver = some x → Consistent sends closing x
  found : ∀ x generation n, q.receiver = some x → q.found = some (generation, n) →
    Found sends closing x generation n

variable {s s' : BroadcastInner R T Waker} {p p' : SendPc Waker} {q q' : RecvPc T Waker}
  {x : Receiver T} {sends : Nat} {closing : Bool}

theorem sendInv_new : SendInv (.new : BroadcastInner R T Waker) .idle where
  counts := fun _ => rfl
  closed := fun h => nomatch h
  number := fun _ h => nomatch h

theorem recvInv_absent : RecvInv sends closing (.absent : RecvPc T Waker) where
  consistent := fun _ h => nomatch h
  found := fun _ _ _ h => nomatch h

theorem Increasing.append {l : List (Elem T)} (h : Increasing l) {v : Elem T}
    (h_v : ∀ e ∈ l, e.1 < v.1) : Increasing (l ++ [v]) := by
  rw [Increasing, List.map_append, List.map_singleton, List.pairwise_append]
  refine ⟨h, List.pairwise_singleton _ _, ?_⟩
  intro a h_a b h_b
  obtain ⟨e, h_e, rfl⟩ := List.mem_map.mp h_a
  obtain rfl := List.mem_singleton.mp h_b
  exact h_v e h_e

-- ============================================================================
-- Steps of the sender
-- ============================================================================

theorem SendInv.sendEffect (h : SendInv s p) (h_step : SendEffect s p s' p') : SendInv s' p' := by
  obtain ⟨h_counts, h_closed, h_number⟩ := h
  cases h_step with
  | send v =>
      refine ⟨h_counts, fun h => (nomatch h), fun e h_e => ?_⟩
      obtain rfl := Option.some.inj h_e
      rfl
  | drop => exact ⟨fun h => (nomatch h), fun _ => rfl, h_number⟩
  | advance => exact ⟨fun _ => (h_counts rfl).add, fun h => (nomatch h), h_number⟩
  | wakeAll invoked _ _ h_closing _ =>
      exact ⟨fun h => h_counts (h_closing ▸ h), fun h => h_closed (h_closing ▸ h), h_number⟩

/-- The sends only become more, and a dropped sender stays dropped. -/
theorem SendEffect.mono (h_step : SendEffect s p s' p') :
    s.sends ≤ s'.sends ∧ (p.closing = true → p'.closing = true) := by
  cases h_step with
  | send v => exact ⟨le_refl _, fun h => nomatch h⟩
  | drop => exact ⟨le_refl _, fun h => nomatch h⟩
  | advance => exact ⟨Nat.le_succ _, fun h => nomatch h⟩
  | wakeAll invoked _ _ h_closing _ => exact ⟨le_refl _, fun h => h_closing.trans h⟩

/-- An earlier state with the sender alive had it alive, too. -/
theorem open_of_mono {closing' : Bool} (h_closing : closing = true → closing' = true)
    (h_open : closing' = false) : closing = false := by
  cases closing with
  | false => rfl
  | true => exact nomatch (h_closing rfl).symm.trans h_open

/-- A receiver is not disturbed by a sender that goes on. -/
theorem Consistent.mono {sends' : Nat} {closing' : Bool} (h : Consistent sends closing x)
    (h_sends : sends ≤ sends') (h_closing : closing = true → closing' = true) :
    Consistent sends' closing' x where
  increasing := h.increasing
  le_seen := h.le_seen
  seen_le := le_trans h.seen_le h_sends
  counts := fun h_open => h.counts (open_of_mono h_closing h_open)

theorem RecvInv.mono {sends' : Nat} {closing' : Bool} (h : RecvInv sends closing q)
    (h_sends : sends ≤ sends') (h_closing : closing = true → closing' = true) :
    RecvInv sends' closing' q := by
  constructor
  · intro x h_x
    exact (h.consistent x h_x).mono h_sends h_closing
  · intro x generation n h_x h_found
    obtain ⟨h_lt, h_le, h_counts⟩ := h.found x generation n h_x h_found
    exact ⟨h_lt, le_trans h_le h_sends, fun h_open => h_counts (open_of_mono h_closing h_open)⟩

-- ============================================================================
-- Steps of a receiver
-- ============================================================================

theorem RecvInv.of_consistent (h : Consistent sends closing x) (h_x : q.receiver = some x)
    (h_found : q.found = none) : RecvInv sends closing q where
  consistent := fun _ h_y => Option.some.inj (h_x.symm.trans h_y) ▸ h
  found := fun _ _ _ _ h_some => nomatch h_found.symm.trans h_some

theorem RecvInv.of_found {generation : BitVec 64} {n : Nat} (h : Consistent sends closing x)
    (h_new : Found sends closing x generation n) (h_x : q.receiver = some x)
    (h_found : q.found = some (generation, n)) : RecvInv sends closing q where
  consistent := fun _ h_y => Option.some.inj (h_x.symm.trans h_y) ▸ h
  found := by
    intro y generation' n' h_y h_some
    obtain ⟨rfl, rfl⟩ := Prod.mk.inj (Option.some.inj (h_found.symm.trans h_some))
    exact Option.some.inj (h_x.symm.trans h_y) ▸ h_new

theorem Consistent.setRegistered (h : Consistent sends closing x) (registered : Bool) :
    Consistent sends closing { x with registered := registered } :=
  ⟨h.increasing, h.le_seen, h.seen_le, h.counts⟩

theorem Found.setRegistered {generation : BitVec 64} {n : Nat}
    (h : Found sends closing x generation n) (registered : Bool) :
    Found sends closing { x with registered := registered } generation n :=
  ⟨h.lt, h.le, h.counts⟩

/-- A new receiver starts at the generation it finds. -/
theorem SendInv.subscribed (h : SendInv s p) :
    Consistent s.sends p.closing (⟨s.generation, false, s.sends, []⟩ : Receiver T) where
  increasing := List.Pairwise.nil
  le_seen := fun _ h_e => absurd h_e List.not_mem_nil
  seen_le := le_refl _
  counts := h.counts

/-- What the tests of `poll` have seen. -/
theorem Receiver.check_eq_newer {generation : BitVec 64} (h : x.check generation = .newer) :
    generation ≠ closedGeneration ∧ x.lastSeen < generation := by
  rw [Receiver.check] at h
  split at h
  · exact nomatch h
  · next h_open =>
      split at h
      · next h_lt => exact ⟨h_open, h_lt⟩
      · exact nomatch h

theorem Receiver.check_eq_closed_iff {generation : BitVec 64} :
    x.check generation = .closed ↔ generation = closedGeneration := by
  rw [Receiver.check]
  split
  · next h_closed => exact iff_of_true rfl h_closed
  · next h_open =>
      refine iff_of_false (fun h => ?_) h_open
      split at h
      · exact nomatch h
      · exact nomatch h

/-- A newer generation is that of a later send. -/
theorem Consistent.found (h : Consistent s.sends p.closing x) (h_send : SendInv s p)
    (h_check : x.check s.generation = .newer) :
    Found s.sends p.closing x s.generation s.sends := by
  obtain ⟨h_open, h_lt⟩ := Receiver.check_eq_newer h_check
  have h_closing : p.closing = false := by
    cases h_p : p.closing with
    | false => rfl
    | true => exact absurd (h_send.closed h_p) h_open
  refine ⟨lt_of_le_of_ne h.seen_le fun h_eq => ?_, le_refl _, h_send.counts⟩
  -- with no send in between, the generation would be the one last seen
  have h_last : x.lastSeen = BitVec.ofNat 64 x.seen := h.counts h_closing
  have h_generation : s.generation = BitVec.ofNat 64 s.sends := h_send.counts h_closing
  rw [h_last, h_generation, h_eq] at h_lt
  exact BitVec.lt_irrefl _ h_lt

/-- The clone of the value of the send whose generation was loaded. -/
theorem Consistent.obtain {generation : BitVec 64} {n : Nat} {v : Elem T}
    (h : Consistent sends closing x) (h_found : Found sends closing x generation n)
    (h_v : v.1 = n) : Consistent sends closing (x.obtain generation n v) where
  increasing := h.increasing.append fun e h_e => by
    have h_le := h.le_seen e h_e
    have h_lt := h_found.lt
    omega
  le_seen := by
    intro e h_e
    rcases List.mem_append.mp h_e with h_e | h_e
    · have h_le := h.le_seen e h_e
      have h_lt := h_found.lt
      show e.1 ≤ n
      omega
    · obtain rfl := List.mem_singleton.mp h_e
      exact le_of_eq h_v
  seen_le := h_found.le
  counts := h_found.counts

variable [DecidableEq R] {r : R} {a : RecvAction Waker}

theorem RecvInv.recvStep (h : RecvInv s.sends p.closing q) (h_send : SendInv s p)
    (h_loaded : ∀ x generation n, q = .clone x generation n → s.writes = n)
    (h_step : recvStep r s q a = some (s', q')) : RecvInv s.sends p.closing q' := by
  cases q <;> cases a <;> simp only [Broadcast.recvStep, reduceCtorEq] at h_step
  case absent.subscribe =>
    obtain ⟨rfl, rfl⟩ : _ = s' ∧ _ = q' := by simpa using h_step
    exact .of_consistent h_send.subscribed rfl rfl
  case idle.poll x answer waker =>
    have h_x := h.consistent x rfl
    split at h_step <;> obtain ⟨rfl, rfl⟩ : _ = s' ∧ _ = q' := by simpa using h_step
    · exact .of_consistent h_x rfl rfl
    · next h_check => exact .of_found h_x (h_x.found h_send h_check) rfl rfl
    · exact .of_consistent h_x rfl rfl
  case idle.dropFuture x answer =>
    have h_x := h.consistent x rfl
    split at h_step <;> obtain ⟨rfl, rfl⟩ : _ = s' ∧ _ = q' := by simpa using h_step
    · exact .of_consistent (h_x.setRegistered false) rfl rfl
    · exact .of_consistent h_x rfl rfl
  case clone.next x generation n =>
    have h_x := h.consistent x rfl
    split at h_step <;> obtain ⟨rfl, rfl⟩ : _ = s' ∧ _ = q' := by simpa using h_step
    · next v h_value =>
        have h_v : v.1 = n := (h_send.number v h_value).trans (h_loaded x generation n rfl)
        exact .of_consistent (h_x.obtain (h.found x generation n rfl rfl) h_v) rfl rfl
    · exact .of_consistent h_x rfl rfl
  case setWaker.next x waker =>
    obtain ⟨rfl, rfl⟩ : _ = s' ∧ _ = q' := by simpa using h_step
    have h_x := h.consistent x rfl
    cases x.registered with
    | true => exact .of_consistent h_x rfl rfl
    | false => exact .of_consistent h_x rfl rfl
  case enqueue.next x =>
    have h_x := h.consistent x rfl
    split at h_step
    · obtain ⟨rfl, rfl⟩ : _ = s' ∧ _ = q' := by simpa using h_step
      exact .of_consistent (h_x.setRegistered true) rfl rfl
    · exact absurd h_step (by simp)
  case lenAdd.next x =>
    obtain ⟨rfl, rfl⟩ : _ = s' ∧ _ = q' := by simpa using h_step
    exact .of_consistent (h.consistent x rfl) rfl rfl
  case recheck.next x =>
    have h_x := h.consistent x rfl
    split at h_step <;> obtain ⟨rfl, rfl⟩ : _ = s' ∧ _ = q' := by simpa using h_step
    · exact .of_consistent h_x rfl rfl
    · next h_check => exact .of_found h_x (h_x.found h_send h_check) rfl rfl
    · exact .of_consistent h_x rfl rfl
  case remove.next x found =>
    obtain ⟨rfl, rfl⟩ : _ = s' ∧ _ = q' := by simpa using h_step
    have h_x := (h.consistent x rfl).setRegistered false
    cases found with
    | none => exact .of_consistent h_x rfl rfl
    | some found =>
        exact .of_found h_x ((h.found x found.1 found.2 rfl rfl).setRegistered false) rfl rfl
  case removed.next x found unlinked =>
    have h_x := h.consistent x rfl
    cases found with
    | none =>
        obtain ⟨rfl, rfl⟩ : _ = s' ∧ _ = q' := by simpa [Broadcast.recvStep] using h_step
        exact .of_consistent h_x rfl rfl
    | some found =>
        obtain ⟨rfl, rfl⟩ : _ = s' ∧ _ = q' := by simpa [Broadcast.recvStep] using h_step
        exact .of_found h_x (h.found x found.1 found.2 rfl rfl) rfl rfl
  case dropRemoved.next x answer unlinked =>
    obtain ⟨rfl, rfl⟩ : _ = s' ∧ _ = q' := by simpa using h_step
    exact .of_consistent (h.consistent x rfl) rfl rfl

-- ============================================================================
-- Runs
-- ============================================================================

/-- The invariant of the sender and all receivers. -/
def Inv (m : Halves R T Waker) : Prop :=
  SendInv m.shared (m.left ()) ∧
    ∀ r, RecvInv m.shared.sends (m.left ()).closing (m.right r)

variable {fuel : Nat} {m m' : Halves R T Waker}

theorem Inv.step {label : Unit × SendAction T ⊕ R × RecvAction Waker} (h : Inv m)
    (h_loaded : ClonesLoaded m label) (h_step : (broadcast R T Waker fuel).step m label = some m') :
    Inv m' := by
  obtain ⟨h_send, h_recv⟩ := h
  cases label with
  | inl label =>
      obtain ⟨⟨⟩, a⟩ := label
      obtain ⟨s, p, h_sender, rfl⟩ := Families.step_left_eq_some h_step
      have h_effect := sendStep_effect h_sender
      refine ⟨?_, fun r => ?_⟩
      · show SendInv s (Function.update m.left () p ())
        rw [Function.update_self]
        exact h_send.sendEffect h_effect
      · show RecvInv s.sends (Function.update m.left () p ()).closing (m.right r)
        rw [Function.update_self]
        exact (h_recv r).mono h_effect.mono.1 h_effect.mono.2
  | inr label =>
      obtain ⟨r, a⟩ := label
      obtain ⟨s, q, h_receiver, rfl⟩ := Families.step_right_eq_some h_step
      have h_frame := (recvStep_frame h_receiver).1
      refine ⟨?_, fun r' => ?_⟩
      · show SendInv s (m.left ())
        rw [h_frame]
        exact ⟨h_send.counts, h_send.closed, h_send.number⟩
      · show RecvInv s.sends (m.left ()).closing (Function.update m.right r q r')
        have h_sends : s.sends = m.shared.sends := by
          rw [h_frame]
          rfl
        rw [h_sends]
        by_cases h_r : r' = r
        · subst h_r
          rw [Function.update_self]
          refine (h_recv r').recvStep h_send (fun x generation n h_clone => ?_) h_receiver
          change recvStep r' m.shared (m.right r') a = _ at h_receiver
          rw [h_clone] at h_receiver
          cases a with
          | next => simpa [ClonesLoaded, h_clone, RecvPc.cloning] using h_loaded
          | subscribe | poll waker | dropFuture => exact nomatch h_receiver
        · rw [Function.update_of_ne h_r]
          exact h_recv r'

/-- In every run whose clones find the value whose generation was loaded, the
    values that a receiver obtains come from sends with increasing numbers. -/
theorem increasing_of_clonesLoaded {tr : List (Unit × SendAction T ⊕ R × RecvAction Waker)}
    (h_loaded :
      (broadcast R T Waker fuel).StepsMeet ClonesLoaded (broadcast R T Waker fuel).init tr)
    (h_run : (broadcast R T Waker fuel).exec (broadcast R T Waker fuel).init tr = some m) (r : R) :
    Increasing (m.right r).got := by
  have h_init : Inv (broadcast R T Waker fuel).init := ⟨sendInv_new, fun _ => recvInv_absent⟩
  obtain ⟨-, h_recv⟩ :=
    Machine.exec_invariant (fun _ _ _ h h_loaded h_step => h.step h_loaded h_step) h_init h_loaded
      h_run
  rw [RecvPc.got]
  split
  · next x h_x => exact ((h_recv r).consistent x h_x).increasing
  · exact List.Pairwise.nil

/-- The steps of an uninterrupted `send` that wakes nobody. -/
def sendSteps (v : Nat) : List (Unit × SendAction Nat ⊕ Nat × RecvAction Unit) :=
  .inl ((), .send v) :: List.replicate 4 (.inl ((), .next))

/-- The receiver polls after each of two sends. -/
def pollsBetween : List (Unit × SendAction Nat ⊕ Nat × RecvAction Unit) :=
  [.inr (0, .subscribe)] ++ sendSteps 10 ++ [.inr (0, .poll ()), .inr (0, .next)] ++
    sendSteps 20 ++ [.inr (0, .poll ()), .inr (0, .next)]

theorem increasing_pollsBetween :
    ∃ m, (broadcast Nat Nat Unit 0).exec (broadcast Nat Nat Unit 0).init pollsBetween =
        some m ∧
      (m.right 0).got = [(1, 10), (2, 20)] ∧ Increasing (m.right 0).got := by
  have h_replay : ((broadcast Nat Nat Unit 0).exec (broadcast Nat Nat Unit 0).init
      pollsBetween).any (fun m => decide ((m.right 0).got = [(1, 10), (2, 20)])) = true := by
    decide +kernel
  obtain ⟨m, h_run, h_got⟩ := Machine.exec_of_decide h_replay
  exact ⟨m, h_run, h_got, increasing_of_clonesLoaded (by decide +kernel) h_run 0⟩

/-- A send writes its value between the load and the clone of a poll. -/
def writeInPoll : List (Unit × SendAction Nat ⊕ Nat × RecvAction Unit) :=
  [.inr (0, .subscribe)] ++ sendSteps 10 ++ [.inr (0, .poll ()), .inl ((), .send 20),
    .inr (0, .next), .inl ((), .next), .inr (0, .poll ()), .inr (0, .next)]

/-- The receiver obtains the second value twice. -/
theorem obtainedTwice_writeInPoll :
    ∃ m, (broadcast Nat Nat Unit 0).exec (broadcast Nat Nat Unit 0).init writeInPoll =
        some m ∧
      (m.right 0).got = [(2, 20), (2, 20)] ∧ ¬ Increasing (m.right 0).got := by
  have h_replay : ((broadcast Nat Nat Unit 0).exec (broadcast Nat Nat Unit 0).init
      writeInPoll).any (fun m => decide ((m.right 0).got = [(2, 20), (2, 20)])) = true := by
    decide +kernel
  obtain ⟨m, h_run, h_got⟩ := Machine.exec_of_decide h_replay
  refine ⟨m, h_run, h_got, ?_⟩
  rw [h_got]
  simp [Increasing]

end Broadcast
end Zydon
