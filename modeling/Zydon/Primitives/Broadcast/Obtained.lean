/-
  Zydon.Primitives.Broadcast.Obtained

  What the receivers of a broadcast channel obtain, over every interleaving with the
  sends.

  A poll loads the generation and clones the value in two steps, and a send writes
  its value before it advances the generation.  A clone may so find a value that is
  newer than the generation loaded, and later polls find it again.  They stop when
  the receiver has seen the generation of that value: a value is obtained three
  times at most, and none is older than what the receiver has seen.
-/

import Zydon.Lib.History
import Zydon.Primitives.Broadcast.Closing

namespace Zydon
namespace Broadcast

open Lib

variable {R T Waker : Type*}

-- ============================================================================
-- The values sent
-- ============================================================================

/-- The value of a `send` is noted when it is written. -/
def noteSent (_ : Halves R T Waker) (a : Unit × SendAction T ⊕ R × RecvAction Waker)
    (_ : Halves R T Waker) (sent : List T) : List T :=
  match a with
  | .inl (_, .send v) => sent ++ [v]
  | _ => sent

/-- The channel with the values its sender has written, in order. -/
def sentMachine (R T Waker : Type*) [DecidableEq R] (fuel : Nat) :
    Machine (Recorded (Halves R T Waker) (List T)) (Unit × SendAction T ⊕ R × RecvAction Waker) :=
  (broadcast R T Waker fuel).recorded noteSent []

/-- What the receiver `r` has obtained was sent, is in order, and is fresh. -/
structure ObtainsSent (s : Recorded (Halves R T Waker) (List T)) (r : R) : Prop where
  /-- The `expect` of `poll` never fails. -/
  noPanic : ∀ x, s.state.right r ≠ .panicked x
  /-- The number of a value is that of the send that has written it. -/
  values : ∀ e ∈ (s.state.right r).got, 0 < e.1 ∧ s.record[e.1 - 1]? = some e.2
  inOrder : ((s.state.right r).got.map Prod.fst).Pairwise (· ≤ ·)
  thrice : ∀ k, ((s.state.right r).got.map Prod.fst).count k ≤ 3
  /-- The last value is no older than the generation the receiver has seen. -/
  fresh : ∀ x e, (s.state.right r).receiver = some x → x.got.getLast? = some e → x.seen ≤ e.1
  /-- `Closed` is answered when the sender is dropped, or when the sends have counted
      up to the generation of a closed channel. -/
  closed : (s.state.right r).answer = some .closed →
    (s.state.left ()).closing = true ∨ 2 ^ 64 - 1 ≤ s.state.shared.sends

-- ============================================================================
-- Steps of a receiver
-- ============================================================================

/-- The receiver has answered `Closed`, or is about to. -/
def RecvPc.saysClosed : RecvPc T Waker → Bool
  | .idle _ (some .closed) | .dropRemoved _ (some .closed) _ | .remove _ none
  | .removed _ none _ => true
  | _ => false

/-- What a step of a receiver does: it subscribes, goes on, finds the channel closed
    or a newer generation, or clones the value. -/
inductive RecvEffect (s : BroadcastInner R T Waker) : RecvPc T Waker → RecvPc T Waker → Prop
  | subscribe : RecvEffect s .absent (.idle ⟨s.generation, false, s.sends, []⟩ none)
  | goOn {q q' : RecvPc T Waker} (x : Receiver T) (registered : Bool) :
      q.receiver = some x → q'.receiver = some { x with registered := registered } →
      (∀ found, q'.found = some found → q.found = some found) →
      (q'.saysClosed = true → q.saysClosed = true) → (∀ y, q' ≠ .panicked y) → RecvEffect s q q'
  | close {q q' : RecvPc T Waker} (x : Receiver T) :
      q.receiver = some x → q'.receiver = some x → q'.found = none →
      s.generation = closedGeneration → (∀ y, q' ≠ .panicked y) → RecvEffect s q q'
  | find {q q' : RecvPc T Waker} (x : Receiver T) :
      q.receiver = some x → q'.receiver = some x → x.check s.generation = .newer →
      q'.found = some (s.generation, s.sends) → q'.saysClosed = false →
      (∀ y, q' ≠ .panicked y) → RecvEffect s q q'
  | clone (x : Receiver T) (generation : BitVec 64) (n : Nat) (v : Elem T) : s.value = some v →
      RecvEffect s (.clone x generation n) (.idle (x.obtain generation n v) (some (.ok v)))
  | panic (x : Receiver T) (generation : BitVec 64) (n : Nat) : s.value = none →
      RecvEffect s (.clone x generation n) (.panicked x)

variable {s s' : BroadcastInner R T Waker} {p p' : SendPc Waker} {q q' : RecvPc T Waker}
  {x : Receiver T} {sent : List T} {sends : Nat} {closing : Bool}

theorem recvStep_effect [DecidableEq R] {r : R} {a : RecvAction Waker}
    (h_step : recvStep r s q a = some (s', q')) : RecvEffect s q q' := by
  cases q <;> cases a <;> simp only [recvStep, reduceCtorEq] at h_step
  case absent.subscribe =>
    cases h_step
    exact .subscribe
  case idle.poll x answer waker =>
    split at h_step <;> cases h_step
    · next h_check =>
        exact .close x rfl rfl rfl (Receiver.check_eq_closed_iff.mp h_check) (by simp)
    · next h_check => exact .find x rfl rfl h_check rfl rfl (by simp)
    · exact .goOn x x.registered rfl rfl (by simp [RecvPc.found]) (by simp [RecvPc.saysClosed])
        (by simp)
  case idle.dropFuture x answer =>
    split at h_step <;> cases h_step
    · refine .goOn x false rfl rfl (by simp [RecvPc.found]) (fun h_closed => ?_) (by simp)
      cases answer with
      | none => exact h_closed
      | some answer => cases answer <;> exact h_closed
    · exact .goOn x x.registered rfl rfl (fun _ => id) id (by simp)
  case clone.next x generation n =>
    split at h_step <;> cases h_step
    · next v h_value => exact .clone x generation n v h_value
    · next h_value => exact .panic x generation n h_value
  case setWaker.next x waker =>
    cases h_step
    refine .goOn x x.registered rfl ?_ ?_ ?_ ?_ <;> split <;>
      simp [RecvPc.receiver, RecvPc.found, RecvPc.saysClosed]
  case enqueue.next x =>
    split at h_step
    · cases h_step
      exact .goOn x true rfl rfl (by simp [RecvPc.found]) (by simp [RecvPc.saysClosed]) (by simp)
    · exact absurd h_step (by simp)
  case lenAdd.next x =>
    cases h_step
    exact .goOn x x.registered rfl rfl (by simp [RecvPc.found]) (by simp [RecvPc.saysClosed])
      (by simp)
  case recheck.next x =>
    split at h_step <;> cases h_step
    · next h_check =>
        exact .close x rfl rfl rfl (Receiver.check_eq_closed_iff.mp h_check) (by simp)
    · next h_check => exact .find x rfl rfl h_check rfl rfl (by simp)
    · exact .goOn x x.registered rfl rfl (by simp [RecvPc.found]) (by simp [RecvPc.saysClosed])
        (by simp)
  case remove.next x found =>
    cases h_step
    refine .goOn x false rfl rfl (fun _ => id) (fun h_closed => ?_) (by simp)
    cases found <;> exact h_closed
  case removed.next x found unlinked =>
    cases found with
    | none =>
        cases h_step
        exact .goOn x x.registered rfl rfl (by simp [RecvPc.found]) (fun _ => rfl) (by simp)
    | some found =>
        cases h_step
        exact .goOn x x.registered rfl rfl (fun _ => id) (by simp [RecvPc.saysClosed]) (by simp)
  case dropRemoved.next x answer unlinked =>
    cases h_step
    refine .goOn x x.registered rfl rfl (by simp [RecvPc.found]) (fun h_closed => ?_) (by simp)
    cases answer with
    | none => exact h_closed
    | some answer => cases answer <;> exact h_closed

-- ============================================================================
-- The invariant
-- ============================================================================

/-- The value of the channel is the last one noted. -/
structure Noted (s : BroadcastInner R T Waker) (p : SendPc Waker) (sent : List T) : Prop where
  isSent : Sent s p
  writes : s.writes = sent.length
  last : ∀ v, s.value = some v → sent.getLast? = some v.2

/-- What is known of the values that a receiver has obtained. -/
structure Took (sent : List T) (sends : Nat) (closing : Bool) (x : Receiver T) : Prop where
  values : ∀ e ∈ x.got, 0 < e.1 ∧ sent[e.1 - 1]? = some e.2
  inOrder : (x.got.map Prod.fst).Pairwise (· ≤ ·)
  fresh : ∀ e, x.got.getLast? = some e → x.seen ≤ e.1
  seen_le : x.seen ≤ sends
  counts : closing = false → Counts x.lastSeen x.seen
  /-- A value that has been obtained twice is at most one ahead of the generation
      seen, one that has been obtained three times is not ahead. -/
  few : ∀ k, (x.got.map Prod.fst).count k ≤ 3 ∧
    (2 ≤ (x.got.map Prod.fst).count k → k ≤ x.seen + 1) ∧
    (3 ≤ (x.got.map Prod.fst).count k → k ≤ x.seen)

/-- What is known of a generation that a receiver has found. -/
structure FoundNew (sends : Nat) (closing : Bool) (x : Receiver T)
    (found : BitVec 64 × Nat) : Prop where
  lt : x.seen < found.2
  le : found.2 ≤ sends
  counts : closing = false → Counts found.1 found.2
  near : ∀ e ∈ x.got, e.1 ≤ found.2 + 1

/-- The invariant of a receiver. -/
structure TakeInv (sent : List T) (sends : Nat) (closing : Bool) (q : RecvPc T Waker) : Prop where
  took : ∀ x, q.receiver = some x → Took sent sends closing x
  found : ∀ x found, q.receiver = some x → q.found = some found → FoundNew sends closing x found
  closed : q.saysClosed = true → closing = true ∨ 2 ^ 64 - 1 ≤ sends
  noPanic : ∀ x, q ≠ .panicked x

theorem takeInv_absent : TakeInv sent sends closing (.absent : RecvPc T Waker) :=
  ⟨by simp [RecvPc.receiver], by simp [RecvPc.receiver], by simp [RecvPc.saysClosed], by simp⟩

/-- A receiver is not disturbed by a sender that goes on. -/
theorem TakeInv.mono {sent' : List T} {sends' : Nat} {closing' : Bool}
    (h : TakeInv sent sends closing q) (h_sent : sent <+: sent') (h_sends : sends ≤ sends')
    (h_closing : closing = true → closing' = true) : TakeInv sent' sends' closing' q := by
  refine ⟨fun x h_x => ?_, fun x found h_x h_found => ?_, fun h_q => ?_, h.noPanic⟩
  · have h_took := h.took x h_x
    refine ⟨fun e h_e => ?_, h_took.inOrder, h_took.fresh, le_trans h_took.seen_le h_sends,
      fun h_open => h_took.counts (open_of_mono h_closing h_open), h_took.few⟩
    obtain ⟨h_pos, h_value⟩ := h_took.values e h_e
    have h_lt := (List.getElem?_eq_some_iff.mp h_value).1
    obtain ⟨rest, rfl⟩ := h_sent
    exact ⟨h_pos, (List.getElem?_append_left h_lt).trans h_value⟩
  · obtain ⟨h_lt, h_le, h_counts, h_near⟩ := h.found x found h_x h_found
    exact ⟨h_lt, le_trans h_le h_sends, fun h_open => h_counts (open_of_mono h_closing h_open),
      h_near⟩
  · exact (h.closed h_q).imp h_closing fun h_many => le_trans h_many h_sends

-- ============================================================================
-- Steps
-- ============================================================================

theorem noted_new : Noted (.new : BroadcastInner R T Waker) .idle [] :=
  ⟨sent_new, rfl, fun _ h => absurd h (by simp [BroadcastInner.new])⟩

/-- A sender that starts no `send` leaves what is noted. -/
theorem Noted.sendEffect (h : Noted s p sent) (h_effect : SendEffect s p s' p')
    (h_value : s'.value = s.value) (h_writes : s'.writes = s.writes) : Noted s' p' sent :=
  ⟨h.isSent.effect h_effect, h_writes.trans h.writes, fun v h_v => h.last v (h_value ▸ h_v)⟩

/-- The numbers a receiver has obtained are at most as many as the sends. -/
theorem Took.le_length (h : Took sent sends closing x) {e : Elem T} (h_e : e ∈ x.got) :
    e.1 ≤ sent.length := by
  obtain ⟨h_pos, h_value⟩ := h.values e h_e
  have h_lt := (List.getElem?_eq_some_iff.mp h_value).1
  omega

theorem Took.setRegistered (h : Took sent sends closing x) (registered : Bool) :
    Took sent sends closing { x with registered := registered } :=
  ⟨h.values, h.inOrder, h.fresh, h.seen_le, h.counts, h.few⟩

/-- A newer generation is that of a later send. -/
theorem Took.found (h : Took sent s.sends p.closing x) (h_noted : Noted s p sent)
    (h_check : x.check s.generation = .newer) :
    FoundNew s.sends p.closing x (s.generation, s.sends) := by
  obtain ⟨h_open, h_lt⟩ := Receiver.check_eq_newer h_check
  have h_closing : p.closing = false := by
    cases h_p : p.closing with
    | false => rfl
    | true => exact absurd (h_noted.isSent.inv.closed h_p) h_open
  have h_generation := h_noted.isSent.inv.counts h_closing
  refine ⟨lt_of_le_of_ne h.seen_le fun h_eq => ?_, le_refl _, fun _ => h_generation, ?_⟩
  · -- with no send in between, the generation would be the one last seen
    have h_same : x.lastSeen = s.generation := by
      rw [show x.lastSeen = _ from h.counts h_closing, h_eq]
      exact h_generation.symm
    exact BitVec.lt_irrefl _ (h_same ▸ h_lt)
  · intro e h_e
    have h_le := h.le_length h_e
    have h_written := h_noted.isSent.written
    have h_ahead : p.ahead ≤ 1 := by cases p <;> simp [SendPc.ahead]
    have h_writes := h_noted.writes
    show e.1 ≤ s.sends + 1
    omega

/-- The clone of the value for a generation that has been found. -/
theorem Took.obtain {generation : BitVec 64} {n : Nat} {v : Elem T}
    (h : Took sent s.sends p.closing x) (h_noted : Noted s p sent)
    (h_found : FoundNew s.sends p.closing x (generation, n)) (h_value : s.value = some v) :
    Took sent s.sends p.closing (x.obtain generation n v) := by
  have h_number : v.1 = sent.length :=
    (h_noted.isSent.inv.number v h_value).trans h_noted.writes
  have h_last : sent.getLast? = some v.2 := h_noted.last v h_value
  obtain ⟨h_seen, h_le, h_counts, h_near⟩ := h_found
  -- what is cloned is no older than the generation found
  have h_written := h_noted.isSent.written
  have h_writes := h_noted.writes
  have h_fresh : n ≤ v.1 := by
    simp only at h_le
    omega
  refine ⟨?_, ?_, ?_, h_le, h_counts, fun k => ?_⟩
  case refine_1 =>
    intro e h_e
    rcases List.mem_append.mp h_e with h_e | h_e
    · exact h.values e h_e
    · obtain rfl := List.mem_singleton.mp h_e
      refine ⟨by simp only at h_seen; omega, ?_⟩
      rw [h_number, ← List.getLast?_eq_getElem?]
      exact h_last
  case refine_2 =>
    show ((x.got ++ [v]).map Prod.fst).Pairwise (· ≤ ·)
    rw [List.map_append, List.map_singleton, List.pairwise_append]
    refine ⟨h.inOrder, List.pairwise_singleton _ _, fun k h_k b h_b => ?_⟩
    obtain ⟨e, h_e, rfl⟩ := List.mem_map.mp h_k
    obtain rfl := List.mem_singleton.mp h_b
    exact h_number ▸ h.le_length h_e
  case refine_3 =>
    intro e h_e
    obtain rfl : v = e := by simpa [Receiver.obtain] using h_e
    exact h_fresh
  case refine_4 =>
    obtain ⟨h_three, h_second, h_third⟩ := h.few k
    simp only at h_seen h_near
    show ((x.got ++ [v]).map Prod.fst).count k ≤ 3 ∧
      (2 ≤ ((x.got ++ [v]).map Prod.fst).count k → k ≤ n + 1) ∧
      (3 ≤ ((x.got ++ [v]).map Prod.fst).count k → k ≤ n)
    rw [List.map_append, List.map_singleton, List.count_append, List.count_singleton]
    by_cases h_k : v.1 = k
    · have h_before : 1 ≤ (x.got.map Prod.fst).count k → k ≤ n + 1 := by
        intro h_one
        obtain ⟨e, h_e, rfl⟩ := List.mem_map.mp (List.count_pos_iff.mp h_one)
        exact h_near e h_e
      simp only [beq_iff_eq, h_k, if_true]
      omega
    · simp only [beq_iff_eq, h_k, if_false]
      omega

theorem TakeInv.recvEffect (h : TakeInv sent s.sends p.closing q) (h_noted : Noted s p sent)
    (h_effect : RecvEffect s q q') : TakeInv sent s.sends p.closing q' := by
  obtain ⟨h_took, h_found, h_closed, h_noPanic⟩ := h
  cases h_effect with
  | subscribe =>
      refine ⟨fun x h_x => ?_, fun _ _ _ h => absurd h (by simp [RecvPc.found]),
        fun h => absurd h (by simp [RecvPc.saysClosed]), by simp⟩
      obtain rfl := Option.some.inj h_x
      exact ⟨by simp, by simp, by simp, le_refl _, h_noted.isSent.inv.counts, by simp⟩
  | goOn x registered h_x h_x' h_keep h_told h_q' =>
      refine ⟨fun y h_y => ?_, fun y found h_y h_some => ?_, fun h => h_closed (h_told h), h_q'⟩
      · obtain rfl := Option.some.inj (h_x'.symm.trans h_y)
        exact (h_took x h_x).setRegistered registered
      · obtain rfl := Option.some.inj (h_x'.symm.trans h_y)
        obtain ⟨h_lt, h_le, h_counts, h_near⟩ := h_found x found h_x (h_keep found h_some)
        exact ⟨h_lt, h_le, h_counts, h_near⟩
  | close x h_x h_x' h_none h_generation h_q' =>
      refine ⟨fun y h_y => ?_, fun y found _ h_some => ?_, fun _ => ?_, h_q'⟩
      · obtain rfl := Option.some.inj (h_x'.symm.trans h_y)
        exact h_took x h_x
      · exact absurd (h_none.symm.trans h_some) (by simp)
      · by_contra h_not
        obtain ⟨h_open, h_few⟩ := not_or.mp h_not
        refine h_noted.isSent.open_iff.mpr ⟨by simpa using h_open, ?_⟩ h_generation
        omega
  | find x h_x h_x' h_check h_some h_told h_q' =>
      refine ⟨fun y h_y => ?_, fun y found h_y h_some' => ?_,
        fun h => absurd (h_told.symm.trans h) (by simp), h_q'⟩
      · obtain rfl := Option.some.inj (h_x'.symm.trans h_y)
        exact h_took x h_x
      · obtain rfl := Option.some.inj (h_x'.symm.trans h_y)
        obtain rfl := Option.some.inj (h_some.symm.trans h_some')
        exact (h_took x h_x).found h_noted h_check
  | clone x generation n v h_value =>
      refine ⟨fun y h_y => ?_, fun _ _ _ h => absurd h (by simp [RecvPc.found]),
        fun h => absurd h (by simp [RecvPc.saysClosed]), by simp⟩
      obtain rfl := Option.some.inj h_y
      exact (h_took x rfl).obtain h_noted (h_found x _ rfl rfl) h_value
  | panic x generation n h_value =>
      -- the generation is that of a send, which has written its value
      obtain ⟨h_lt, h_le, -, -⟩ := h_found x _ rfl rfl
      simp only at h_lt h_le
      have h_written := h_noted.isSent.written
      obtain ⟨v, h_v⟩ := h_noted.isSent.value (by omega)
      exact absurd (h_value.symm.trans h_v) (by simp)

-- ============================================================================
-- Runs
-- ============================================================================

variable [DecidableEq R] {fuel : Nat}

/-- The invariant of the sender and all receivers. -/
structure SentInv (s : Recorded (Halves R T Waker) (List T)) : Prop where
  noted : Noted s.state.shared (s.state.left ()) s.record
  takes : ∀ r, TakeInv s.record s.state.shared.sends (s.state.left ()).closing (s.state.right r)

omit [DecidableEq R] in
/-- A step of the sender keeps what is noted. -/
theorem Noted.sendStep [DecidableEq R] {a : SendAction T} (h : Noted s p sent)
    (h_step : sendStep fuel s p a = some (s', p')) :
    Noted s' p' (match a with | .send v => sent ++ [v] | _ => sent) := by
  have h_effect := sendStep_effect h_step
  cases p <;> cases a <;> simp only [Broadcast.sendStep, reduceCtorEq] at h_step
  case idle.send v =>
    cases h_step
    refine ⟨h.isSent.effect h_effect, ?_, fun w h_w => ?_⟩
    · rw [List.length_append, ← h.writes]
      rfl
    · obtain rfl := Option.some.inj h_w
      simp
  case idle.drop | advance.next | storeLen.next =>
    cases h_step
    exact h.sendEffect h_effect rfl rfl
  case wakeAll.next =>
    split at h_step
    · cases h_step
      exact h.sendEffect h_effect rfl rfl
    · exact absurd h_step (by simp)
  case wake.next closing wakers =>
    cases wakers <;> cases h_step <;> exact h.sendEffect h_effect rfl rfl

theorem SentInv.step {s s' : Recorded (Halves R T Waker) (List T)}
    {a : Unit × SendAction T ⊕ R × RecvAction Waker} (h : SentInv s)
    (h_step : (sentMachine R T Waker fuel).step s a = some s') : SentInv s' := by
  obtain ⟨h_machine, h_record⟩ := Machine.recorded_step_eq_some.mp h_step
  obtain ⟨h_noted, h_takes⟩ := h
  rcases a with ⟨⟨⟩, a⟩ | ⟨r, a⟩
  · obtain ⟨m, p, h_sender, h_state⟩ := Families.step_left_eq_some h_machine
    have h_p : s'.state.left () = p := by
      rw [h_state]
      exact Function.update_self () p s.state.left
    have h_mono := (sendStep_effect h_sender).mono
    have h_prefix : s.record <+: s'.record := by
      rw [h_record]
      cases a with
      | send v => exact List.prefix_append _ _
      | drop | next => exact List.prefix_rfl
    constructor
    · rw [h_p, h_record, h_state]
      have h_next := h_noted.sendStep h_sender
      cases a with
      | send v | drop | next => exact h_next
    · intro r
      rw [h_p]
      have h_same : s'.state.shared = m ∧ s'.state.right = s.state.right := by
        rw [h_state]
        exact ⟨rfl, rfl⟩
      rw [h_same.1, h_same.2]
      exact (h_takes r).mono h_prefix h_mono.1 h_mono.2
  · obtain ⟨m, q, h_receiver, h_state⟩ := Families.step_right_eq_some h_machine
    obtain ⟨h_frame, h_queue⟩ := recvStep_frame h_receiver
    have h_same : s'.record = s.record := h_record
    rw [h_frame] at h_state
    constructor
    · rw [h_same, h_state]
      exact ⟨h_noted.isSent.setWaiters (h_queue h_noted.isSent.noPriorities), h_noted.writes,
        h_noted.last⟩
    · intro r'
      rw [h_same, h_state]
      show TakeInv _ _ _ (Function.update s.state.right r q r')
      by_cases h_r : r' = r
      · subst h_r
        rw [Function.update_self]
        exact (h_takes r').recvEffect h_noted (recvStep_effect h_receiver)
      · rw [Function.update_of_ne h_r]
        exact h_takes r'

theorem sentInv_init : SentInv (sentMachine R T Waker fuel).init :=
  ⟨noted_new, fun _ => takeInv_absent⟩

omit [DecidableEq R] in
theorem SentInv.obtainsSent {s : Recorded (Halves R T Waker) (List T)} (h_inv : SentInv s)
    (r : R) : ObtainsSent s r := by
  have h_r := h_inv.takes r
  have h_answer : (s.state.right r).answer = some .closed →
      (s.state.left ()).closing = true ∨ 2 ^ 64 - 1 ≤ s.state.shared.sends := by
    intro h_closed
    refine h_r.closed ?_
    cases h_q : s.state.right r with
    | idle x answer =>
        rw [h_q] at h_closed
        obtain rfl : answer = some .closed := h_closed
        rfl
    | absent | clone | setWaker | enqueue | lenAdd | recheck | remove | removed | dropRemoved
    | panicked =>
        rw [h_q] at h_closed
        exact absurd h_closed (by simp [RecvPc.answer])
  cases h_x : (s.state.right r).receiver with
  | none =>
      have h_got : (s.state.right r).got = [] := by rw [RecvPc.got, h_x]
      exact ⟨h_r.noPanic, by simp [h_got], by simp [h_got], by simp [h_got],
        fun _ _ h => absurd (h_x.symm.trans h) (by simp), h_answer⟩
  | some x =>
      have h_took := h_r.took x h_x
      have h_got : (s.state.right r).got = x.got := by rw [RecvPc.got, h_x]
      refine ⟨h_r.noPanic, ?_, ?_, fun k => ?_, fun y e h_y => ?_, h_answer⟩
      · exact h_got ▸ h_took.values
      · exact h_got ▸ h_took.inOrder
      · exact h_got ▸ (h_took.few k).1
      · obtain rfl := Option.some.inj (h_x.symm.trans h_y)
        exact h_took.fresh e

end Broadcast
end Zydon
