import Mathlib
import OrderDispatch.Ledger.Books

/-!
# From the queue into the ledger

A shift is a bookkeeper among those who submit snapshots. All of them go on in any order. The
bookkeeper does one thing at a time: it takes the oldest job in hand, hands the job in hand to the
ledger, closes the queue once it heeds the signal to stop, and ends when it finds the closed queue
empty. While both a job and the signal are there, it may go either way.

    handed ++ in hand ++ waiting = accepted                    (Shift.Sound.total)
    a bookkeeper told to stop ends within its work, and two    (Shift.ended_or_work)
      steps for every job that is submitted meanwhile
    to settle is to proceed until there is nothing to do       (Shift.keeper_settle)

Nothing here depends on whether the ledger takes what it is handed.
-/

namespace OrderDispatch

/-! ## Posting leaves the queue alone -/

theorem Books.post_withQueue (b : Books) (q : LedgerQueue) (now : Timestamp)
    (outage : Option String) (job : Ledger.Job) :
    { b with queue := q }.post now outage job =
      { (b.post now outage job) with queue := q } := by
  simp only [post]
  cases (do Ledger.reach outage; b.ledger.record job now) with
  | error => rfl
  | ok recorded =>
    obtain ⟨txRef, ledger⟩ := recorded
    cases h : b.store.setLedgerRef job.orderId txRef with
    | error | ok => simp only [h]

theorem Books.queue_post (b : Books) (now : Timestamp) (outage : Option String)
    (job : Ledger.Job) : (b.post now outage job).queue = b.queue := by
  have h := congrArg Books.queue (b.post_withQueue b.queue now outage job)
  exact h

/-! ## Shifts -/

/-- A job handed to the ledger: when, and why the ledger was out of reach, if it was. -/
structure Handing where
  job : Ledger.Job
  now : Timestamp
  outage : Option String

/-- The books after a handing. -/
def Books.receive (b : Books) (h : Handing) : Books := b.post h.now h.outage h.job

/-- A bookkeeper at work, the job in its hand, the jobs that were accepted, and those it has handed
to the ledger. -/
structure Shift where
  keeper : Bookkeeper
  inHand : Option Ledger.Job
  accepted : List Ledger.Job
  handed : List Handing

/-- Something that happens during a shift. -/
inductive ShiftEvent where
  /-- Somebody submits a snapshot of an order. -/
  | submit (order : Order)
  | start
  /-- The bookkeeper is told to stop. -/
  | stop
  /-- The bookkeeper does the next thing. It may heed the signal before the jobs that wait. -/
  | proceed (heeds : Bool) (now : Timestamp) (outage : Option String)

namespace ShiftEvent

/-- The job that is submitted. -/
def job? : ShiftEvent → Option Ledger.Job
  | submit o => some (.ofOrder o)
  | _ => none

/-- Whether the bookkeeper does something. -/
def proceeds : ShiftEvent → Bool
  | proceed .. => true
  | _ => false

end ShiftEvent

namespace Shift

/-- The queue between those who submit and the bookkeeper. -/
def queue (s : Shift) : LedgerQueue := s.keeper.books.queue

/-- The shift as it begins. -/
def ofBooks (b : Books) : Shift := ⟨.ofBooks b, none, [], []⟩

/-- The next thing that the bookkeeper does, if it is running. -/
def proceed (heeds : Bool) (now : Timestamp) (outage : Option String) (s : Shift) : Shift :=
  match s.keeper.phase with
  | .ready | .ended => s
  | .running =>
    match s.inHand with
    | some job => { s with
        keeper.books := s.keeper.books.receive ⟨job, now, outage⟩
        inHand := none
        handed := s.handed ++ [⟨job, now, outage⟩] }
    | none =>
      if s.queue.isOpen && s.queue.closing && (heeds || s.queue.waiting.isEmpty) then
        { s with keeper.books.queue := s.queue.shut }
      else
        match s.queue.waiting with
        | job :: _ => { s with keeper.books.queue := s.queue.advance, inHand := some job }
        | [] =>
          if s.queue.isOpen && s.keeper.supplied then s
          else { s with keeper.books.queue := s.queue.shut, keeper.phase := .ended }

/-- The shift after an event. -/
def after (s : Shift) : ShiftEvent → Shift
  | .submit o => { s with
      keeper := s.keeper.submit o
      accepted := s.accepted ++
        if s.keeper.supplied ∧ s.queue.fate = .accepted then [.ofOrder o] else [] }
  | .start => { s with keeper := s.keeper.start }
  | .stop => { s with keeper := s.keeper.stop }
  | .proceed heeds now outage => s.proceed heeds now outage

/-- The shift after some events. -/
def run (b : Books) (events : List ShiftEvent) : Shift := events.foldl after (ofBooks b)

theorem run_append (b : Books) (events more : List ShiftEvent) :
    run b (events ++ more) = more.foldl after (run b events) :=
  List.foldl_append

/-- What the next thing is that the bookkeeper does. -/
inductive Proceeds (now : Timestamp) (outage : Option String) (s : Shift) : Shift → Prop where
  | off (phase : s.keeper.phase ≠ .running) : Proceeds now outage s s
  | handed (job : Ledger.Job) (phase : s.keeper.phase = .running) (hand : s.inHand = some job) :
      Proceeds now outage s { s with
        keeper.books := s.keeper.books.receive ⟨job, now, outage⟩
        inHand := none
        handed := s.handed ++ [⟨job, now, outage⟩] }
  | closed (phase : s.keeper.phase = .running) (hand : s.inHand = none)
      (isOpen : s.queue.isOpen = true) (closing : s.queue.closing = true) :
      Proceeds now outage s { s with keeper.books.queue := s.queue.shut }
  | took (job : Ledger.Job) (rest : List Ledger.Job) (phase : s.keeper.phase = .running)
      (hand : s.inHand = none) (waiting : s.queue.waiting = job :: rest) :
      Proceeds now outage s
        { s with keeper.books.queue := s.queue.advance, inHand := some job }
  /-- Nothing waits, but something may still come. -/
  | waited (phase : s.keeper.phase = .running) (hand : s.inHand = none)
      (waiting : s.queue.waiting = []) (closing : s.queue.closing = false) :
      Proceeds now outage s s
  | ended (phase : s.keeper.phase = .running) (hand : s.inHand = none)
      (waiting : s.queue.waiting = [])
      (isOver : s.queue.isOpen = false ∨ s.keeper.supplied = false) :
      Proceeds now outage s { s with keeper.books.queue := s.queue.shut, keeper.phase := .ended }

theorem proceeds_proceed (heeds : Bool) (now : Timestamp) (outage : Option String) (s : Shift) :
    Proceeds now outage s (s.proceed heeds now outage) := by
  unfold proceed
  split
  · next hphase => exact .off (by rw [hphase]; decide)
  · next hphase => exact .off (by rw [hphase]; decide)
  next hphase =>
  split
  · next job hhand => exact .handed job hphase hhand
  next hhand =>
  split
  · next hheeds =>
    simp only [Bool.and_eq_true] at hheeds
    exact .closed hphase hhand hheeds.1.1 hheeds.1.2
  next hheeds =>
  split
  · next job rest hwaiting => exact .took job rest hphase hhand hwaiting
  next hwaiting =>
  split
  · next hopen =>
    simp only [Bool.and_eq_true] at hopen
    refine .waited hphase hhand hwaiting ?_
    simpa [hopen.1, hwaiting] using hheeds
  · next hopen =>
    refine .ended hphase hhand hwaiting ?_
    simpa only [Bool.and_eq_true, not_and_or, Bool.not_eq_true] using hopen

/-! ## Accounts -/

/-- The accounts of a shift: what was accepted has been handed on, is in hand, or waits; there is
room for what waits; who is not running has nothing in hand; and the queue is shut by the signal
alone. -/
structure Sound (capacity : Nat) (s : Shift) : Prop where
  total : s.handed.map (·.job) ++ (s.inHand.toList ++ s.queue.waiting) = s.accepted
  size : s.queue.capacity = max capacity 1
  room : s.queue.waiting.length ≤ max capacity 1
  supplied : s.keeper.supplied = true
  idle : s.keeper.phase ≠ .running → s.inHand = none
  shut : s.queue.isOpen = false → s.queue.closing = true
  ended : s.keeper.phase = .ended → s.queue.waiting = [] ∧ s.queue.isOpen = false

theorem sound_ofBooks (capacity : Nat) (store : OrderStore) (ledger : Ledger) :
    (ofBooks ⟨store, ledger, .ofCapacity capacity⟩).Sound capacity where
  total := rfl
  size := rfl
  room := Nat.zero_le _
  supplied := rfl
  idle _ := rfl
  shut h := by cases h
  ended h := by cases h

/-- A submission is taken while the queue is open and has a free place. -/
theorem fate_eq (capacity : Nat) (s : Shift) (hs : s.Sound capacity) :
    s.queue.fate = .accepted ↔
      ¬ (s.queue.waiting.length = max capacity 1 ∨ s.queue.isOpen = false) := by
  have hroom := hs.room
  unfold LedgerQueue.fate
  rw [hs.size]
  cases s.queue.isOpen with
  | false => simp
  | true =>
    simp only [Bool.not_true, Bool.false_eq_true, Bool.true_eq_false, if_false, or_false]
    split
    · next hlt => exact iff_of_true rfl (Nat.ne_of_lt hlt)
    · next hge => exact iff_of_false (by decide) (not_not.2 (Nat.le_antisymm hroom (not_lt.1 hge)))

/-- What becomes of a snapshot that is submitted. -/
theorem after_submit (capacity : Nat) (s : Shift) (hs : s.Sound capacity) (o : Order) :
    s.after (.submit o) =
      if s.queue.waiting.length = max capacity 1 ∨ s.queue.isOpen = false then s
      else { s with
        keeper.books.queue.waiting := s.queue.waiting ++ [.ofOrder o]
        accepted := s.accepted ++ [.ofOrder o] } := by
  have hfate := fate_eq capacity s hs
  have hkeeper : s.keeper.submit o =
      { s.keeper with books.queue := s.queue.submit (.ofOrder o) } := by
    unfold Bookkeeper.submit
    rw [if_pos hs.supplied]
    rfl
  show (⟨s.keeper.submit o, s.inHand, s.accepted ++ _, s.handed⟩ : Shift) = _
  rw [hkeeper]
  unfold LedgerQueue.submit
  by_cases hdropped : s.queue.waiting.length = max capacity 1 ∨ s.queue.isOpen = false
  · rw [if_pos hdropped, if_neg (fun h => hfate.1 h.2 hdropped), List.append_nil]
    cases h : s.queue.fate with
    | accepted => exact absurd hdropped (hfate.1 h)
    | full | closed => rfl
  · rw [if_neg hdropped, if_pos ⟨hs.supplied, hfate.2 hdropped⟩, hfate.2 hdropped]
    rfl

theorem sound_submit (capacity : Nat) (s : Shift) (hs : s.Sound capacity) (o : Order) :
    (s.after (.submit o)).Sound capacity := by
  rw [after_submit capacity s hs]
  split
  · exact hs
  · next hfree =>
    rw [not_or] at hfree
    have hroom := hs.room
    constructor
    · show s.handed.map (·.job) ++ (s.inHand.toList ++ (s.queue.waiting ++ [.ofOrder o])) =
        s.accepted ++ [.ofOrder o]
      rw [← hs.total]
      simp only [List.append_assoc]
    · exact hs.size
    · show (s.queue.waiting ++ [Ledger.Job.ofOrder o]).length ≤ _
      rw [List.length_append, List.length_singleton]
      exact Nat.lt_of_le_of_ne hroom hfree.1
    · exact hs.supplied
    · exact hs.idle
    · exact hs.shut
    · intro hended
      exact absurd (hs.ended hended).2 hfree.2

theorem sound_proceeds (capacity : Nat) (now : Timestamp) (outage : Option String) (s t : Shift)
    (hs : s.Sound capacity) (h : Proceeds now outage s t) : t.Sound capacity := by
  cases h with
  | off | waited => exact hs
  | handed job phase hand =>
    have hqueue : (s.keeper.books.receive ⟨job, now, outage⟩).queue = s.queue :=
      Books.queue_post _ _ _ _
    constructor
    · show (s.handed ++ [(⟨job, now, outage⟩ : Handing)]).map (·.job) ++
        ([] ++ (s.keeper.books.receive ⟨job, now, outage⟩).queue.waiting) = s.accepted
      rw [hqueue, ← hs.total, hand]
      simp
    · exact (congrArg (·.capacity) hqueue).trans hs.size
    · exact (congrArg (·.waiting.length) hqueue).trans_le hs.room
    · exact hs.supplied
    · intro _
      rfl
    · rw [show ({ s with
        keeper.books := s.keeper.books.receive ⟨job, now, outage⟩
        inHand := none
        handed := s.handed ++ [⟨job, now, outage⟩] } : Shift).queue = s.queue from hqueue]
      exact hs.shut
    · intro hended
      cases phase.symm.trans hended
  | closed phase hand isOpen closing =>
    refine ⟨hs.total, hs.size, hs.room, hs.supplied, hs.idle, fun _ => closing, fun hended => ?_⟩
    cases phase.symm.trans hended
  | took job rest phase hand waiting =>
    have hadvance : s.queue.advance.waiting = rest := congrArg List.tail waiting
    constructor
    · show s.handed.map (·.job) ++ ([job] ++ s.queue.advance.waiting) = s.accepted
      rw [hadvance, ← hs.total, hand, waiting]
      rfl
    · exact hs.size
    · have hroom := hs.room
      show s.queue.advance.waiting.length ≤ _
      rw [waiting, List.length_cons] at hroom
      rw [hadvance]
      omega
    · exact hs.supplied
    · exact fun hphase => absurd phase hphase
    · exact hs.shut
    · intro hended
      cases phase.symm.trans hended
  | ended phase hand waiting isOver =>
    have hopen : s.queue.isOpen = false := isOver.resolve_right (by rw [hs.supplied]; decide)
    exact ⟨hs.total, hs.size, hs.room, hs.supplied, fun _ => hand, fun _ => hs.shut hopen,
      fun _ => ⟨waiting, rfl⟩⟩

theorem sound_after (capacity : Nat) (s : Shift) (hs : s.Sound capacity) (e : ShiftEvent) :
    (s.after e).Sound capacity := by
  cases e with
  | submit o => exact sound_submit capacity s hs o
  | start =>
    show Sound capacity { s with keeper := s.keeper.start }
    unfold Bookkeeper.start
    split
    · next hready =>
      have hfree := hs.idle (by rw [hready]; decide)
      exact ⟨hs.total, hs.size, hs.room, hs.supplied, fun _ => hfree, hs.shut,
        fun h => by cases h⟩
    · exact hs
  | stop => exact ⟨hs.total, hs.size, hs.room, hs.supplied, hs.idle, fun _ => rfl, hs.ended⟩
  | proceed heeds now outage =>
    exact sound_proceeds capacity now outage s _ hs (proceeds_proceed heeds now outage s)

theorem sound_foldl (capacity : Nat) (s : Shift) (hs : s.Sound capacity)
    (events : List ShiftEvent) : (events.foldl after s).Sound capacity := by
  induction events generalizing s with
  | nil => exact hs
  | cons e events ih => exact ih (s.after e) (sound_after capacity s hs e)

theorem sound_run (capacity : Nat) (store : OrderStore) (ledger : Ledger)
    (events : List ShiftEvent) :
    (run ⟨store, ledger, .ofCapacity capacity⟩ events).Sound capacity :=
  sound_foldl capacity _ (sound_ofBooks capacity store ledger) events

/-! ## Beginning, closing and ending -/

theorem closing_proceeds (now : Timestamp) (outage : Option String) (s t : Shift)
    (h : Proceeds now outage s t) : t.queue.closing = s.queue.closing := by
  cases h with
  | handed job =>
    exact congrArg LedgerQueue.closing (Books.queue_post s.keeper.books now outage job)
  | off | closed | took | waited | ended => rfl

theorem closing_after (capacity : Nat) (s : Shift) (hs : s.Sound capacity) (e : ShiftEvent) :
    (s.after e).queue.closing = true ↔ s.queue.closing = true ∨ e = .stop := by
  cases e with
  | submit o =>
    rw [after_submit capacity s hs]
    split <;> simp [queue]
  | start =>
    have hstart : (s.after .start).queue = s.queue := by
      show s.keeper.start.books.queue = s.keeper.books.queue
      unfold Bookkeeper.start
      split <;> rfl
    rw [hstart]
    simp
  | stop => exact iff_of_true rfl (.inr rfl)
  | proceed heeds now outage =>
    show (s.proceed heeds now outage).queue.closing = true ↔ _
    rw [closing_proceeds now outage s _ (proceeds_proceed heeds now outage s)]
    simp

/-- The queue is closing from the signal on. -/
theorem closing_run (capacity : Nat) (store : OrderStore) (ledger : Ledger)
    (events : List ShiftEvent) :
    (run ⟨store, ledger, .ofCapacity capacity⟩ events).queue.closing = true ↔
      .stop ∈ events := by
  induction events using List.reverseRecOn with
  | nil => exact iff_of_false Bool.false_ne_true List.not_mem_nil
  | append_singleton events e ih =>
    rw [run_append, List.foldl_cons, List.foldl_nil,
      closing_after capacity _ (sound_run capacity store ledger events), ih, List.mem_append,
      List.mem_singleton, eq_comm]

theorem ready_proceeds (now : Timestamp) (outage : Option String) (s t : Shift)
    (h : Proceeds now outage s t) : t.keeper.phase = .ready ↔ s.keeper.phase = .ready := by
  cases h with
  | off | handed | closed | took | waited => exact .rfl
  | ended phase => exact iff_of_false BookkeeperPhase.noConfusion (by rw [phase]; decide)

theorem ready_after (s : Shift) (e : ShiftEvent) :
    (s.after e).keeper.phase = .ready ↔ s.keeper.phase = .ready ∧ e ≠ .start := by
  cases e with
  | submit o =>
    have hphase : (s.after (.submit o)).keeper.phase = s.keeper.phase := by
      show (s.keeper.submit o).phase = _
      unfold Bookkeeper.submit
      split <;> rfl
    rw [hphase]
    simp
  | start =>
    refine iff_of_false ?_ (fun h => h.2 rfl)
    show s.keeper.start.phase ≠ .ready
    unfold Bookkeeper.start
    split
    · exact BookkeeperPhase.noConfusion
    · assumption
  | stop =>
    show s.keeper.phase = .ready ↔ _
    simp
  | proceed heeds now outage =>
    show (s.proceed heeds now outage).keeper.phase = .ready ↔ _
    rw [ready_proceeds now outage s _ (proceeds_proceed heeds now outage s)]
    simp

/-- The bookkeeper is at work, or has ended, once it was told to start. -/
theorem ready_run (b : Books) (events : List ShiftEvent) :
    (run b events).keeper.phase = .ready ↔ .start ∉ events := by
  induction events using List.reverseRecOn with
  | nil => exact iff_of_true rfl List.not_mem_nil
  | append_singleton events e ih =>
    rw [run_append, List.foldl_cons, List.foldl_nil, ready_after, ih, List.mem_append,
      List.mem_singleton, not_or, ne_comm]

/-- Once the queue is shut it takes nothing more, and a bookkeeper that has ended hands over
nothing more. -/
structure Over (s t : Shift) : Prop where
  shut : s.queue.isOpen = false → t.queue.isOpen = false ∧ t.accepted = s.accepted
  ended : s.keeper.phase = .ended → t.keeper.phase = .ended ∧ t.handed = s.handed

theorem over_proceeds (now : Timestamp) (outage : Option String) (s t : Shift)
    (h : Proceeds now outage s t) : Over s t := by
  cases h with
  | off | waited => exact ⟨fun h => ⟨h, rfl⟩, fun h => ⟨h, rfl⟩⟩
  | handed job phase =>
    have hopen := congrArg LedgerQueue.isOpen (Books.queue_post s.keeper.books now outage job)
    exact ⟨fun h => ⟨hopen.trans h, rfl⟩, fun h => by cases phase.symm.trans h⟩
  | closed phase => exact ⟨fun _ => ⟨rfl, rfl⟩, fun h => by cases phase.symm.trans h⟩
  | took job rest phase => exact ⟨fun h => ⟨h, rfl⟩, fun h => by cases phase.symm.trans h⟩
  | ended phase => exact ⟨fun _ => ⟨rfl, rfl⟩, fun h => by cases phase.symm.trans h⟩

theorem over_after (capacity : Nat) (s : Shift) (hs : s.Sound capacity) (e : ShiftEvent) :
    Over s (s.after e) := by
  cases e with
  | submit o =>
    rw [after_submit capacity s hs]
    split
    · exact ⟨fun h => ⟨h, rfl⟩, fun h => ⟨h, rfl⟩⟩
    · next hfree => exact ⟨fun h => absurd (.inr h) hfree, fun h => ⟨h, rfl⟩⟩
  | start =>
    show Over s { s with keeper := s.keeper.start }
    unfold Bookkeeper.start
    split
    · next hready => exact ⟨fun h => ⟨h, rfl⟩, fun h => by cases hready.symm.trans h⟩
    · exact ⟨fun h => ⟨h, rfl⟩, fun h => ⟨h, rfl⟩⟩
  | stop => exact ⟨fun h => ⟨h, rfl⟩, fun h => ⟨h, rfl⟩⟩
  | proceed heeds now outage =>
    exact over_proceeds now outage s _ (proceeds_proceed heeds now outage s)

theorem over_foldl (capacity : Nat) (s : Shift) (hs : s.Sound capacity)
    (events : List ShiftEvent) : Over s (events.foldl after s) := by
  induction events generalizing s with
  | nil => exact ⟨fun h => ⟨h, rfl⟩, fun h => ⟨h, rfl⟩⟩
  | cons e events ih =>
    have hfirst := over_after capacity s hs e
    have hrest := ih (s.after e) (sound_after capacity s hs e)
    refine ⟨fun h => ?_, fun h => ?_⟩
    · obtain ⟨hshut, haccepted⟩ := hfirst.shut h
      exact ⟨(hrest.shut hshut).1, (hrest.shut hshut).2.trans haccepted⟩
    · obtain ⟨hended, hhanded⟩ := hfirst.ended h
      exact ⟨(hrest.ended hended).1, (hrest.ended hended).2.trans hhanded⟩

/-! ## What was submitted, and what becomes of the books -/

theorem accepted_proceeds (now : Timestamp) (outage : Option String) (s t : Shift)
    (h : Proceeds now outage s t) : t.accepted = s.accepted := by
  cases h with
  | off | handed | closed | took | waited | ended => rfl

/-- What is accepted was submitted, in this order. -/
theorem accepted_sublist (b : Books) (events : List ShiftEvent) :
    (run b events).accepted.Sublist (events.filterMap ShiftEvent.job?) := by
  induction events using List.reverseRecOn with
  | nil => exact .refl _
  | append_singleton events e ih =>
    rw [run_append, List.foldl_cons, List.foldl_nil, List.filterMap_append]
    generalize run b events = s at ih
    cases e with
    | submit o =>
      refine ih.append ?_
      split
      · exact .refl _
      · exact List.nil_sublist _
    | start | stop => exact ih.trans (List.sublist_append_left _ _)
    | proceed heeds now outage =>
      show (s.proceed heeds now outage).accepted.Sublist _
      rw [accepted_proceeds now outage s _ (proceeds_proceed heeds now outage s)]
      exact ih.trans (List.sublist_append_left _ _)

theorem books_proceeds (now : Timestamp) (outage : Option String) (s t : Shift)
    (h : Proceeds now outage s t) (b : Books)
    (hs : { s.keeper.books with queue := b.queue } = s.handed.foldl Books.receive b) :
    { t.keeper.books with queue := b.queue } = t.handed.foldl Books.receive b := by
  cases h with
  | off | closed | took | waited | ended => exact hs
  | handed job =>
    rw [List.foldl_append, ← hs]
    exact (s.keeper.books.post_withQueue b.queue now outage job).symm

/-- But for the queue, the books are what the handings make of them, one by one. -/
theorem books_run (b : Books) (events : List ShiftEvent) :
    { (run b events).keeper.books with queue := b.queue } =
      (run b events).handed.foldl Books.receive b := by
  induction events using List.reverseRecOn with
  | nil => rfl
  | append_singleton events e ih =>
    rw [run_append, List.foldl_cons, List.foldl_nil]
    generalize run b events = s at ih
    cases e with
    | submit o =>
      refine Eq.trans ?_ ih
      show { (s.keeper.submit o).books with queue := b.queue } = _
      unfold Bookkeeper.submit
      split <;> rfl
    | start =>
      refine Eq.trans ?_ ih
      show { s.keeper.start.books with queue := b.queue } = _
      unfold Bookkeeper.start
      split <;> rfl
    | stop => exact ih
    | proceed heeds now outage =>
      exact books_proceeds now outage s _ (proceeds_proceed heeds now outage s) b ih

/-! ## The bookkeeper that was told to stop -/

/-- At most how often a bookkeeper that was told to stop must proceed until it has ended. -/
def work (s : Shift) : Nat :=
  2 * s.queue.waiting.length + s.inHand.toList.length + s.queue.isOpen.toNat +
    if s.keeper.phase = .ended then 0 else 1

theorem work_proceeds (now : Timestamp) (outage : Option String) (s t : Shift)
    (h : Proceeds now outage s t) (running : s.keeper.phase = .running)
    (closing : s.queue.closing = true) : t.work + 1 ≤ s.work := by
  cases h with
  | off phase => exact absurd running phase
  | handed job phase hand =>
    have hqueue : (s.keeper.books.receive ⟨job, now, outage⟩).queue = s.queue :=
      Books.queue_post _ _ _ _
    show 2 * (s.keeper.books.receive ⟨job, now, outage⟩).queue.waiting.length + 0 +
      (s.keeper.books.receive ⟨job, now, outage⟩).queue.isOpen.toNat +
      (if s.keeper.phase = .ended then 0 else 1) + 1 ≤ s.work
    rw [work, hqueue, hand, Option.toList_some, List.length_singleton]
    omega
  | closed phase hand isOpen =>
    show 2 * s.queue.waiting.length + s.inHand.toList.length + 0 +
      (if s.keeper.phase = .ended then 0 else 1) + 1 ≤ s.work
    rw [work, isOpen, Bool.toNat_true]
    omega
  | took job rest phase hand waiting =>
    have hadvance : s.queue.advance.waiting = rest := congrArg List.tail waiting
    show 2 * s.queue.advance.waiting.length + 1 + s.queue.isOpen.toNat +
      (if s.keeper.phase = .ended then 0 else 1) + 1 ≤ s.work
    rw [work, hadvance, waiting, hand, List.length_cons, Option.toList_none, List.length_nil]
    omega
  | waited phase hand waiting still => cases closing.symm.trans still
  | ended phase hand waiting =>
    show 2 * s.queue.waiting.length + s.inHand.toList.length + 0 + 0 + 1 ≤ s.work
    rw [work, phase, if_neg (by decide)]
    omega

theorem work_after (capacity : Nat) (s : Shift) (hs : s.Sound capacity) (e : ShiftEvent)
    (running : s.keeper.phase = .running) (closing : s.queue.closing = true) :
    (s.after e).work + [e].countP (·.proceeds) ≤
      s.work + 2 * ([e].filterMap ShiftEvent.job?).length := by
  cases e with
  | submit o =>
    rw [after_submit capacity s hs]
    split
    · exact Nat.le_add_right _ _
    · show 2 * (s.queue.waiting ++ [Ledger.Job.ofOrder o]).length + s.inHand.toList.length +
        s.queue.isOpen.toNat + (if s.keeper.phase = .ended then 0 else 1) + 0 ≤ s.work + 2
      rw [work, List.length_append, List.length_singleton]
      omega
  | start =>
    have hstart : s.keeper.start = s.keeper := by
      unfold Bookkeeper.start
      rw [if_neg (by rw [running]; decide)]
    show ({ s with keeper := s.keeper.start } : Shift).work + 0 ≤ s.work + 0
    rw [hstart]
  | stop => exact Nat.le_refl _
  | proceed heeds now outage =>
    exact work_proceeds now outage s _ (proceeds_proceed heeds now outage s) running closing

/-- A bookkeeper that was told to stop ends within its work, and two steps for each job that is
submitted meanwhile. -/
theorem ended_or_work (capacity : Nat) (s : Shift) (hs : s.Sound capacity)
    (running : s.keeper.phase = .running) (closing : s.queue.closing = true)
    (events : List ShiftEvent) :
    (events.foldl after s).keeper.phase = .ended ∨
      (events.foldl after s).work + events.countP (·.proceeds) ≤
        s.work + 2 * (events.filterMap ShiftEvent.job?).length := by
  induction events generalizing s with
  | nil => exact .inr (Nat.le_refl _)
  | cons e events ih =>
    have hnext := sound_after capacity s hs e
    have hwork := work_after capacity s hs e running closing
    cases hphase : (s.after e).keeper.phase with
    | ready =>
      have h := ((ready_after s e).1 hphase).1
      cases running.symm.trans h
    | ended => exact .inl ((over_foldl capacity _ hnext events).ended hphase).1
    | running =>
      refine (ih (s.after e) hnext hphase ?_).imp_right fun hrest => ?_
      · exact (closing_after capacity s hs e).2 (.inl closing)
      · rw [← List.singleton_append, List.countP_append, List.filterMap_append,
          List.length_append, List.foldl_append]
        simp only [List.foldl_cons, List.foldl_nil]
        omega

theorem ended_of_work (capacity : Nat) (s : Shift) (hs : s.Sound capacity)
    (begun : s.keeper.phase ≠ .ready) (closing : s.queue.closing = true)
    (events : List ShiftEvent)
    (enough : s.work + 2 * (events.filterMap ShiftEvent.job?).length ≤
      events.countP (·.proceeds)) :
    (events.foldl after s).keeper.phase = .ended := by
  cases hphase : s.keeper.phase with
  | ready => exact absurd hphase begun
  | ended => exact ((over_foldl capacity s hs events).ended hphase).1
  | running =>
    refine (ended_or_work capacity s hs hphase closing events).elim id fun hwork => ?_
    -- No work is left, so the bookkeeper has ended.
    by_contra hrunning
    have hsome : 1 ≤ (events.foldl after s).work := by
      unfold work
      rw [if_neg hrunning]
      exact Nat.le_add_left _ _
    omega

/-! ## Catching up -/

theorem repeat_succ {α : Type} (f : α → α) (n : Nat) (a : α) :
    (n + 1).repeat f a = n.repeat f (f a) := by
  induction n with
  | zero => rfl
  | succ n ih => exact congrArg f ih

/-- Two steps hand over the oldest job. -/
theorem proceed_twice (now : Timestamp) (outage : Option String) (s : Shift) (job : Ledger.Job)
    (rest : List Ledger.Job) (running : s.keeper.phase = .running) (hand : s.inHand = none)
    (waiting : s.queue.waiting = job :: rest) :
    (s.proceed false now outage).proceed false now outage =
      { s with
        keeper.books := s.keeper.books.postNext now outage
        handed := s.handed ++ [⟨job, now, outage⟩] } := by
  have htook : s.proceed false now outage =
      { s with keeper.books.queue := s.queue.advance, inHand := some job } := by
    simp [proceed, running, hand, waiting]
  have hpost : s.keeper.books.postNext now outage =
      ({ s.keeper.books with queue := s.queue.advance }).post now outage job := by
    simp only [queue] at waiting
    simp only [Books.postNext, waiting, queue]
  rw [htook, hpost]
  simp [proceed, running, Books.receive, hand]

/-- With nothing in hand, twice as many steps as jobs wait hand over all that wait. -/
theorem proceed_drain (now : Timestamp) (outage : Option String) (waiting : List Ledger.Job)
    (s : Shift) (running : s.keeper.phase = .running) (hand : s.inHand = none)
    (hwaiting : s.queue.waiting = waiting) :
    ((proceed false now outage)^[2 * waiting.length] s).keeper =
        { s.keeper with books := waiting.length.repeat (.postNext now outage) s.keeper.books } ∧
      ((proceed false now outage)^[2 * waiting.length] s).inHand = none ∧
      (waiting.length.repeat (.postNext now outage) s.keeper.books).queue =
        { s.queue with waiting := [] } := by
  induction waiting generalizing s with
  | nil =>
    refine ⟨rfl, hand, ?_⟩
    show s.queue = { s.queue with waiting := [] }
    rw [← hwaiting]
  | cons job rest ih =>
    have hqueue : (s.keeper.books.postNext now outage).queue = { s.queue with waiting := rest } := by
      simp only [queue] at hwaiting
      simp only [Books.postNext, hwaiting]
      exact (Books.queue_post _ _ _ _).trans (by
        simp only [LedgerQueue.advance, hwaiting, List.tail_cons, queue])
    have hrest := ih
      { s with
        keeper.books := s.keeper.books.postNext now outage
        handed := s.handed ++ [⟨job, now, outage⟩] }
      running hand (congrArg LedgerQueue.waiting hqueue)
    rw [List.length_cons, repeat_succ, Nat.mul_succ, Function.iterate_add_apply]
    rw [show (proceed false now outage)^[2] s = _ from
      proceed_twice now outage s job rest running hand hwaiting]
    refine ⟨hrest.1, hrest.2.1, hrest.2.2.trans ?_⟩
    show { (s.keeper.books.postNext now outage).queue with waiting := [] } = _
    rw [hqueue]

/-- To settle is to proceed until there is nothing to do. -/
theorem keeper_settle (now : Timestamp) (outage : Option String) (s : Shift)
    (hand : s.inHand = none) :
    ((proceed false now outage)^[2 * s.queue.waiting.length + 2] s).keeper =
      s.keeper.settle now outage := by
  cases hphase : s.keeper.phase with
  | ready | ended =>
    have hfixed : s.proceed false now outage = s := by
      unfold proceed
      rw [hphase]
    rw [Function.iterate_fixed hfixed]
    unfold Bookkeeper.settle
    rw [hphase]
  | running =>
    obtain ⟨hkeeper, hfree, hqueue⟩ := proceed_drain now outage _ s hphase hand rfl
    rw [Nat.add_comm, Function.iterate_add_apply]
    generalize (proceed false now outage)^[2 * s.queue.waiting.length] s = t at hkeeper hfree
    obtain ⟨keeper, inHand, accepted, handed⟩ := t
    subst hkeeper hfree
    show ((proceed false now outage) ((proceed false now outage) _)).keeper = _
    simp only [queue] at hqueue ⊢
    cases hopen : s.keeper.books.queue.isOpen <;> cases hclosing : s.keeper.books.queue.closing <;>
      cases hsupplied : s.keeper.supplied <;>
      simp [proceed, Bookkeeper.settle, Books.catchUp, queue, hphase, hqueue, hopen, hclosing,
        hsupplied, LedgerQueue.shut]

/-! ## Nothing is lost -/

/-- Whatever happens in whatever order, and whether or not the ledger takes the jobs: what was
submitted is dropped just if the queue is full or shut, and all else is handed to the ledger once, in
order. A bookkeeper that was told to stop hands over whatever was accepted, and nothing after that. -/
theorem nothing_lost (capacity : Nat) (store : OrderStore) (ledger : Ledger)
    (events : List ShiftEvent) :
    let b : Books := ⟨store, ledger, .ofCapacity capacity⟩
    let s := run b events
    s.handed.map (·.job) ++ (s.inHand.toList ++ s.queue.waiting) = s.accepted ∧
      s.accepted.Sublist (events.filterMap ShiftEvent.job?) ∧
      { s.keeper.books with queue := b.queue } = s.handed.foldl Books.receive b ∧
      s.queue.waiting.length ≤ max capacity 1 ∧
      (∀ o, run b (events ++ [.submit o]) =
        if s.queue.waiting.length = max capacity 1 ∨ s.queue.isOpen = false then s
        else { s with
          keeper.books.queue.waiting := s.queue.waiting ++ [.ofOrder o]
          accepted := s.accepted ++ [.ofOrder o] }) ∧
      (s.queue.isOpen = false → .stop ∈ events ∧
        ∀ more, (run b (events ++ more)).queue.isOpen = false ∧
          (run b (events ++ more)).accepted = s.accepted) ∧
      (s.keeper.phase = .ended → s.queue.isOpen = false ∧ s.handed.map (·.job) = s.accepted ∧
        ∀ more, (run b (events ++ more)).keeper.phase = .ended ∧
          (run b (events ++ more)).handed = s.handed) ∧
      (.start ∈ events → .stop ∈ events → ∀ more,
        s.work + 2 * (more.filterMap ShiftEvent.job?).length ≤ more.countP (·.proceeds) →
        (run b (events ++ more)).keeper.phase = .ended) ∧
      (s.inHand = none → ∀ now outage,
        ((proceed false now outage)^[2 * s.queue.waiting.length + 2] s).keeper =
          s.keeper.settle now outage) := by
  intro b s
  have hs : s.Sound capacity := sound_run capacity store ledger events
  have hover (more : List ShiftEvent) : Over s (run b (events ++ more)) := by
    rw [run_append]
    exact over_foldl capacity s hs more
  refine ⟨hs.total, accepted_sublist b events, books_run b events, hs.room, ?_, ?_, ?_, ?_, ?_⟩
  · intro o
    rw [run_append]
    exact after_submit capacity s hs o
  · intro hshut
    exact ⟨(closing_run capacity store ledger events).1 (hs.shut hshut),
      fun more => (hover more).shut hshut⟩
  · intro hended
    obtain ⟨hwaiting, hshut⟩ := hs.ended hended
    have hhand : s.inHand = none := hs.idle (by rw [hended]; decide)
    have htotal := hs.total
    rw [hhand, hwaiting] at htotal
    refine ⟨hshut, ?_, fun more => (hover more).ended hended⟩
    simpa only [Option.toList_none, List.append_nil] using htotal
  · intro hstart hstop more henough
    have hbegun : s.keeper.phase ≠ .ready := fun h => (ready_run b events).1 h hstart
    have hclosing := (closing_run capacity store ledger events).2 hstop
    rw [run_append]
    exact ended_of_work capacity s hs hbegun hclosing more henough
  · intro hhand now outage
    exact keeper_settle now outage s hhand

/-- Two snapshots are submitted to a queue of one place, and then the bookkeeper starts and is told
to stop. -/
def crowded : List ShiftEvent :=
  [.submit default, .submit { (default : Order) with id := "o-1" }, .start, .stop]

/-- The bookkeeper goes on while the ledger is out of reach. -/
def closingTime : List ShiftEvent := List.replicate 4 (.proceed true 0 (some "down"))

theorem nothing_lost_crowded :
    let s := run (.ofCapacity 0) (crowded ++ closingTime)
    s.keeper.phase = .ended ∧ s.handed.map (·.job) = [.ofOrder default] ∧
      ∀ more, (run (.ofCapacity 0) (crowded ++ closingTime ++ more)).handed = s.handed := by
  obtain ⟨-, -, -, -, -, -, -, hends, -⟩ := nothing_lost 0 .empty .empty crowded
  have hended : (run (.ofCapacity 0) (crowded ++ closingTime)).keeper.phase = .ended :=
    hends (by simp [crowded]) (by simp [crowded]) closingTime (by decide)
  obtain ⟨-, -, -, -, -, -, hlast, -, -⟩ := nothing_lost 0 .empty .empty (crowded ++ closingTime)
  obtain ⟨-, hhanded, hstays⟩ := hlast hended
  exact ⟨hended, hhanded, fun more => (hstays more).2⟩

end Shift

end OrderDispatch
