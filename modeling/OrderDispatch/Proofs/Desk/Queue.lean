import OrderDispatch.Proofs.Desk.Run

/-!
# The ledger queue along a run

A step submits one snapshot, takes one out, or leaves the queue alone, unless it is shut.

    a run of at most as many steps as the queue has places drops nothing      (accepted_of_room)
    n steps of the bookkeeper take out n jobs, or all there are               (waiting_posts)
-/

namespace OrderDispatch

namespace LedgerQueue

theorem submit_isOpen (q : LedgerQueue) (job : Ledger.Job) : (q.submit job).isOpen = q.isOpen := by
  unfold submit
  split <;> rfl

theorem submit_capacity (q : LedgerQueue) (job : Ledger.Job) :
    (q.submit job).capacity = q.capacity := by
  unfold submit
  split <;> rfl

theorem submit_waiting (q : LedgerQueue) (job : Ledger.Job) (h : q.fate = .accepted) :
    (q.submit job).waiting = q.waiting ++ [job] := by
  unfold submit
  rw [h]

theorem length_submit_le (q : LedgerQueue) (job : Ledger.Job) :
    (q.submit job).waiting.length ≤ q.waiting.length + 1 := by
  unfold submit
  split
  · exact (List.length_append).le
  · exact Nat.le_succ _
  · exact Nat.le_succ _

end LedgerQueue

namespace Desk

/-! ## Steps -/

/-- The bookkeeper takes out the oldest job, if there is one. -/
theorem queue_post (d : Desk) (s : DeskStep) (h : s.event = .post) :
    (d.after s).queue = d.queue.advance := by
  have hposts := Books.posts_postNext s.moment.now s.moment.ledgerOutage d.toBooks
  have hstep :
      (d.after s).queue = (d.toBooks.postNext s.moment.now s.moment.ledgerOutage).queue := by
    unfold after
    rw [h]
  rw [hstep]
  generalize d.toBooks.postNext s.moment.now s.moment.ledgerOutage = b at hposts
  cases hposts with
  | nothing waiting =>
    change d.queue.waiting = [] at waiting
    unfold LedgerQueue.advance
    rw [waiting, List.tail_nil, ← waiting]
  | lost | recorded | noted => rfl

/-- What a step may do to the queue. -/
theorem queue_after (d : Desk) (s : DeskStep) (hs : d.store.Indexed) (h : s.event ≠ .shut) :
    (d.after s).queue = d.queue ∨ (∃ job, (d.after s).queue = d.queue.submit job) ∨
      (d.after s).queue = d.queue.advance := by
  obtain ⟨m, event⟩ := s
  cases event with
  | request r =>
    show (d.carryOut m r).2.queue = _ ∨ (∃ job, (d.carryOut m r).2.queue = _) ∨
      (d.carryOut m r).2.queue = _
    have houtcome := outcome_carryOut m d r hs
    generalize d.carryOut m r = answer at houtcome
    obtain ⟨answer, d'⟩ := answer
    cases houtcome with
    | refused _ _ books => exact .inl (congrArg Books.queue books)
    | opened _ o _ _ _ queue => exact .inr (.inl ⟨.ofOrder o, queue⟩)
    | advanced _ _ _ new _ _ _ _ _ _ queue => exact .inr (.inl ⟨.ofOrder new, queue⟩)
    | reported _ _ _ _ _ _ _ queue => exact .inl queue
  | rematch o rejectedBy =>
    rcases rematch_cases m d o rejectedBy with ⟨-, books⟩ | ⟨_, new, -, -, -, -, -, queue⟩
    · exact .inl (congrArg Books.queue books)
    · exact .inr (.inl ⟨.ofOrder new, queue⟩)
  | post => exact .inr (.inr (queue_post d _ rfl))
  | shut => exact absurd rfl h

/-! ## Runs -/

/-- While nobody shuts it, the queue is open, and no more jobs wait than there were steps. -/
theorem queue_run (capacity : Nat) (steps : List DeskStep) (h : ∀ s ∈ steps, s.event ≠ .shut) :
    (run capacity steps).queue.isOpen = true ∧
      (run capacity steps).queue.capacity = max capacity 1 ∧
      (run capacity steps).queue.waiting.length ≤ steps.length := by
  induction steps using List.reverseRecOn with
  | nil => exact ⟨rfl, rfl, Nat.le_refl 0⟩
  | append_singleton steps s ih =>
    obtain ⟨hopen, hcapacity, hlength⟩ := ih fun s' hs' => h s' (List.mem_append_left _ hs')
    rw [run_append, List.length_append, List.length_singleton]
    rcases queue_after (run capacity steps) s (indexed_run capacity steps) (h s (by simp)) with
      hsame | ⟨job, hsubmit⟩ | hadvance
    · rw [hsame]
      exact ⟨hopen, hcapacity, Nat.le_succ_of_le hlength⟩
    · rw [hsubmit, LedgerQueue.submit_isOpen, LedgerQueue.submit_capacity]
      have hmore := LedgerQueue.length_submit_le (run capacity steps).queue job
      exact ⟨hopen, hcapacity, by omega⟩
    · rw [hadvance]
      refine ⟨hopen, hcapacity, ?_⟩
      show (run capacity steps).queue.waiting.tail.length ≤ _
      rw [List.length_tail]
      omega

/-- A queue with room for a whole run accepts what is submitted behind it. -/
theorem accepted_of_room (capacity : Nat) (steps : List DeskStep)
    (h : ∀ s ∈ steps, s.event ≠ .shut) (hroom : steps.length < capacity) :
    (run capacity steps).queue.fate = .accepted := by
  obtain ⟨hopen, hcapacity, hlength⟩ := queue_run capacity steps h
  unfold LedgerQueue.fate
  rw [hopen, hcapacity, Bool.not_true, if_neg (by decide), if_pos (by omega)]

/-- Every step of the bookkeeper takes out one job, while there are any. -/
theorem waiting_posts (capacity : Nat) (steps posts : List DeskStep)
    (h : ∀ s ∈ posts, s.event = .post) :
    (run capacity (steps ++ posts)).queue.waiting =
      (run capacity steps).queue.waiting.drop posts.length := by
  induction posts using List.reverseRecOn with
  | nil => rw [List.append_nil, List.length_nil, List.drop_zero]
  | append_singleton posts s ih =>
    rw [← List.append_assoc, run_append, queue_post _ s (h s (by simp)), List.length_append,
      List.length_singleton, ← List.tail_drop, ← ih fun s' hs' => h s' (List.mem_append_left _ hs')]
    rfl

/-- So as many of its steps as there were before leave nothing waiting. -/
theorem waiting_posts_eq_nil (capacity : Nat) (steps posts : List DeskStep)
    (hopen : ∀ s ∈ steps, s.event ≠ .shut) (h : ∀ s ∈ posts, s.event = .post)
    (hlength : steps.length ≤ posts.length) :
    (run capacity (steps ++ posts)).queue.waiting = [] := by
  rw [waiting_posts capacity steps posts h, List.drop_eq_nil_iff]
  exact (queue_run capacity steps hopen).2.2.trans hlength

end Desk

end OrderDispatch
