import CloudLab.TwoPC.Finish

/-! What `waitForCommitOrAbort` has counted whenever it is at the head of its loop, and what is left
of the sockets when it returns. -/

namespace CloudLab.TwoPC

open CloudLab Text Tally Descriptors

namespace Finish

variable {n : Nat} {held : Finset Int} {requestMsg : Str} {s : Finish}

theorem Inv.start {participantSocket : Nat → Int} {aliveParticipantCount : Int} {c : Coordinator}
    (connected : Connected n participantSocket c.descriptors)
    (counted : aliveParticipantCount = tally n fun i => decide (0 < participantSocket i))
    (started : Finish.start n participantSocket aliveParticipantCount c = some s) :
    Inv n (openSockets n participantSocket) s := by
  obtain ⟨⟨allFdSet, maxfd⟩, watched, rfl⟩ := Option.map_eq_some_iff.mp started
  obtain ⟨members, bound⟩ := Poll.watch_eq watched
  have same : allFdSet = openSockets n participantSocket := by
    ext fd
    rw [members, mem_openSockets]
  constructor
  · exact connected
  · simp only [Int.zero_add]
    exact counted
  · rfl
  · exact List.nodup_nil
  · exact fun i data member => nomatch member
  · exact same
  · exact bound
  · rw [same]
    rfl

structure Exact (n : Nat) (s : Finish) : Prop where
  alive : s.aliveParticipantCount = s.finishedCount + tally n s.live
  watched : ∀ fd, fd ∈ s.allFdSet ↔ ∃ i < n, s.participantSocket i = fd ∧ 0 < fd
  finished : s.finishedCount = s.messages.length
  once : (s.messages.map Prod.fst).Nodup ∧ ∀ i ∈ s.messages.map Prod.fst, i < n

/-- What is left after the loop, where `held` are the sockets at the start: every socket that stood in
`participantSocket` has been closed, and no descriptor was closed but while it stood there. -/
structure Returned (n : Nat) (held : Finset Int) (s : Finish) : Prop where
  none : ∀ i < n, ¬ 0 < s.participantSocket i
  book : ledger held s.uses = some ∅
  closed : ∀ fd, s.uses.count (.closed fd) = (if fd ∈ held then 1 else 0) + s.uses.count (.taken fd)
  replied : s.commitResponse = 1 ↔ s.messages ≠ []
  silent : s.commitResponse = -1 ↔ s.messages = []

namespace Inv

theorem exact (inv : Inv n held s) : s.Exact n where
  alive := inv.alive
  watched := by
    intro fd
    rw [inv.watched, mem_openSockets]
  finished := inv.finished
  once := by
    refine ⟨inv.once, fun i member => ?_⟩
    obtain ⟨⟨_, data⟩, inside, rfl⟩ := List.mem_map.mp member
    exact (inv.replied _ data inside).1

theorem nobody (inv : Inv n held s) (finished : ¬ s.GoesOn) : ∀ i < n, s.live i = false := by
  apply tally_eq_zero.mp
  have alive := inv.alive
  have count := inv.finished
  unfold GoesOn at finished
  omega

theorem returned (inv : Inv n held s) (finished : ¬ s.GoesOn) : s.Returned n held := by
  have none (i : Nat) (small : i < n) : ¬ 0 < s.participantSocket i :=
    of_decide_eq_false (inv.nobody finished i small)
  have empty : s.allFdSet = ∅ := by rw [inv.watched, openSockets_eq_empty none]
  have book := inv.book
  rw [empty] at book
  have zero : s.finishedCount = 0 ↔ s.messages = [] := by
    rw [inv.finished, Int.natCast_eq_zero, List.length_eq_zero_iff]
  refine ⟨none, book, fun fd => ?_, ?_, ?_⟩
  · have count := ledger_count book fd
    simp only [Finset.notMem_empty, if_false] at count
    omega
  · unfold commitResponse
    rw [ne_eq, ← zero]
    split
    · next none => exact iff_of_false (by decide) (not_not_intro none)
    · next some => exact iff_of_true rfl some
  · unfold commitResponse
    rw [← zero]
    split
    · next none => exact iff_of_true rfl none
    · next some => exact iff_of_false (by decide) some

end Inv

end Finish

/-- The answers are counted and the sockets closed exactly: at each head of the loop the alive are
those that have answered and those with a socket, and when it returns no socket is left. -/
theorem waitForCommitOrAbort_counts {n : Nat} {participantSocket : Nat → Int} {aliveParticipantCount : Int}
    {c : Coordinator} {requestMsg : Str} {polls : List Polled} {first s : Finish}
    (connected : Connected n participantSocket c.descriptors)
    (counted : aliveParticipantCount = tally n fun i => decide (0 < participantSocket i))
    (started : Finish.start n participantSocket aliveParticipantCount c = some first)
    (run : Run (Finish.Turn n requestMsg) first polls s) :
    s.Exact n ∧ (¬ s.GoesOn → s.Returned n (openSockets n participantSocket)) := by
  have inv := (Finish.Inv.start connected counted started).run run
  exact ⟨inv.exact, inv.returned⟩

def threeFinished : List Polled :=
  let done := wire [DONE, "7".toList, SET]
  let answers : Reading := .recvs [.bytes done] fun _ => false
  [⟨{5}, fun _ => answers⟩, ⟨{6, 7}, fun i => .recvs [.closed] fun _ => decide (i = 1)⟩, ⟨∅, fun _ => answers⟩,
    ⟨{5}, fun _ => answers⟩]

def threeConnected : Coordinator := ⟨fun _ => true, {0, 1, 2, 3, 4, 5, 6, 7}⟩

theorem waitForCommitOrAbort_counts_three :
    ∃ first s, Run (Finish.Turn 3 COMMIT) first threeFinished s ∧ ¬ s.GoesOn ∧ s.commitResponse = 1 ∧
      s.uses = [.closed 5, .closed 6, .taken 5, .closed 7, .closed 5] ∧ s.Exact 3 ∧
      s.Returned 3 (openSockets 3 fun i => 5 + i) := by
  have finishes : ((Finish.start 3 (fun i => 5 + i) 3 threeConnected).bind fun first =>
      execute (fun s polled => if s.GoesOn ∧ ∀ fd ∈ polled.curFdSet, fd ∈ s.allFdSet ∧ fd < s.maxfd + 1 then
        s.turn 3 COMMIT polled else none) first threeFinished).any
      (fun s => decide (¬ s.GoesOn ∧ s.commitResponse = 1 ∧
        s.uses = [.closed 5, .closed 6, .taken 5, .closed 7, .closed 5])) = true := by decide +kernel
  obtain ⟨s, found, result⟩ := (Option.any_eq_true _ _).mp finishes
  obtain ⟨finished, replied, uses⟩ := of_decide_eq_true result
  obtain ⟨first, started, executed⟩ := Option.bind_eq_some_iff.mp found
  have run : Run (Finish.Turn 3 COMMIT) first threeFinished s :=
    (run_of_checked executed).mono fun _ _ _ step => ⟨step.2.1, step.2.2, step.1⟩
  have connected : Connected 3 (fun i => 5 + i) threeConnected.descriptors :=
    ⟨fun i _ j _ _ same => by omega, by decide⟩
  obtain ⟨counts, returned⟩ := waitForCommitOrAbort_counts connected (by decide) started run
  exact ⟨first, s, run, finished, replied, uses, counts, returned finished⟩

end CloudLab.TwoPC
