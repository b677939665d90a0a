import CloudLab.TwoPC.Finished
import CloudLab.TwoPC.Polling

/-! Whether the two waits of the coordinator end. Timeouts are counted and a connect is tried three
times, but a participant that accepts and hangs up is connected to again each time, and one that sends
full buffers is read for ever. -/

namespace CloudLab.TwoPC

open CloudLab Text Tally Descriptors

/-- The buffer is filled again and again, for ever or until nothing more comes. -/
def Reading.Unending : Reading → Prop
  | .recvs results _ => ∀ result ∈ results, ∃ buf, result = .bytes buf ∧ buf.length = Coordinator.MAX_BUF_SIZE
  | .endless => True

theorem recvLoop_eq_none {limit : Nat} {data : Str} {results : List Recv} : recvLoop limit data results = none ↔
    ∀ result ∈ results, ∃ buf, result = .bytes buf ∧ buf.length = limit := by
  induction results generalizing data with
  | nil => simp [recvLoop]
  | cons result results ih =>
    rw [List.forall_mem_cons]
    cases result with
    | bytes buf =>
      rw [recvLoop]
      split
      · next full => simp [ih, full]
      · next short => simp [short]
    | closed => simp [recvLoop]
    | error => simp [recvLoop]

theorem Reading.getMessage_eq_none {reading : Reading} : reading.getMessage = none ↔ reading.Unending := by
  cases reading with
  | recvs results connects =>
    rw [Reading.getMessage, Option.map_eq_none_iff, Coordinator.getMessage, recvLoop_eq_none]
    rfl
  | endless => simp [Reading.getMessage, Reading.Unending]

/-- Among the ready participants there is one behind which `getMessage` does not return. -/
def Hangs (n : Nat) (participantSocket : Nat → Int) (polled : Polled) : Prop :=
  ∃ i < n, 0 < participantSocket i ∧ participantSocket i ∈ polled.curFdSet ∧ (polled.recv i).Unending

/-- What a turn does to the number of those waited for and to the count of timeouts: after three
timeouts all are given up, before that they are asked again, and one that is ready is waited for no
longer, unless it is connected to again. -/
inductive Advance (calm : Prop) (waited timeout : Nat) : Nat → Nat → Prop
  | gaveUp : timeout = 3 → Advance calm waited timeout 0 0
  | asked : timeout ≠ 3 → Advance calm waited timeout waited (timeout + 1)
  | served {waited' : Nat} : (calm → waited' < waited) → Advance calm waited timeout waited' 0

/-- What a wait can go through yet without a new connection: three timeouts for each that is waited for. -/
def patience (waited timeout : Nat) : Nat := 4 * waited + (3 - timeout)

theorem Advance.patience {calm : Prop} {waited timeout waited' timeout' : Nat}
    (advance : Advance calm waited timeout waited' timeout') (some : 1 ≤ waited) (few : timeout ≤ 3) :
    timeout' ≤ 3 ∧ (calm → patience waited' timeout' < patience waited timeout) := by
  unfold TwoPC.patience
  cases advance with
  | gaveUp third => exact ⟨by omega, fun _ => by omega⟩
  | asked more => exact ⟨by omega, fun _ => by omega⟩
  | served fewer =>
    refine ⟨by omega, fun calm => ?_⟩
    have lower := fewer calm
    omega

theorem Advance.ends_iff {σ ε : Type} {GoesOn : σ → Prop} {Turn : σ → ε → σ → Prop} {polls : Nat → ε}
    {states : Nat → Option σ} {waited timeout : σ → Nat} {Stuck Again : σ → ε → Prop}
    (loop : Loops GoesOn Stuck Turn polls states)
    (Inv : σ → Prop) (kept : ∀ s polled t, Inv s → Turn s polled t → Inv t)
    (returns : ∀ s polled t, Inv s → Turn s polled t → ¬ Stuck s polled)
    (advances : ∀ s polled t, Inv s → Turn s polled t →
      1 ≤ waited s ∧ Advance (¬ Again s polled) (waited s) (timeout s) (waited t) (timeout t))
    {first : σ} (started : states 0 = some first) (start : Inv first) (few : timeout first ≤ 3) :
    (∃ k s, states k = some s ∧ ¬ GoesOn s) ↔
      (∀ k s, states k = some s → GoesOn s → ¬ Stuck s (polls k)) ∧
        ∃ m, ∀ k s, m ≤ k → states k = some s → GoesOn s → ¬ Again s (polls k) := by
  refine loop.ends_iff (fun s => Inv s ∧ timeout s ≤ 3) Again (fun s => TwoPC.patience (waited s) (timeout s)) ?_
    (fun s polled t inv step => returns s polled t inv.1 step) ?_ started ⟨start, few⟩
  · intro s polled t both step
    obtain ⟨inv, few⟩ := both
    obtain ⟨some, advance⟩ := advances s polled t inv step
    exact ⟨kept s polled t inv step, (advance.patience some few).1⟩
  · intro s polled t both step
    obtain ⟨inv, few⟩ := both
    obtain ⟨some, advance⟩ := advances s polled t inv step
    exact (advance.patience some few).2

namespace Poll

variable {n i : Nat} {before : Nat → Int} {preparedRequestMsg : Str} {s t : Poll}

def waited (s : Poll) : Nat := (s.aliveParticipantCount - s.preparedCount).toNat

theorem Served.waited {polled : Polled} {first : Poll} (served : Served n polled first s i t) (inv : Inv n before s)
    (calm : ¬ Reconnects n first.participantSocket first.vaild polled) : t.waited < s.waited := by
  obtain ⟨small, positive, ready, waiting, ⟨socket, vaild⟩, outcome⟩ := served
  have counted : s.preparedCount < s.aliveParticipantCount := by
    have here : tally n (fun i => s.live i && !s.answered i) ≠ 0 := fun none => by
      have absent := tally_eq_zero.mp none i small
      rw [waiting, show s.live i = true from decide_eq_true positive] at absent
      cases absent
    have alive := inv.alive_eq
    omega
  unfold Poll.waited
  cases outcome with
  | answer =>
    simp only [accept]
    omega
  | lost =>
    simp only [lose]
    omega
  | again connects _ found usable =>
    have again : s.vaild i = true := usable.1
    rw [vaild] at again
    exact absurd ⟨i, small, socket ▸ positive, socket ▸ ready, connects, found, again, usable.2⟩ calm

theorem turn_hangs (inv : Inv n before s) {polled : Polled} (hangs : Hangs n s.participantSocket polled) :
    s.turn n preparedRequestMsg polled = none := by
  obtain ⟨i, small, positive, ready, unending⟩ := hangs
  have nonempty : polled.curFdSet ≠ ∅ := Finset.ne_empty_of_mem ready
  have enough := length_ready_le polled.curFdSet inv.distinct
  rw [turn, if_neg nonempty, scan_eq]
  refine scanReady_none List.nodup_range (fun s k t received j other => ?_) (by exact_mod_cast enough)
    (List.mem_range.mpr small) ⟨positive, ready⟩ fun s => ?_
  · exact ((receive_cases received).others other).1
  · rw [receive, Reading.getMessage_eq_none.mpr unending]
    rfl

theorem resends (preparedRequestMsg : Str) (l : List Nat) (s : Poll) :
    ∃ sent, l.foldl (resend preparedRequestMsg) s = { s with sent := sent } := by
  induction l generalizing s with
  | nil => exact ⟨s.sent, rfl⟩
  | cons i l ih =>
    rw [List.foldl_cons]
    obtain ⟨sent, rest⟩ := ih (s.resend preparedRequestMsg i)
    rw [rest, resend]
    split
    · exact ⟨sent, rfl⟩
    · exact ⟨sent, rfl⟩

theorem turn_advance (inv : Inv n before s) {polled : Polled} (step : s.Turn n preparedRequestMsg polled t) :
    1 ≤ s.waited ∧ Advance (¬ Reconnects n s.participantSocket s.vaild polled) s.waited s.timeout t.waited t.timeout := by
  obtain ⟨goes, selected, step⟩ := step
  have counted := goes.2
  refine ⟨by unfold waited; omega, ?_⟩
  unfold Poll.turn at step
  split at step
  · split at step
    · next third =>
      cases step
      have dropped := dropped inv (l := List.range n) (fun i member => List.mem_range.mp member) List.nodup_range
      have none : ((List.range n).foldl drop s).waited = 0 := by
        have alive := inv.alive_eq
        rw [waited, dropped.alive, dropped.preparedCount, length_filter_range]
        omega
      change Advance _ _ _ ((List.range n).foldl drop s).waited 0
      rw [none]
      exact .gaveUp third
    · next more =>
      cases step
      obtain ⟨sent, same⟩ := resends preparedRequestMsg (List.range n) s
      rw [same]
      exact .asked more
  · next nonempty =>
    obtain ⟨found, run, _, ready⟩ := scan_served (inv.aside 0 s.sent) (fun fd member => (selected fd member).1) step
    have here : found ≠ [] := ready (by exact_mod_cast Finset.card_pos.mpr (Finset.nonempty_iff_ne_empty.mpr nonempty)) nonempty
    have reset : t.timeout = 0 := by
      refine run.invariant (fun t => t.timeout = 0) (fun s' i t zero served => ?_) rfl
      cases served.1.outcome.received with
      | answer => exact zero
      | lost => exact zero
      | again => exact zero
    rw [reset]
    refine .served fun calm => ?_
    obtain ⟨_, lower⟩ := run.length_le (fun _ => True) waited
      (fun s' i t _ served => ⟨trivial, served.1.waited served.2 calm⟩) trivial
    have positive := List.length_pos_iff.mpr here
    simp only [waited] at lower ⊢
    omega

/-- The endless course of `waitForPrepared` under what its selects report and its participants send. -/
def Course (n : Nat) (preparedRequestMsg : Str) (polls : Nat → Polled) (states : Nat → Option Poll) : Prop :=
  Loops GoesOn (fun s polled => Hangs n s.participantSocket polled) (Turn n preparedRequestMsg) polls states

theorem ends_iff {participantSocket : Nat → Int} {aliveParticipantCount : Int} {vaild : Nat → Bool}
    {descriptors : Finset Int} {polls : Nat → Polled} {states : Nat → Option Poll} {first : Poll}
    (connected : Connected n participantSocket descriptors)
    (counted : aliveParticipantCount = tally n fun i => decide (0 < participantSocket i))
    (started : Poll.start n participantSocket aliveParticipantCount vaild descriptors = some first)
    (begins : states 0 = some first) (course : Course n preparedRequestMsg polls states) :
    (∃ k s, states k = some s ∧ ¬ s.GoesOn) ↔
      (∀ k s, states k = some s → s.GoesOn → ¬ Hangs n s.participantSocket (polls k)) ∧
        ∃ m, ∀ k s, m ≤ k → states k = some s → s.GoesOn →
          ¬ Reconnects n s.participantSocket s.vaild (polls k) := by
  have few : first.timeout ≤ 3 := by
    obtain ⟨_, _, same⟩ := Option.map_eq_some_iff.mp started
    rw [← same]
    exact Nat.zero_le 3
  refine Advance.ends_iff course (Inv n participantSocket) (fun _ _ _ inv step => inv.turn step) ?_
    (fun _ _ _ inv step => turn_advance inv step) begins (Inv.start connected counted started) few
  intro s polled t inv step hangs
  have none := step.2.2
  rw [turn_hangs inv hangs] at none
  cases none

end Poll

namespace Finish

variable {n i : Nat} {held : Finset Int} {requestMsg : Str} {s t : Finish}

def waited (s : Finish) : Nat := (s.aliveParticipantCount - s.finishedCount).toNat

theorem Served.waited {polled : Polled} {first : Finish} (served : Served n polled first s i t) (inv : Inv n held s)
    (calm : ¬ Reconnects n first.participantSocket first.vaild polled) : t.waited < s.waited := by
  obtain ⟨small, positive, ready, ⟨socket, vaild⟩, outcome⟩ := served
  have counted : s.finishedCount < s.aliveParticipantCount := by
    have here : tally n s.live ≠ 0 := fun none => by
      have absent := tally_eq_zero.mp none i small
      rw [show s.live i = true from decide_eq_true positive] at absent
      cases absent
    have alive := inv.alive
    omega
  unfold Finish.waited
  cases outcome with
  | answer =>
    simp only [accept]
    omega
  | lost =>
    simp only [lose]
    omega
  | again connects _ found usable =>
    have again : s.vaild i = true := usable.1
    rw [vaild] at again
    exact absurd ⟨i, small, socket ▸ positive, socket ▸ ready, connects, found, again, usable.2⟩ calm

theorem turn_hangs (inv : Inv n held s) {polled : Polled} (hangs : Hangs n s.participantSocket polled) :
    s.turn n requestMsg polled = none := by
  obtain ⟨i, small, positive, ready, unending⟩ := hangs
  have nonempty : polled.curFdSet ≠ ∅ := Finset.ne_empty_of_mem ready
  have enough := length_ready_le polled.curFdSet inv.connected.distinct
  rw [turn, if_neg nonempty]
  refine scanReady_none List.nodup_range (fun s k t received j other => ?_) (by exact_mod_cast enough)
    (List.mem_range.mpr small) ⟨positive, ready⟩ fun s => ?_
  · exact ((receive_cases received).others other).1
  · rw [receive, Reading.getMessage_eq_none.mpr unending]
    rfl

theorem resends (requestMsg : Str) (l : List Nat) (s : Finish) :
    ∃ sent, l.foldl (resend requestMsg) s = { s with sent := sent } := by
  induction l generalizing s with
  | nil => exact ⟨s.sent, rfl⟩
  | cons i l ih =>
    rw [List.foldl_cons]
    obtain ⟨sent, rest⟩ := ih (s.resend requestMsg i)
    rw [rest, resend]
    split
    · exact ⟨sent, rfl⟩
    · exact ⟨sent, rfl⟩

theorem dropped (inv : Inv n held s) {l : List Nat} (small : ∀ i ∈ l, i < n) :
    (l.foldl drop s).finishedCount = s.finishedCount ∧
      (∀ j, ¬ 0 < s.participantSocket j → ¬ 0 < (l.foldl drop s).participantSocket j) ∧
      ∀ j ∈ l, ¬ 0 < (l.foldl drop s).participantSocket j := by
  induction l generalizing s with
  | nil => exact ⟨rfl, fun _ => id, fun j member => nomatch member⟩
  | cons i l ih =>
    have here := small i List.mem_cons_self
    obtain ⟨finished, closed, gone⟩ := ih (inv.drop here) fun j member => small j (List.mem_cons_of_mem i member)
    have turn : (s.drop i).finishedCount = s.finishedCount ∧ ¬ 0 < (s.drop i).participantSocket i ∧
        ∀ j, ¬ 0 < s.participantSocket j → ¬ 0 < (s.drop i).participantSocket j := by
      unfold drop
      by_cases positive : 0 < s.participantSocket i
      · have watched : s.participantSocket i ∈ s.allFdSet := by
          rw [inv.watched]
          exact socket_mem here positive
        rw [if_pos ⟨positive, watched⟩]
        refine ⟨rfl, by simp [remove], fun j none => ?_⟩
        by_cases same : j = i
        · subst same
          exact absurd positive none
        · simp only [remove, Function.update_of_ne same]
          exact none
      · rw [if_neg fun both => positive both.1]
        exact ⟨rfl, positive, fun _ => id⟩
    rw [List.foldl_cons]
    refine ⟨finished.trans turn.1, fun j none => closed j (turn.2.2 j none), List.forall_mem_cons.mpr ⟨?_, gone⟩⟩
    exact closed i turn.2.1

theorem turn_advance (inv : Inv n held s) {polled : Polled} (step : s.Turn n requestMsg polled t) :
    1 ≤ s.waited ∧ Advance (¬ Reconnects n s.participantSocket s.vaild polled) s.waited s.timeout t.waited t.timeout := by
  obtain ⟨goes, selected, step⟩ := step
  have counted := goes.2
  refine ⟨by unfold waited; omega, ?_⟩
  unfold Finish.turn at step
  split at step
  · split at step
    · next third =>
      cases step
      have small (i : Nat) (member : i ∈ List.range n) : i < n := List.mem_range.mp member
      obtain ⟨finished, _, gone⟩ := dropped inv small
      have left : Inv n held ((List.range n).foldl Finish.drop s) :=
        List.foldlRecOn (List.range n) Finish.drop inv fun s inv i member => inv.drop (small i member)
      have closed : tally n ((List.range n).foldl Finish.drop s).live = 0 :=
        tally_eq_zero.mpr fun i below => decide_eq_false (gone i (List.mem_range.mpr below))
      have none : ((List.range n).foldl Finish.drop s).waited = 0 := by
        have alive := left.alive
        unfold waited
        omega
      change Advance _ _ _ ((List.range n).foldl Finish.drop s).waited 0
      rw [none]
      exact .gaveUp third
    · next more =>
      cases step
      obtain ⟨sent, same⟩ := resends requestMsg (List.range n) s
      rw [same]
      exact .asked more
  · next nonempty =>
    obtain ⟨found, run, _, ready⟩ := scan_served (inv.aside 0 s.sent) (fun fd member => (selected fd member).1) step
    have here : found ≠ [] := ready (by exact_mod_cast Finset.card_pos.mpr (Finset.nonempty_iff_ne_empty.mpr nonempty)) nonempty
    have reset : t.timeout = 0 := by
      refine run.invariant (fun t => t.timeout = 0) (fun s' i t zero served => ?_) rfl
      cases served.1.outcome with
      | answer => exact zero
      | lost => exact zero
      | again => exact zero
    rw [reset]
    refine .served fun calm => ?_
    obtain ⟨_, lower⟩ := run.length_le (fun _ => True) waited
      (fun s' i t _ served => ⟨trivial, served.1.waited served.2 calm⟩) trivial
    have positive := List.length_pos_iff.mpr here
    simp only [waited] at lower ⊢
    omega

def Course (n : Nat) (requestMsg : Str) (polls : Nat → Polled) (states : Nat → Option Finish) : Prop :=
  Loops GoesOn (fun s polled => Hangs n s.participantSocket polled) (Turn n requestMsg) polls states

theorem ends_iff {participantSocket : Nat → Int} {aliveParticipantCount : Int} {c : Coordinator}
    {polls : Nat → Polled} {states : Nat → Option Finish} {first : Finish}
    (connected : Connected n participantSocket c.descriptors)
    (counted : aliveParticipantCount = tally n fun i => decide (0 < participantSocket i))
    (started : Finish.start n participantSocket aliveParticipantCount c = some first)
    (begins : states 0 = some first) (course : Course n requestMsg polls states) :
    (∃ k s, states k = some s ∧ ¬ s.GoesOn) ↔
      (∀ k s, states k = some s → s.GoesOn → ¬ Hangs n s.participantSocket (polls k)) ∧
        ∃ m, ∀ k s, m ≤ k → states k = some s → s.GoesOn →
          ¬ Reconnects n s.participantSocket s.vaild (polls k) := by
  have few : first.timeout ≤ 3 := by
    obtain ⟨_, _, same⟩ := Option.map_eq_some_iff.mp started
    rw [← same]
    exact Nat.zero_le 3
  refine Advance.ends_iff course (Inv n (openSockets n participantSocket)) (fun _ _ _ inv step => inv.turn step) ?_
    (fun _ _ _ inv step => turn_advance inv step) begins (Inv.start connected counted started) few
  intro s polled t inv step hangs
  have none := step.2.2
  rw [turn_hangs inv hangs] at none
  cases none

end Finish

/-- Each of the coordinator's waits returns, under whatever its selects report and its participants
send, exactly when no participant that is ready fills the buffer again and again and from some turn on
none is connected to again. -/
theorem waits_end_iff {n : Nat} {participantSocket : Nat → Int} {aliveParticipantCount : Int} {c : Coordinator}
    {msg : Str} {polls : Nat → Polled} (connected : Connected n participantSocket c.descriptors)
    (counted : aliveParticipantCount = tally n fun i => decide (0 < participantSocket i)) :
    (∀ (states : Nat → Option Poll) (first : Poll), states 0 = some first →
      Poll.start n participantSocket aliveParticipantCount c.vaild c.descriptors = some first →
      Poll.Course n msg polls states →
        ((∃ k s, states k = some s ∧ ¬ s.GoesOn) ↔
          (∀ k s, states k = some s → s.GoesOn → ¬ Hangs n s.participantSocket (polls k)) ∧
            ∃ m, ∀ k s, m ≤ k → states k = some s → s.GoesOn →
              ¬ Reconnects n s.participantSocket s.vaild (polls k))) ∧
    ∀ (states : Nat → Option Finish) (first : Finish), states 0 = some first →
      Finish.start n participantSocket aliveParticipantCount c = some first →
      Finish.Course n msg polls states →
        ((∃ k s, states k = some s ∧ ¬ s.GoesOn) ↔
          (∀ k s, states k = some s → s.GoesOn → ¬ Hangs n s.participantSocket (polls k)) ∧
            ∃ m, ∀ k s, m ≤ k → states k = some s → s.GoesOn →
              ¬ Reconnects n s.participantSocket s.vaild (polls k)) :=
  ⟨fun _ _ begins started course => Poll.ends_iff connected counted started begins course,
    fun _ _ begins started course => Finish.ends_iff connected counted started begins course⟩

/-! One participant, on descriptor 5, that accepts every connection and hangs up. -/

def hangsUp : Polled := ⟨{5}, fun _ => .recvs [.closed] fun _ => true⟩

def oneConnected : Coordinator := ⟨fun _ => true, {0, 1, 2, 3, 4, 5}⟩

def Poll.knocking (k : Nat) : Poll :=
  { participantSocket := fun _ => 5, vaild := fun _ => true, aliveParticipantCount := 1, allFdSet := {5}, maxfd := 5,
    preparedCount := 0, timeout := 0, response := fun _ => -1, descriptors := {0, 1, 2, 3, 4, 5},
    sent := List.replicate k (5, PREPARED_REQUEST), messages := [] }

def Finish.knocking (k : Nat) : Finish :=
  { vaild := fun _ => true, descriptors := {0, 1, 2, 3, 4, 5}, participantSocket := fun _ => 5, aliveParticipantCount := 1,
    allFdSet := {5}, maxfd := 5, finishedCount := 0, timeout := 0, response_split_msg := [],
    sent := List.replicate k (5, COMMIT), messages := [], uses := (List.replicate k [.closed 5, .taken 5]).flatten }

section knocking

theorem five_again : lowestFree (({0, 1, 2, 3, 4, 5} : Finset Int).erase 5) = 5 ∧
    insert 5 (({0, 1, 2, 3, 4, 5} : Finset Int).erase 5) = {0, 1, 2, 3, 4, 5} := by
  decide

theorem hangsUp_gone : (Reading.recvs [.closed] fun _ => true).getMessage = some (.gone fun _ => true) := rfl

theorem Poll.knocking_turn (k : Nat) : (Poll.knocking k).turn 1 PREPARED_REQUEST hangsUp = some (Poll.knocking (k + 1)) := by
  have filled : PREPARED_REQUEST ≠ [] := by decide
  simp [Poll.turn, knocking, hangsUp, scan, receive, hangsUp_gone, handle, reconnect, close, connectParticipant,
    five_again, send, FD_SET, FD_SETSIZE, sendMessage, filled, List.range_succ, List.replicate_succ']

theorem Finish.knocking_turn (k : Nat) : (Finish.knocking k).turn 1 COMMIT hangsUp = some (Finish.knocking (k + 1)) := by
  have filled : COMMIT ≠ [] := by decide
  simp [Finish.turn, knocking, hangsUp, scanReady, receive, hangsUp_gone, handle, reconnect, close, Coordinator.close,
    Coordinator.connectParticipant, five_again, send, FD_SET, FD_SETSIZE, sendMessage, filled, List.range_succ,
    List.replicate_succ']

theorem Poll.knocking_course :
    Poll.Course 1 PREPARED_REQUEST (fun _ => hangsUp) fun k => some (Poll.knocking k) := by
  have goes (k : Nat) : (Poll.knocking k).GoesOn := ⟨Int.one_pos, Int.one_pos⟩
  have selected : ∀ fd ∈ hangsUp.curFdSet, fd ∈ ({5} : Finset Int) ∧ fd < (5 : Int) + 1 := by decide
  exact Loops.forever goes fun k => ⟨goes k, selected, knocking_turn k⟩

theorem Finish.knocking_course :
    Finish.Course 1 COMMIT (fun _ => hangsUp) fun k => some (Finish.knocking k) := by
  have goes (k : Nat) : (Finish.knocking k).GoesOn := ⟨Int.one_pos, Int.one_pos⟩
  have selected : ∀ fd ∈ hangsUp.curFdSet, fd ∈ ({5} : Finset Int) ∧ fd < (5 : Int) + 1 := by decide
  exact Loops.forever goes fun k => ⟨goes k, selected, knocking_turn k⟩

end knocking

def fillsUp : Polled := ⟨{5}, fun _ => .recvs [.bytes (List.replicate 512 'x')] fun _ => true⟩

theorem fillsUp_hangs : Hangs 1 (fun _ => 5) fillsUp := by
  refine ⟨0, Nat.one_pos, by decide, by decide, ?_⟩
  intro result member
  rw [List.mem_singleton.mp member]
  exact ⟨_, rfl, List.length_replicate⟩

/-- Every select reports the same, and neither wait comes to its end. -/
def GoesOnForEver (polled : Polled) : Prop :=
  (∃ (states : Nat → Option Poll) (first : Poll), states 0 = some first ∧
    Poll.start 1 (fun _ => 5) 1 oneConnected.vaild oneConnected.descriptors = some first ∧
    Poll.Course 1 PREPARED_REQUEST (fun _ => polled) states ∧ ∀ k s, states k = some s → s.GoesOn) ∧
  ∃ (states : Nat → Option Finish) (first : Finish), states 0 = some first ∧
    Finish.start 1 (fun _ => 5) 1 oneConnected = some first ∧
    Finish.Course 1 COMMIT (fun _ => polled) states ∧ ∀ k s, states k = some s → s.GoesOn

/-- Both waits go on for ever when each new connection is hung up, and when an answer fills the buffer. -/
theorem waits_never_end : GoesOnForEver hangsUp ∧ GoesOnForEver fillsUp := by
  have goesPoll (k : Nat) : (Poll.knocking k).GoesOn := ⟨Int.one_pos, Int.one_pos⟩
  have goesFinish (k : Nat) : (Finish.knocking k).GoesOn := ⟨Int.one_pos, Int.one_pos⟩
  constructor
  · exact ⟨⟨_, Poll.knocking 0, rfl, rfl, Poll.knocking_course, fun k s here => Option.some.inj here ▸ goesPoll k⟩,
      _, Finish.knocking 0, rfl, rfl, Finish.knocking_course, fun k s here => Option.some.inj here ▸ goesFinish k⟩
  · exact ⟨⟨onlyFirst (Poll.knocking 0), _, rfl, rfl, Loops.onlyFirst (goesPoll 0) fillsUp_hangs,
        onlyFirst_goes (goesPoll 0)⟩,
      onlyFirst (Finish.knocking 0), _, rfl, rfl, Loops.onlyFirst (goesFinish 0) fillsUp_hangs,
      onlyFirst_goes (goesFinish 0)⟩

def silent : Polled := ⟨∅, fun _ => .recvs [] fun _ => false⟩

theorem Poll.silent_turn {n : Nat} (msg : Str) (s : Poll) : ∃ t, s.turn n msg silent = some t := by
  unfold Poll.turn
  split
  · split
    · exact ⟨_, rfl⟩
    · exact ⟨_, rfl⟩
  · next some => exact absurd rfl some

theorem Finish.silent_turn {n : Nat} (msg : Str) (s : Finish) : ∃ t, s.turn n msg silent = some t := by
  unfold Finish.turn
  split
  · split
    · exact ⟨_, rfl⟩
    · exact ⟨_, rfl⟩
  · next some => exact absurd rfl some

theorem waits_end_iff_silent :
    (∃ k s, course Poll.GoesOn (fun s => s.turn 1 PREPARED_REQUEST silent) (Poll.knocking 0) k = some s ∧ ¬ s.GoesOn) ∧
    ∃ k s, course Finish.GoesOn (fun s => s.turn 1 COMMIT silent) (Finish.knocking 0) k = some s ∧ ¬ s.GoesOn := by
  have connected : Connected 1 (fun _ => 5) oneConnected.descriptors :=
    ⟨fun _ _ _ _ _ _ => by omega, fun _ _ _ => by decide⟩
  have counted : (1 : Int) = tally 1 fun _ => decide ((0 : Int) < 5) := by decide
  have quiet (fd : Int) : fd ∉ silent.curFdSet := Finset.notMem_empty fd
  constructor
  · have loops : Poll.Course 1 PREPARED_REQUEST (fun _ => silent)
        (course Poll.GoesOn (fun s => s.turn 1 PREPARED_REQUEST silent) (Poll.knocking 0)) := by
      refine Loops.course fun _ s goes => ?_
      obtain ⟨t, result⟩ := s.silent_turn PREPARED_REQUEST
      exact ⟨t, result, goes, fun fd member => absurd member (quiet fd), result⟩
    refine ((waits_end_iff connected counted).1 _ (Poll.knocking 0) rfl rfl loops).mpr ⟨?_, 0, ?_⟩
    · exact fun _ _ _ _ ⟨_, _, _, ready, _⟩ => quiet _ ready
    · exact fun _ _ _ _ _ ⟨_, _, _, ready, _⟩ => quiet _ ready
  · have loops : Finish.Course 1 COMMIT (fun _ => silent)
        (course Finish.GoesOn (fun s => s.turn 1 COMMIT silent) (Finish.knocking 0)) := by
      refine Loops.course fun _ s goes => ?_
      obtain ⟨t, result⟩ := s.silent_turn COMMIT
      exact ⟨t, result, goes, fun fd member => absurd member (quiet fd), result⟩
    refine ((waits_end_iff connected counted).2 _ (Finish.knocking 0) rfl rfl loops).mpr ⟨?_, 0, ?_⟩
    · exact fun _ _ _ _ ⟨_, _, _, ready, _⟩ => quiet _ ready
    · exact fun _ _ _ _ _ ⟨_, _, _, ready, _⟩ => quiet _ ready

end CloudLab.TwoPC
