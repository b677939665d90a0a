import CloudLab.TwoPC.Prepared

/-! The loop of `waitForPrepared` with descriptors refines the one of the system, where a socket
is named by its participant: each of its turns is a run of events of the other. -/

namespace CloudLab.TwoPC

open CloudLab Text Tally ByteStream

inductive Waited
  | select (ready : List Nat)
  | timeout
  | reply (data : Str)
  | hangup (ok : Bool)

def Wait.next (n : Nat) (w : Wait) : Waited → Option Wait
  | .select ready =>
      if w.ready = [] ∧ w.GoesOn ∧ ready ≠ [] ∧ ready.Pairwise (· < ·) ∧ ∀ i ∈ ready, i < n ∧ w.waitedFor i then
        some { w with ready := ready, timeout := 0 }
      else none
  | .timeout =>
      if w.ready = [] ∧ w.GoesOn then
        if w.timeout = 3 then some (w.giveUp n) else some { w with timeout := w.timeout + 1 }
      else none
  | .reply data =>
      match w.ready with
      | i :: ready => { w with ready := ready }.recordPrepared i data
      | [] => none
  | .hangup ok =>
      match w.ready with
      | i :: ready =>
          if ok then some { w with ready := ready, allFdSet := Function.update w.allFdSet i true }
          else some ({ w with ready := ready }.remove i)
      | [] => none

/-- An event of the system either leaves the variables of `waitForPrepared` alone, or moves them so,
as long as the loop goes on and the coordinator lives. -/
theorem next_waited {n : Nat} {c c' : Cluster} {t : Txn} {w : Wait} {event : Event}
    (waiting : c.control = .wait t .prepare w) (step : next n c event = some c') (stays : event ≠ .kill ∧ event ≠ .proceed) :
    c'.control = .wait t .prepare w ∨ ∃ e w', w.next n e = some w' ∧ c'.control = .wait t .prepare w' := by
  cases event with
  | kill => exact absurd rfl stays.1
  | proceed => exact absurd rfl stays.2
  | request data id =>
    simp only [next, waiting] at step
    cases step
  | connect ok =>
    simp only [next, waiting] at step
    cases step
  | send =>
    simp only [next, waiting] at step
    cases step
  | select ready =>
    simp only [next, waiting] at step
    split at step
    · next allowed =>
      cases step
      refine Or.inr ⟨.select ready, { w with ready := ready, timeout := 0 }, if_pos ?_, rfl⟩
      obtain ⟨idle, goes, some, sorted, each⟩ := allowed
      exact ⟨idle, goes, some, sorted, fun i member => ⟨(each i member).1, (each i member).2.1⟩⟩
    · cases step
  | timeout =>
    simp only [next, waiting] at step
    split at step
    · next allowed =>
      cases step
      unfold Cluster.onTimeout
      by_cases third : w.timeout = 3
      · rw [if_pos third]
        exact Or.inr ⟨.timeout, w.giveUp n, by rw [Wait.next, if_pos allowed, if_pos third], rfl⟩
      · rw [if_neg third]
        exact Or.inr ⟨.timeout, { w with timeout := w.timeout + 1 }, by rw [Wait.next, if_pos allowed, if_neg third], rfl⟩
    · cases step
  | reply k =>
    simp only [next, waiting] at step
    cases ready : w.ready with
    | nil =>
      simp only [ready] at step
      cases step
    | cons i rest =>
      simp only [ready, Cluster.onReply] at step
      split at step
      · cases step
      · obtain ⟨w', recorded, same⟩ := Option.bind_eq_some_iff.mp step
        cases same
        refine Or.inr ⟨.reply (readBytes k (c.links i).inbox).1, w', ?_, rfl⟩
        simp only [Wait.next, ready]
        exact recorded
  | hangup ok =>
    simp only [next, waiting] at step
    cases ready : w.ready with
    | nil =>
      simp only [ready] at step
      cases step
    | cons i rest =>
      simp only [ready] at step
      split at step
      · cases step
        unfold Cluster.onHangup
        cases ok with
        | true => exact Or.inr ⟨.hangup true, _, by simp only [Wait.next, ready, if_true], rfl⟩
        | false => exact Or.inr ⟨.hangup false, _, by simp only [Wait.next, ready, Bool.false_eq_true, if_false], rfl⟩
      · cases step
  | read i k =>
    obtain ⟨l, _, rfl⟩ := Option.map_eq_some_iff.mp step
    exact Or.inl waiting
  | eof i =>
    obtain ⟨l, _, rfl⟩ := Option.map_eq_some_iff.mp step
    exact Or.inl waiting
  | lose i k j =>
    cases step
    exact Or.inl waiting
  | stop i =>
    cases step
    exact Or.inl waiting

namespace Poll

variable {n i : Nat} {before : Nat → Int} {preparedRequestMsg : Str} {s t : Poll} {w : Wait}

/-- The system's variables say the same of each participant: a live one is waited for until it
has answered. -/
structure Abstracts (n : Nat) (s : Poll) (w : Wait) : Prop where
  alive : w.aliveParticipantCount = s.aliveParticipantCount
  count : w.count = s.preparedCount
  timeout : w.timeout = s.timeout
  sockets : ∀ i < n, w.participantSocket i = s.live i
  waited : ∀ i < n, s.live i = true → w.allFdSet i = !s.answered i
  response : ∀ i < n, w.response i = s.response i

namespace Abstracts

theorem goesOn (same : Abstracts n s w) : w.GoesOn ↔ s.GoesOn := by
  unfold Wait.GoesOn Poll.GoesOn
  rw [same.alive, same.count]

theorem prepareResponse (same : Abstracts n s w) : w.prepareResponse n = s.prepareResponse n := by
  have checked : Wait.checkParticipantPreparedResponse n w.response =
      Wait.checkParticipantPreparedResponse n s.response := by
    unfold Wait.checkParticipantPreparedResponse
    congr 1
    rw [Bool.eq_iff_iff, List.all_eq_true, List.all_eq_true]
    apply forall₂_congr
    intro i member
    rw [same.response i (List.mem_range.mp member)]
  unfold Wait.prepareResponse Poll.prepareResponse
  rw [same.count, checked]

theorem waitedFor (same : Abstracts n s w) (small : i < n) : w.waitedFor i = (s.live i && !s.answered i) := by
  unfold Wait.waitedFor
  rw [same.sockets i small]
  cases live : s.live i with
  | false => rfl
  | true => rw [same.waited i small live]

theorem aside (same : Abstracts n s w) (timeout : Nat) (sent : List (Int × Str)) (ready : List Nat) :
    Abstracts n { s with timeout := timeout, sent := sent } { w with timeout := timeout, ready := ready } :=
  { same with timeout := rfl }

theorem start {participantSocket : Nat → Int} {aliveParticipantCount : Int} {vaild : Nat → Bool} {descriptors : Finset Int}
    (started : Poll.start n participantSocket aliveParticipantCount vaild descriptors = some s) :
    Abstracts n s (Wait.start s.live s.aliveParticipantCount) := by
  obtain ⟨_, _, rfl⟩ := Option.map_eq_some_iff.mp started
  exact ⟨rfl, rfl, rfl, fun _ _ => rfl, fun _ _ live => live, fun _ _ => rfl⟩

end Abstracts

theorem saysPrepared_eq {data : Str} {parsed : Bool × List Str} (read : parseClusterMsg data = some parsed) :
    saysPrepared data = (parsed.1 && decide (parsed.2[0]? = some PREPARED)) := by
  obtain ⟨valid, lines⟩ := parsed
  unfold saysPrepared
  rw [read]
  cases valid with
  | false => rfl
  | true =>
    cases lines with
    | nil => rfl
    | cons kind rest => simp

namespace Abstracts

theorem accept (same : Abstracts n s w) (i : Nat) (data : Str) (ready : List Nat) :
    Abstracts n (s.accept i data)
      { w with ready := ready, response := Function.update w.response i (if saysPrepared data then 1 else 0),
               allFdSet := Function.update w.allFdSet i false, count := w.count + 1 } where
  alive := same.alive
  count := congrArg (· + 1) same.count
  timeout := same.timeout
  sockets := same.sockets
  waited := by
    intro j small live
    rw [accept_answered]
    by_cases here : j = i
    · subst here
      simp
    · simp only [Function.update_of_ne here]
      exact same.waited j small live
  response := by
    intro j small
    by_cases here : j = i
    · subst here
      simp [Poll.accept]
    · simp only [Poll.accept, Function.update_of_ne here]
      exact same.response j small

theorem lose (same : Abstracts n s w) (i : Nat) (descriptors : Finset Int) (ready : List Nat) :
    Abstracts n (s.lose i descriptors) ({ w with ready := ready }.remove i) where
  alive := congrArg (· - 1) same.alive
  count := same.count
  timeout := same.timeout
  sockets := by
    intro j small
    rw [lose_live]
    by_cases here : j = i
    · subst here
      simp [Wait.remove]
    · simp only [Wait.remove, Function.update_of_ne here]
      exact same.sockets j small
  waited := by
    intro j small live
    rw [lose_live] at live
    obtain ⟨other, live⟩ := of_update_false live
    simp only [Wait.remove, Function.update_of_ne other]
    exact same.waited j small live
  response := same.response

theorem renew (same : Abstracts n s w) {fd : Int} (live : s.live i = true) (waiting : s.answered i = false) (positive : 0 < fd)
    (sent : List (Int × Str)) (ready : List Nat) :
    Abstracts n (s.renew i fd sent) { w with ready := ready, allFdSet := Function.update w.allFdSet i true } where
  alive := same.alive
  count := same.count
  timeout := same.timeout
  sockets := by
    rw [renew_live s sent (of_decide_eq_true live) positive]
    exact same.sockets
  waited := by
    rw [renew_live s sent (of_decide_eq_true live) positive]
    intro j small live
    by_cases here : j = i
    · subst here
      exact (Function.update_self j true w.allFdSet).trans (congrArg not waiting).symm
    · simp only [Function.update_of_ne here]
      exact same.waited j small live
  response := same.response

end Abstracts

theorem Received.simulated {ready : List Nat} (result : Received s i t) (same : Abstracts n s w)
    (live : s.live i = true) (waiting : s.answered i = false) (first : w.ready = i :: ready) :
    ∃ e w', w.next n e = some w' ∧ Abstracts n t w' ∧ w'.ready = ready := by
  cases result with
  | @answer data parsed read =>
    refine ⟨.reply data, _, ?_, same.accept i data ready, rfl⟩
    simp only [Wait.next, first, Wait.recordPrepared, read, saysPrepared_eq read]
    rfl
  | lost descriptors kept =>
    refine ⟨.hangup false, _, ?_, same.lose i descriptors ready, rfl⟩
    simp only [Wait.next, first, Bool.false_eq_true, if_false]
  | again sent =>
    refine ⟨.hangup true, _, ?_, same.renew live waiting (Descriptors.lowestFree_pos _) sent ready, rfl⟩
    simp only [Wait.next, first, if_true]

def found (s : Poll) (curFdSet : Finset Int) (rest : List Nat) : List Nat :=
  rest.filter fun i => decide (0 < s.participantSocket i ∧ s.participantSocket i ∈ curFdSet)

theorem scan_simulated (inv : Inv n before s) (same : Abstracts n s w) {curFdSet : Finset Int} {recv : Nat → Reading}
    {rest : List Nat} {nReady : Int} (small : ∀ i ∈ rest, i < n) (once : rest.Nodup)
    (ready : ∀ i ∈ rest, 0 < s.participantSocket i → s.participantSocket i ∈ curFdSet → s.answered i = false)
    (next : w.ready = s.found curFdSet rest) (count : nReady = w.ready.length)
    (step : Poll.scan preparedRequestMsg curFdSet recv rest nReady s = some t) :
    ∃ events w', Run (fun w e w' => Wait.next n w e = some w') w events w' ∧ Abstracts n t w' ∧ w'.ready = [] := by
  induction rest generalizing s w nReady with
  | nil =>
    cases step
    exact ⟨[], w, Run.refl w, same, next⟩
  | cons i rest ih =>
    obtain ⟨absent, once⟩ := List.nodup_cons.mp once
    have later := fun j member => small j (List.mem_cons_of_mem i member)
    unfold Poll.scan at step
    split at step
    · split at step
      · next here =>
        obtain ⟨middle, received, step⟩ := Option.bind_eq_some_iff.mp step
        have result := receive_cases received
        have waiting := ready i List.mem_cons_self here.1 here.2
        have first : w.ready = i :: s.found curFdSet rest := by
          rw [next]
          exact List.filter_cons_of_pos (decide_eq_true here)
        obtain ⟨e, w₁, moved, same₁, left⟩ := result.simulated same (decide_eq_true here.1) waiting first
        have others (j : Nat) (member : j ∈ rest) : j ≠ i := fun is => absent (is ▸ member)
        have unchanged : s.found curFdSet rest = middle.found curFdSet rest := by
          apply List.filter_congr
          intro j member
          rw [(result.others (others j member)).1]
        obtain ⟨events, w', run, done⟩ := ih (inv.received (small i List.mem_cons_self) here.1 waiting result) same₁ later once
          (by
            intro j member
            obtain ⟨socket, answered⟩ := result.others (others j member)
            rw [socket, answered]
            exact ready j (List.mem_cons_of_mem i member))
          (left.trans unchanged) (by rw [count, first, left, List.length_cons]; omega) step
        exact ⟨e :: events, w', Run.head moved run, done⟩
      · next elsewhere =>
        have skipped : w.ready = s.found curFdSet rest := by
          rw [next]
          exact List.filter_cons_of_neg (by rw [decide_eq_true_eq]; exact elsewhere)
        exact ih inv same later once (fun j member => ready j (List.mem_cons_of_mem i member)) skipped count step
    · next none =>
      cases step
      have empty : w.ready.length = 0 := by omega
      exact ⟨[], w, Run.refl w, same, List.eq_nil_of_length_eq_zero empty⟩

theorem found_length (inv : Inv n before s) {curFdSet : Finset Int} (selected : ∀ fd ∈ curFdSet, fd ∈ s.allFdSet) :
    (s.found curFdSet (List.range n)).length = curFdSet.card := by
  have member (i : Nat) : i ∈ s.found curFdSet (List.range n) ↔
      i < n ∧ 0 < s.participantSocket i ∧ s.participantSocket i ∈ curFdSet := by
    simp [found]
  have descriptors : curFdSet = (s.found curFdSet (List.range n)).toFinset.image s.participantSocket := by
    ext fd
    rw [Finset.mem_image]
    constructor
    · intro inside
      obtain ⟨i, small, rfl, positive⟩ := inv.owner fd (selected fd inside)
      exact ⟨i, List.mem_toFinset.mpr ((member i).mpr ⟨small, positive, inside⟩), rfl⟩
    · rintro ⟨i, inside, rfl⟩
      exact ((member i).mp (List.mem_toFinset.mp inside)).2.2
  have different : Set.InjOn s.participantSocket (s.found curFdSet (List.range n)).toFinset := by
    intro i first j second same
    obtain ⟨small, positive, _⟩ := (member i).mp (List.mem_toFinset.mp first)
    obtain ⟨smaller, _, _⟩ := (member j).mp (List.mem_toFinset.mp second)
    exact inv.distinct i small j smaller positive same
  calc (s.found curFdSet (List.range n)).length
      = (s.found curFdSet (List.range n)).toFinset.card :=
        (List.toFinset_card_of_nodup (List.nodup_range.filter _)).symm
    _ = ((s.found curFdSet (List.range n)).toFinset.image s.participantSocket).card :=
        (Finset.card_image_of_injOn different).symm
    _ = curFdSet.card := by rw [← descriptors]

structure Dropped (l : List Nat) (s t : Poll) : Prop where
  preparedCount : t.preparedCount = s.preparedCount
  response : t.response = s.response
  answered : t.answered = s.answered
  live : ∀ j, t.live j = (s.live j && !(decide (j ∈ l) && !s.answered j))
  alive : t.aliveParticipantCount = s.aliveParticipantCount - (l.filter fun i => s.live i && !s.answered i).length

theorem dropped (inv : Inv n before s) {l : List Nat} (small : ∀ i ∈ l, i < n) (once : l.Nodup) : Dropped l s (l.foldl drop s) := by
  induction l generalizing s with
  | nil => exact ⟨rfl, rfl, rfl, fun j => by simp, by simp⟩
  | cons i l ih =>
    obtain ⟨absent, once⟩ := List.nodup_cons.mp once
    have here := small i List.mem_cons_self
    have others (j : Nat) (member : j ∈ l) : j ≠ i := fun is => absent (is ▸ member)
    have rest := ih (inv.drop here) (fun j member => small j (List.mem_cons_of_mem i member)) once
    rw [List.foldl_cons]
    by_cases watched : 0 < s.participantSocket i ∧ s.participantSocket i ∈ s.allFdSet
    · have waiting := (inv.watched i here watched.1).mp watched.2
      have live : s.live i = true := decide_eq_true watched.1
      have gone : s.drop i = s.lose i (s.descriptors.erase (s.participantSocket i)) := if_pos watched
      rw [gone] at rest ⊢
      refine ⟨rest.preparedCount, rest.response, rest.answered, fun j => ?_, ?_⟩
      · rw [rest.live, lose_live]
        by_cases same : j = i
        · subst same
          simp [waiting]
        · rw [Function.update_of_ne same]
          simp only [List.mem_cons, same, false_or]
          rfl
      · rw [rest.alive, List.filter_cons_of_pos (by rw [live, waiting]; rfl), List.length_cons]
        have unchanged : (l.filter fun j => (s.lose i (s.descriptors.erase (s.participantSocket i))).live j &&
            !(s.lose i (s.descriptors.erase (s.participantSocket i))).answered j) = l.filter fun j => s.live j && !s.answered j := by
          apply List.filter_congr
          intro j member
          rw [lose_live, Function.update_of_ne (others j member)]
          rfl
        rw [unchanged]
        simp only [Poll.lose]
        omega
    · have stays : s.drop i = s := if_neg watched
      have skipped : (s.live i && !s.answered i) = false := by
        rw [Bool.and_eq_false_iff]
        by_cases positive : 0 < s.participantSocket i
        · refine Or.inr ?_
          rw [Bool.not_eq_false', ← Bool.not_eq_false]
          exact fun waiting => watched ⟨positive, (inv.watched i here positive).mpr waiting⟩
        · exact Or.inl (decide_eq_false positive)
      rw [stays] at rest ⊢
      refine ⟨rest.preparedCount, rest.response, rest.answered, fun j => ?_, ?_⟩
      · rw [rest.live]
        by_cases same : j = i
        · subst same
          revert skipped
          cases s.live j <;> cases s.answered j <;> simp [absent]
        · simp only [List.mem_cons, same, false_or]
      · rw [rest.alive, List.filter_cons_of_neg (by rw [skipped]; exact Bool.false_ne_true)]

theorem drop_simulated (inv : Inv n before s) (same : Abstracts n s w) :
    Abstracts n { (List.range n).foldl drop s with timeout := 0 } (w.giveUp n) := by
  have result := dropped inv (l := List.range n) (fun i member => List.mem_range.mp member) List.nodup_range
  generalize (List.range n).foldl drop s = t at result ⊢
  have given : (List.range n).filter w.waitedFor = (List.range n).filter fun i => s.live i && !s.answered i := by
    apply List.filter_congr
    intro i member
    exact same.waitedFor (List.mem_range.mp member)
  have member {i : Nat} (small : i < n) : decide (i ∉ (List.range n).filter w.waitedFor) = !(s.live i && !s.answered i) := by
    simp only [given, List.mem_filter, List.mem_range, small, true_and]
    cases s.live i && !s.answered i <;> rfl
  constructor
  · simp only [Wait.giveUp, given, result.alive, same.alive]
  · exact same.count.trans result.preparedCount.symm
  · rfl
  · intro i small
    change (w.participantSocket i && decide (i ∉ (List.range n).filter w.waitedFor)) = t.live i
    rw [member small, same.sockets i small, result.live]
    cases s.live i <;> cases s.answered i <;> simp [small]
  · intro i small live
    change (w.allFdSet i && decide (i ∉ (List.range n).filter w.waitedFor)) = !t.answered i
    change t.live i = true at live
    rw [result.live] at live
    rw [member small, result.answered]
    revert live
    cases before : s.live i with
    | false => simp
    | true =>
      rw [same.waited i small before]
      cases s.answered i <;> simp [small]
  · intro i small
    exact (same.response i small).trans (congrFun result.response i).symm

theorem Abstracts.resend (same : Abstracts n s w) (i : Nat) : Abstracts n (s.resend preparedRequestMsg i) w := by
  unfold Poll.resend
  split
  · exact { same with alive := same.alive }
  · exact same

/-- Each turn of the loop is a run of the system's events. -/
theorem turn_simulated (inv : Inv n before s) (same : Abstracts n s w) (idle : w.ready = []) {polled : Polled}
    (step : s.Turn n preparedRequestMsg polled t) :
    ∃ events w', Run (fun w e w' => Wait.next n w e = some w') w events w' ∧ Abstracts n t w' ∧ w'.ready = [] := by
  obtain ⟨goes, selected, step⟩ := step
  have goes := same.goesOn.mpr goes
  have small (i : Nat) (member : i ∈ List.range n) : i < n := List.mem_range.mp member
  unfold Poll.turn at step
  split at step
  · split at step
    · next third =>
      cases step
      refine ⟨[.timeout], w.giveUp n, Run.single ?_, drop_simulated inv same, idle⟩
      rw [Wait.next, if_pos ⟨idle, goes⟩, if_pos (same.timeout.trans third)]
    · next earlier =>
      cases step
      have sent : Abstracts n ((List.range n).foldl (Poll.resend preparedRequestMsg) s) w :=
        List.foldlRecOn (motive := fun s => Abstracts n s w) (List.range n) _ same fun s same i _ => same.resend i
      refine ⟨[.timeout], { w with timeout := w.timeout + 1 }, Run.single ?_, ?_, idle⟩
      · rw [Wait.next, if_pos ⟨idle, goes⟩, if_neg fun third => earlier (same.timeout.symm.trans third)]
      · exact { sent with timeout := congrArg (· + 1) sent.timeout }
  · next nonempty =>
    have length := found_length inv fun fd member => (selected fd member).1
    have member {i : Nat} (inside : i ∈ s.found polled.curFdSet (List.range n)) :
        i < n ∧ 0 < s.participantSocket i ∧ s.participantSocket i ∈ polled.curFdSet := by
      simpa [found] using inside
    have waiting (i : Nat) (small : i < n) (positive : 0 < s.participantSocket i)
        (ready : s.participantSocket i ∈ polled.curFdSet) : s.answered i = false :=
      (inv.watched i small positive).mp (selected _ ready).1
    have select : w.next n (.select (s.found polled.curFdSet (List.range n))) =
        some { w with ready := s.found polled.curFdSet (List.range n), timeout := 0 } := by
      refine if_pos ⟨idle, goes, ?_, List.pairwise_lt_range.filter _, ?_⟩
      · rw [← List.length_pos_iff, length]
        exact Finset.card_pos.mpr (Finset.nonempty_iff_ne_empty.mpr nonempty)
      · intro i inside
        obtain ⟨below, positive, ready⟩ := member inside
        rw [same.waitedFor below, waiting i below positive ready, show s.live i = true from decide_eq_true positive]
        exact ⟨below, rfl⟩
    obtain ⟨events, w', run, done⟩ := scan_simulated (inv.aside 0 s.sent) (same.aside 0 s.sent _) small List.nodup_range
      (fun i member => waiting i (small i member)) rfl (congrArg (Nat.cast : Nat → Int) length).symm step
    exact ⟨_, w', Run.head select run, done⟩

/-- The whole loop is a run of the system's events, from the start that the system gives it; in
the end both go on or both return the same. -/
theorem run_simulated {aliveParticipantCount : Int} {vaild : Nat → Bool} {descriptors : Finset Int} {first : Poll}
    {polls : List Polled} (connected : Connected n before descriptors)
    (counted : aliveParticipantCount = tally n fun i => decide (0 < before i))
    (started : Poll.start n before aliveParticipantCount vaild descriptors = some first)
    (run : Run (Turn n preparedRequestMsg) first polls s) :
    ∃ events w, Run (fun w e w' => Wait.next n w e = some w') (Wait.start first.live first.aliveParticipantCount) events w ∧
      w.ready = [] ∧ Abstracts n s w ∧ (w.GoesOn ↔ s.GoesOn) ∧ w.prepareResponse n = s.prepareResponse n := by
  have start := Inv.start connected counted started
  have simulated : ∃ events w, Run (fun w e w' => Wait.next n w e = some w')
      (Wait.start first.live first.aliveParticipantCount) events w ∧ Abstracts n s w ∧ w.ready = [] := by
    induction run with
    | refl => exact ⟨[], _, Run.refl _, Abstracts.start started, rfl⟩
    | tail earlier last ih =>
      obtain ⟨events, w, reached, same, idle⟩ := ih
      obtain ⟨more, w', further, done⟩ := turn_simulated (start.run earlier) same idle last
      exact ⟨events ++ more, w', reached.trans further, done⟩
  obtain ⟨events, w, reached, same, idle⟩ := simulated
  exact ⟨events, w, reached, idle, same, same.goesOn, same.prepareResponse⟩

end Poll

end CloudLab.TwoPC
