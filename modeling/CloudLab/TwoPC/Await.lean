import CloudLab.TwoPC.Request

/-! The two waits: a `select` that reports sockets or times out, a reply, and the end of a
connection. -/

namespace CloudLab.TwoPC
open Text ByteStream Tally

section waits
variable {mode : Mode} {n : Nat} {db : Db} {t : Txn} {phase : Phase} {w : Wait}
  {vaild : Nat → Bool} {links : Nat → Link} {i : Nat} {ready : List Nat} {l : Link} {c c' : Cluster}

theorem WaitLink.congr {w' : Wait} (socket : w'.participantSocket i = w.participantSocket i)
    (descriptor : w'.allFdSet i = w.allFdSet i) (link : WaitLink mode db t w i l phase) :
    WaitLink mode db t w' i l phase := by
  cases phase with
  | prepare => simpa only [WaitLink, socket, descriptor] using link
  | decision => simpa only [WaitLink, socket] using link
  | get => simpa only [WaitLink, socket] using link

theorem ControlInv.waits (known : ControlInv mode n db vaild (.wait t phase w)) : WaitInv n vaild w := by
  cases phase with
  | prepare => exact known.2.2.toWaitInv
  | decision => exact known.2.2.1.toWaitInv
  | get => exact known.2.2.1.toWaitInv

theorem ControlInv.reselect (known : ControlInv mode n db vaild (.wait t phase w))
    (ready : List Nat) (timeout : Nat) (sorted : ready.Pairwise (· < ·)) (monitored : ∀ i ∈ ready, w.allFdSet i = true) :
    ControlInv mode n db vaild (.wait t phase { w with ready := ready, timeout := timeout }) := by
  cases phase with
  | prepare =>
    obtain ⟨valid, writes, inv⟩ := known
    exact ⟨valid, writes, { inv with sorted := sorted, ready := monitored }⟩
  | decision =>
    obtain ⟨valid, writes, inv, untouched⟩ := known
    exact ⟨valid, writes, { inv with sorted := sorted, ready := monitored }, untouched⟩
  | get =>
    obtain ⟨valid, reads, inv, small, somebody⟩ := known
    exact ⟨valid, reads, { inv with sorted := sorted, ready := monitored }, small, somebody⟩

theorem Inv.select (inv : Inv mode n db c) (step : next n c (.select ready) = some c') :
    Inv mode n db c' := by
  cases next_branch step with
  | @select _ _ w _ _ _ _ sorted reported =>
    have monitored : ∀ i ∈ ready, w.allFdSet i = true := by
      intro i member
      have waited := (reported i member).2.1
      simp only [Wait.waitedFor, Bool.and_eq_true] at waited
      exact waited.2
    exact ⟨inv.control.reselect _ _ sorted monitored,
      fun i bound alive => (inv.links i bound alive).congr rfl rfl, inv.everyone⟩

/-! A timeout. -/

theorem mem_given : i ∈ (List.range n).filter w.waitedFor ↔
    i < n ∧ w.participantSocket i = true ∧ w.allFdSet i = true := by
  simp [Wait.waitedFor]

theorem giveUp_kept (other : i ∉ (List.range n).filter w.waitedFor) :
    (w.giveUp n).participantSocket i = w.participantSocket i ∧ (w.giveUp n).allFdSet i = w.allFdSet i := by
  simp only [Wait.giveUp, other, not_false_eq_true, decide_true, Bool.and_true, and_self]

theorem WaitInv.giveUp (inv : WaitInv n vaild w) (none : w.ready = []) :
    WaitInv n (fun i => vaild i && decide (i ∉ (List.range n).filter w.waitedFor)) (w.giveUp n) := by
  refine { sockets := ?_, monitored := ?_, sorted := ?_, ready := ?_ }
  · intro i socket
    simp only [Wait.giveUp, Bool.and_eq_true] at socket ⊢
    obtain ⟨bound, alive⟩ := inv.sockets i socket.1
    exact ⟨bound, alive, socket.2⟩
  · intro i descriptor
    simp only [Wait.giveUp, Bool.and_eq_true] at descriptor ⊢
    exact ⟨inv.monitored i descriptor.1, descriptor.2⟩
  · simp [Wait.giveUp, none]
  · simp [Wait.giveUp, none]

theorem tally_giveUp (n : Nat) (w : Wait) :
    tally n (w.giveUp n).participantSocket = tally n fun i => w.participantSocket i && !w.allFdSet i := by
  apply tally_congr
  intro i bound
  by_cases member : i ∈ (List.range n).filter w.waitedFor
  · obtain ⟨_, socket, descriptor⟩ := mem_given.mp member
    simp [Wait.giveUp, Wait.waitedFor, bound, socket, descriptor]
  · have other := mt mem_given.mpr member
    cases socket : w.participantSocket i <;> cases descriptor : w.allFdSet i <;>
      simp [Wait.giveUp, Wait.waitedFor, bound, socket, descriptor] at other ⊢

theorem alive_giveUp (n : Nat) (w : Wait) :
    (((List.range n).filter w.waitedFor).length : Int) +
      tally n (fun i => w.participantSocket i && !w.allFdSet i) = tally n w.participantSocket := by
  rw [length_filter_range, tally_split n w.participantSocket w.allFdSet]
  rfl

theorem ControlInv.giveUp (strict : ¬ mode.calm) (known : ControlInv mode n db vaild (.wait t phase w))
    (none : w.ready = []) :
    ControlInv mode n db (fun i => vaild i && decide (i ∉ (List.range n).filter w.waitedFor))
      (.wait t phase (w.giveUp n)) := by
  have counts := alive_giveUp n w
  have waits := known.waits.giveUp none
  have allGone : (∀ i, w.participantSocket i = true → w.allFdSet i = true) →
      tally n (fun i => w.participantSocket i && !w.allFdSet i) = 0 ∧
        ∀ i, (w.giveUp n).participantSocket i = true → (w.giveUp n).allFdSet i = true := by
    intro all
    constructor
    · rw [tally_eq_zero]
      intro i _
      cases socket : w.participantSocket i with
      | false => rfl
      | true => simp [all i socket]
    · intro i socket
      simp only [Wait.giveUp, Bool.and_eq_true] at socket ⊢
      exact ⟨all i socket.1, socket.2⟩
  cases phase with
  | prepare =>
    obtain ⟨valid, writes, inv⟩ := known
    refine ⟨valid, writes, { waits with alive := ?_, count := ?_, agreed := inv.agreed }⟩
    · have before := inv.alive
      rw [tally_giveUp]
      simp only [Wait.giveUp]
      omega
    · have same : tally n (fun i => (w.giveUp n).participantSocket i && !(w.giveUp n).allFdSet i) =
          tally n fun i => w.participantSocket i && !w.allFdSet i := by
        apply tally_congr
        intro i bound
        cases socket : w.participantSocket i <;> cases descriptor : w.allFdSet i <;>
          simp [Wait.giveUp, Wait.waitedFor, bound, socket, descriptor]
      rw [same]
      exact inv.count
  | decision commit =>
    obtain ⟨valid, writes, inv, untouched⟩ := known
    obtain ⟨zero, all⟩ := allGone inv.all
    refine ⟨valid, writes, { waits with alive := ?_, positive := inv.positive, all := all, first := inv.first }, ?_⟩
    · have before := inv.alive
      rw [tally_giveUp]
      simp only [Wait.giveUp]
      omega
    · intro count i bound alive
      simp only [Bool.and_eq_true, decide_eq_true_eq] at alive
      have socket := untouched count i bound alive.1
      exact absurd (mem_given.mpr ⟨bound, socket, inv.all i socket⟩) alive.2
  | get todo =>
    obtain ⟨valid, reads, inv, small, _⟩ := known
    obtain ⟨zero, all⟩ := allGone inv.all
    refine ⟨valid, reads, { waits with alive := ?_, positive := inv.positive, all := all, first := inv.first },
      small, fun calm => absurd calm strict⟩
    have before := inv.alive
    rw [tally_giveUp]
    simp only [Wait.giveUp]
    omega

theorem WaitLink.resend (strict : ¬ mode.calm) (socket : w.participantSocket i = true)
    (descriptor : w.allFdSet i = true) (link : WaitLink mode db t w i l phase) :
    WaitLink mode db t w i (l.send (phase.message t)) phase := by
  cases phase with
  | prepare =>
    refine ⟨socket, fun _ => (link.2.1 descriptor).resendRequest strict, ?_⟩
    intro off
    rw [descriptor] at off
    cases off
  | decision commit =>
    obtain ⟨follows, answered⟩ := link.1 socket
    refine ⟨fun _ => ⟨follows.resendDecision strict, answered.send _⟩, ?_⟩
    intro off
    rw [socket] at off
    cases off
  | get =>
    refine ⟨fun _ => (link.1 socket).resendGet strict, ?_⟩
    intro off
    rw [socket] at off
    cases off

theorem Inv.timeout (inv : Inv mode n db c) (strict : ¬ mode.calm) (step : next n c .timeout = some c') :
    Inv mode n db c' := by
  cases next_branch step with
  | @giveUp t phase w vaild links queue =>
    refine ⟨inv.control.giveUp strict queue, ?_, fun calm => absurd calm strict⟩
    intro i bound alive
    simp only [Bool.and_eq_true, decide_eq_true_eq] at alive
    have link : WaitLink mode db t w i (links i) phase := inv.links i bound alive.1
    show WaitLink mode db t (w.giveUp n) i
      (if i ∈ (List.range n).filter w.waitedFor then (links i).close else links i) phase
    rw [if_neg alive.2]
    obtain ⟨socket, descriptor⟩ := giveUp_kept alive.2
    exact link.congr socket descriptor
  | @resend t phase w vaild links =>
    have waits := inv.control.waits
    refine ⟨inv.control.reselect w.ready _ waits.sorted waits.ready, ?_, inv.everyone⟩
    intro i bound alive
    have link : WaitLink mode db t w i (links i) phase := inv.links i bound alive
    show WaitLink mode db t { w with timeout := w.timeout + 1 } i
      (if i < n ∧ w.waitedFor i then (links i).send (phase.message t) else links i) phase
    split
    · next waited =>
      simp only [Wait.waitedFor, Bool.and_eq_true] at waited
      exact (link.resend strict waited.2.1 waited.2.2).congr rfl rfl
    · exact link.congr rfl rfl

/-! A reply. -/

theorem WaitInv.head (inv : WaitInv n vaild w) (queue : w.ready = i :: ready) :
    w.allFdSet i = true ∧ w.participantSocket i = true ∧ i < n ∧ vaild i = true := by
  have descriptor := inv.ready i (by simp [queue])
  have socket := inv.monitored i descriptor
  obtain ⟨bound, alive⟩ := inv.sockets i socket
  exact ⟨descriptor, socket, bound, alive⟩

theorem WaitInv.tail (inv : WaitInv n vaild w) (queue : w.ready = i :: ready) :
    ready.Pairwise (· < ·) ∧ ∀ j ∈ ready, j ≠ i ∧ w.allFdSet j = true := by
  have sorted := inv.sorted
  rw [queue, List.pairwise_cons] at sorted
  refine ⟨sorted.2, fun j member => ⟨?_, inv.ready j (by simp [queue, member])⟩⟩
  have later := sorted.1 j member
  omega

theorem parse_prepared (valid : t.Valid) :
    parseClusterMsg (preparedMsg t) = some (true, [PREPARED, decimal t.id, t.split_message.headD []]) := by
  have plain : ∀ line ∈ [PREPARED, decimal t.id, t.split_message.headD []], '\n' ∉ line := by
    intro line member
    simp only [List.mem_cons, List.not_mem_nil, or_false] at member
    rcases member with rfl | rfl | rfl
    · exact no_newline_words _ (by simp)
    · exact newline_not_mem_decimal t.id
    · match fields : t.split_message with
      | [] => simp
      | head :: rest => exact valid.lines head (by simp [fields])
  rw [preparedMsg, prepare_wire, parseClusterMsg_wire (by simp) plain]
  simp

theorem ControlInv.recordPrepared {w' : Wait} {data : Str}
    (known : ControlInv mode n db vaild (.wait t .prepare w)) (queue : w.ready = i :: ready)
    (agreed : mode.whole → data = preparedMsg t)
    (recorded : ({ w with ready := ready } : Wait).recordPrepared i data = some w') :
    ControlInv mode n db vaild (.wait t .prepare w') ∧ w'.participantSocket = w.participantSocket ∧
      w'.allFdSet = Function.update w.allFdSet i false := by
  obtain ⟨valid, writes, inv⟩ := known
  obtain ⟨descriptor, socket, bound, _⟩ := inv.head queue
  obtain ⟨sorted, later⟩ := inv.tail queue
  simp only [Wait.recordPrepared, Option.bind_eq_bind, Option.bind_eq_some_iff, Option.some.injEq] at recorded
  obtain ⟨parsed, result, rfl⟩ := recorded
  refine ⟨⟨valid, writes, ?_⟩, rfl, rfl⟩
  refine { sockets := inv.sockets, monitored := ?_, sorted := sorted, ready := ?_, alive := inv.alive,
           count := ?_, agreed := ?_ }
  · exact fun j on => inv.monitored j (of_update_false on).2
  · intro j member
    obtain ⟨other, on⟩ := later j member
    simp only [Function.update_of_ne other]
    exact on
  · have more := tally_update_true (f := fun j => w.participantSocket j && !w.allFdSet j) bound
      (by simp [descriptor])
    have same : (fun j => w.participantSocket j && !Function.update w.allFdSet i false j) =
        Function.update (fun j => w.participantSocket j && !w.allFdSet j) i true := by
      funext j
      by_cases here : j = i
      · simp [here, socket]
      · simp [here]
    simp only [same, more, inv.count]
    omega
  · intro whole j
    by_cases here : j = i
    · subst here
      rw [agreed whole, parse_prepared valid, Option.some.injEq] at result
      subst result
      simp
    · simp only [Function.update_of_ne here]
      exact inv.agreed whole j

theorem DoneInv.record {w' : Wait} {data : Str} (inv : DoneInv mode n db t phase vaild w)
    (queue : w.ready = i :: ready) (said : mode.whole → phase.Says mode db t data)
    (recorded : ({ w with ready := ready } : Wait).recordDone i data = some w') :
    DoneInv mode n db t phase vaild w' ∧ w'.count ≠ 0 ∧
      w'.participantSocket = Function.update w.participantSocket i false := by
  obtain ⟨descriptor, socket, bound, _⟩ := inv.head queue
  obtain ⟨sorted, later⟩ := inv.tail queue
  simp only [Wait.recordDone, Option.bind_eq_bind, Option.bind_eq_some_iff, Option.some.injEq] at recorded
  obtain ⟨⟨verdict, fields⟩, result, rfl⟩ := recorded
  have positive := inv.positive
  refine ⟨?_, by simp only; omega, rfl⟩
  refine { sockets := ?_, monitored := ?_, sorted := sorted, ready := ?_, alive := ?_, positive := ?_,
           all := ?_, first := ?_ }
  · exact fun j on => inv.sockets j (of_update_false on).2
  · intro j on
    obtain ⟨other, on⟩ := of_update_false on
    simp only [Function.update_of_ne other]
    exact inv.monitored j on
  · intro j member
    obtain ⟨other, on⟩ := later j member
    simp only [Function.update_of_ne other]
    exact on
  · have fewer := tally_update_false bound socket
    have before := inv.alive
    simp only
    omega
  · simp only
    omega
  · intro j on
    obtain ⟨other, on⟩ := of_update_false on
    simp only [Function.update_of_ne other]
    exact inv.all j on
  · intro _ whole
    by_cases zero : w.count = 0
    · refine ⟨data, said whole, verdict, fields, result, ?_⟩
      rintro rfl
      simp [zero]
    · simp only [zero, and_false, if_false]
      exact inv.first zero whole

theorem taken_message {k : Nat} {inbox : List (Seg Char)} (some : ¬ (k = 0 ∨ size inbox < k)) :
    ∃ seg rest, inbox = seg :: rest ∧ (Exact k inbox → readBytes k inbox = (seg.message, rest)) := by
  match inbox with
  | [] =>
    simp [size] at some
  | seg :: rest =>
    refine ⟨seg, rest, rfl, ?_⟩
    rintro ⟨_, _, same, whole, long⟩
    cases same
    rw [long]
    refine readBytes_exact whole fun none => some (Or.inl ?_)
    rw [long, none]
    rfl

theorem Inv.recordPrepared {k : Nat} {w' : Wait}
    (inv : Inv mode n db ⟨.wait t .prepare w, vaild, links⟩) (queue : w.ready = i :: ready)
    (whole : mode.whole → Exact k (links i).inbox) (some : ¬ (k = 0 ∨ size (links i).inbox < k))
    (recorded : ({ w with ready := ready } : Wait).recordPrepared i (readBytes k (links i).inbox).1 = .some w') :
    Inv mode n db ⟨.wait t .prepare w', vaild,
      Function.update links i { links i with inbox := (readBytes k (links i).inbox).2 }⟩ := by
  obtain ⟨seg, rest, inbox, exactly⟩ := taken_message some
  obtain ⟨descriptor, socket, bound, alive⟩ := inv.control.waits.head queue
  have link : WaitLink mode db t w i (links i) .prepare := inv.links i bound alive
  have follows := link.2.1 descriptor
  have agreed : mode.whole → (readBytes k (links i).inbox).1 = preparedMsg t := by
    intro reads
    rw [exactly (whole reads)]
    exact follows.1.1 seg (by simp [inbox])
  obtain ⟨known, sockets, descriptors⟩ := inv.control.recordPrepared queue agreed recorded
  refine ⟨known, ?_, inv.everyone⟩
  intro j small vaildJ
  by_cases same : j = i
  · subst same
    simp only [Function.update_self]
    refine ⟨by rw [sockets]; exact socket, ?_, fun _ => ?_⟩
    · rw [descriptors, Function.update_self]
      intro on
      cases on
    · refine follows.takePrepared (by simp [inbox]) mem_readBytes fun calm => ?_
      have one := follows.1.2 calm
      rw [inbox, List.length_cons] at one
      rw [exactly (whole (mode.calm_whole calm))]
      have none : rest.length = 0 := by omega
      exact List.eq_nil_of_length_eq_zero none
  · simp only [Function.update_of_ne same]
    have link : WaitLink mode db t w j (links j) .prepare := inv.links j small vaildJ
    exact link.congr (by rw [sockets]) (by rw [descriptors, Function.update_of_ne same])

theorem Inv.recordDone {k : Nat} {w' : Wait} {commit : Bool}
    (inv : Inv mode n db ⟨.wait t (.decision commit) w, vaild, links⟩) (queue : w.ready = i :: ready)
    (whole : mode.whole → Exact k (links i).inbox)
    (done : ¬ mode.calm → ∀ seg rest, (links i).inbox = seg :: rest → seg.message ≠ preparedMsg t)
    (some : ¬ (k = 0 ∨ size (links i).inbox < k))
    (recorded : ({ w with ready := ready } : Wait).recordDone i (readBytes k (links i).inbox).1 = .some w') :
    Inv mode n db ⟨.wait t (.decision commit) w', vaild, Function.update links i (links i).close⟩ := by
  obtain ⟨seg, rest, inbox, exactly⟩ := taken_message some
  obtain ⟨valid, writes, known, untouched⟩ := inv.control
  obtain ⟨descriptor, socket, bound, alive⟩ := known.head queue
  have link : WaitLink mode db t w i (links i) (.decision commit) := inv.links i bound alive
  obtain ⟨follows, answered⟩ := link.1 socket
  have member : seg ∈ (links i).inbox := by simp [inbox]
  have other : seg.message ≠ preparedMsg t := by
    by_cases calm : mode.calm
    · exact ((follows.1 seg member).resolve_left fun strict => strict.1 calm).ne_prepared
    · exact done calm seg rest inbox
  obtain ⟨finished, message⟩ := follows.finished answered member other
  have said : mode.whole → Phase.Says mode db t (.decision commit) (readBytes k (links i).inbox).1 := by
    intro reads
    rw [exactly (whole reads)]
    exact message
  obtain ⟨known, counted, sockets⟩ := known.record queue said recorded
  refine ⟨⟨valid, writes, known, fun zero => absurd zero counted⟩, ?_, inv.everyone⟩
  intro j small vaildJ
  by_cases same : j = i
  · subst same
    simp only [Function.update_self]
    refine ⟨?_, fun _ => finished.close⟩
    rw [sockets, Function.update_self]
    intro on
    cases on
  · simp only [Function.update_of_ne same]
    have link : WaitLink mode db t w j (links j) (.decision commit) := inv.links j small vaildJ
    have socketJ : w'.participantSocket j = w.participantSocket j := by
      rw [sockets, Function.update_of_ne same]
    exact ⟨fun on => link.1 (socketJ ▸ on), fun off => link.2 (socketJ ▸ off)⟩

theorem Inv.recordGet {k : Nat} {w' : Wait} {todo : List Nat}
    (inv : Inv mode n db ⟨.wait t (.get todo) w, vaild, links⟩) (queue : w.ready = i :: ready)
    (whole : mode.whole → Exact k (links i).inbox) (some : ¬ (k = 0 ∨ size (links i).inbox < k))
    (recorded : ({ w with ready := ready } : Wait).recordDone i (readBytes k (links i).inbox).1 = .some w') :
    Inv mode n db ⟨.wait t (.get todo) w', vaild, Function.update links i (links i).close⟩ := by
  obtain ⟨seg, rest, inbox, exactly⟩ := taken_message some
  obtain ⟨valid, reads, known, small, _⟩ := inv.control
  obtain ⟨descriptor, socket, bound, alive⟩ := known.head queue
  have link : WaitLink mode db t w i (links i) (.get todo) := inv.links i bound alive
  have follows := link.1 socket
  have said : mode.whole → Phase.Says mode db t (.get todo) (readBytes k (links i).inbox).1 := by
    intro one
    rw [exactly (whole one)]
    exact follows.1.1 seg (by simp [inbox])
  obtain ⟨known, counted, sockets⟩ := known.record queue said recorded
  refine ⟨⟨valid, reads, known, small, fun _ zero => absurd zero counted⟩, ?_, inv.everyone⟩
  intro j bound vaildJ
  by_cases same : j = i
  · subst same
    simp only [Function.update_self]
    refine ⟨?_, fun _ => follows.closeGet valid reads⟩
    rw [sockets, Function.update_self]
    intro on
    cases on
  · simp only [Function.update_of_ne same]
    have link : WaitLink mode db t w j (links j) (.get todo) := inv.links j bound vaildJ
    have socketJ : w'.participantSocket j = w.participantSocket j := by
      rw [sockets, Function.update_of_ne same]
    exact ⟨fun on => link.1 (socketJ ▸ on), fun off => link.2 (socketJ ▸ off)⟩

theorem Inv.reply (inv : Inv mode n db c) {k : Nat} (allowed : Allowed mode n c (.reply k))
    (step : next n c (.reply k) = some c') : Inv mode n db c' := by
  cases next_branch step with
  | @prepared t w w' _ _ i ready _ queue some recorded =>
    obtain ⟨whole, _⟩ := allowed t .prepare w i ready rfl queue
    exact inv.recordPrepared queue whole some recorded
  | @done t phase w w' _ _ i ready _ voted queue some recorded =>
    obtain ⟨whole, done⟩ := allowed t phase w i ready rfl queue
    cases phase with
    | prepare => exact absurd rfl voted
    | decision commit => exact inv.recordDone queue whole (fun strict => done strict commit rfl) some recorded
    | get todo => exact inv.recordGet queue whole some recorded

/-! The end of a connection. -/

theorem WaitLink.reconnect (strict : ¬ mode.calm) (valid : t.Valid) (fits : phase.Fits t)
    (socket : w.participantSocket i = true) (descriptor : w.allFdSet i = true)
    (link : WaitLink mode db t w i l phase) :
    WaitLink mode db t w i (l.close.connect.send (phase.message t)) phase := by
  cases phase with
  | prepare =>
    refine ⟨socket, fun _ => (link.2.1 descriptor).reconnectRequest strict valid fits, ?_⟩
    intro off
    rw [descriptor] at off
    cases off
  | decision commit =>
    refine ⟨fun _ => (link.1 socket).1.reconnectDecision strict valid, ?_⟩
    intro off
    rw [socket] at off
    cases off
  | get =>
    refine ⟨fun _ => (link.1 socket).reconnectGet strict valid fits, ?_⟩
    intro off
    rw [socket] at off
    cases off

theorem ControlInv.fits (known : ControlInv mode n db vaild (.wait t phase w)) :
    t.Valid ∧ phase.Fits t := by
  cases phase with
  | prepare => exact ⟨known.1, known.2.1⟩
  | decision => exact ⟨known.1, known.2.1⟩
  | get => exact ⟨known.1, known.2.1⟩

theorem WaitInv.remove (inv : WaitInv n vaild w) (queue : w.ready = i :: ready) :
    WaitInv n (Function.update vaild i false) ({ w with ready := ready }.remove i) := by
  obtain ⟨sorted, later⟩ := inv.tail queue
  refine { sockets := ?_, monitored := ?_, sorted := sorted, ready := ?_ }
  · intro j on
    obtain ⟨other, on⟩ := of_update_false on
    rw [Function.update_of_ne other]
    exact inv.sockets j on
  · intro j on
    obtain ⟨other, on⟩ := of_update_false on
    simp only [Wait.remove, Function.update_of_ne other]
    exact inv.monitored j on
  · intro j member
    obtain ⟨other, on⟩ := later j member
    simp only [Wait.remove, Function.update_of_ne other]
    exact on

theorem ControlInv.remove (strict : ¬ mode.calm) (known : ControlInv mode n db vaild (.wait t phase w))
    (queue : w.ready = i :: ready) :
    ControlInv mode n db (Function.update vaild i false) (.wait t phase ({ w with ready := ready }.remove i)) := by
  obtain ⟨descriptor, socket, bound, _⟩ := known.waits.head queue
  have waits := known.waits.remove queue
  have fewer := tally_update_false bound socket
  have kept : (∀ j, w.participantSocket j = true → w.allFdSet j = true) →
      ∀ j, ({ w with ready := ready }.remove i).participantSocket j = true →
        ({ w with ready := ready }.remove i).allFdSet j = true := by
    intro all j on
    obtain ⟨other, on⟩ := of_update_false on
    simp only [Wait.remove, Function.update_of_ne other]
    exact all j on
  cases phase with
  | prepare =>
    obtain ⟨valid, writes, inv⟩ := known
    refine ⟨valid, writes, { waits with alive := ?_, count := ?_, agreed := inv.agreed }⟩
    · have before := inv.alive
      simp only [Wait.remove]
      omega
    · have same : (fun j => Function.update w.participantSocket i false j && !Function.update w.allFdSet i false j) =
          fun j => w.participantSocket j && !w.allFdSet j := by
        funext j
        by_cases here : j = i
        · simp [here, descriptor]
        · simp [here]
      simp only [Wait.remove, same]
      exact inv.count
  | decision commit =>
    obtain ⟨valid, writes, inv, untouched⟩ := known
    refine ⟨valid, writes,
      { waits with alive := ?_, positive := inv.positive, all := kept inv.all, first := inv.first }, ?_⟩
    · have before := inv.alive
      simp only [Wait.remove]
      omega
    · intro count j small alive
      obtain ⟨other, alive⟩ := of_update_false alive
      simp only [Wait.remove, Function.update_of_ne other]
      exact untouched count j small alive
  | get todo =>
    obtain ⟨valid, reads, inv, small, _⟩ := known
    refine ⟨valid, reads,
      { waits with alive := ?_, positive := inv.positive, all := kept inv.all, first := inv.first }, small,
      fun calm => absurd calm strict⟩
    have before := inv.alive
    simp only [Wait.remove]
    omega

theorem Inv.hangup (inv : Inv mode n db c) {ok : Bool} (strict : ¬ mode.calm)
    (step : next n c (.hangup ok) = some c') : Inv mode n db c' := by
  cases next_branch step with
  | @reconnected t phase w vaild links i ready queue =>
    have waits := inv.control.waits
    obtain ⟨descriptor, socket, bound, alive⟩ := waits.head queue
    obtain ⟨sorted, later⟩ := waits.tail queue
    have again : Function.update w.allFdSet i true = w.allFdSet := by
      rw [← descriptor, Function.update_eq_self]
    obtain ⟨valid, fits⟩ := inv.control.fits
    have known := inv.control.reselect _ w.timeout sorted fun j member => (later j member).2
    refine ⟨?_, ?_, inv.everyone⟩
    · simp only [again]
      exact known
    · intro j small vaildJ
      have link : WaitLink mode db t w j (links j) phase := inv.links j small vaildJ
      simp only [again]
      by_cases same : j = i
      · subst same
        simp only [Function.update_self]
        exact (link.reconnect strict valid fits socket descriptor).congr rfl rfl
      · simp only [Function.update_of_ne same]
        exact link.congr rfl rfl
  | @removed t phase w vaild links i ready queue =>
    refine ⟨inv.control.remove strict queue, ?_, fun calm => absurd calm strict⟩
    intro j small vaildJ
    obtain ⟨other, vaildJ⟩ := of_update_false vaildJ
    have link : WaitLink mode db t w j (links j) phase := inv.links j small vaildJ
    simp only [Function.update_of_ne other]
    exact link.congr (Function.update_of_ne other _ _) (Function.update_of_ne other _ _)

end waits

end CloudLab.TwoPC
