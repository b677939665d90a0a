import CloudLab.TwoPC.Sockets

/-! `waitForCommitOrAbort` with the descriptors that it closes, opens and watches: whoever has
answered is closed at once, and stays counted among the alive. -/

namespace CloudLab.TwoPC

open CloudLab Text Tally Descriptors

/-- The variables of `waitForCommitOrAbort`; what has been sent on which descriptor, and for the
record the messages received and the uses of the descriptors in `participantSocket`. -/
structure Finish extends Coordinator where
  participantSocket : Nat → Int
  aliveParticipantCount : Int
  allFdSet : Finset Int
  maxfd : Int
  finishedCount : Int
  timeout : Nat
  response_split_msg : List Str
  sent : List (Int × Str)
  messages : List (Nat × Str)
  uses : List Use

namespace Finish

def start (participantCount : Nat) (participantSocket : Nat → Int) (aliveParticipantCount : Int) (c : Coordinator) :
    Option Finish :=
  (Poll.watch participantSocket participantCount).map fun (allFdSet, maxfd) =>
    { toCoordinator := c, participantSocket, aliveParticipantCount, allFdSet, maxfd, finishedCount := 0, timeout := 0,
      response_split_msg := [], sent := [], messages := [], uses := [] }

def GoesOn (s : Finish) : Prop := 0 < s.aliveParticipantCount ∧ s.finishedCount < s.aliveParticipantCount

instance (s : Finish) : Decidable s.GoesOn := inferInstanceAs (Decidable (_ ∧ _))

def close (s : Finish) (fd : Int) : Finish :=
  { s with toCoordinator := s.toCoordinator.close fd, uses := s.uses ++ [.closed fd] }

def send (s : Finish) (fd : Int) (data : Str) : Finish :=
  { s with sent := s.sent ++ (sendMessage data).map fun data => (fd, data) }

def remove (s : Finish) (i : Nat) : Finish :=
  { s with participantSocket := Function.update s.participantSocket i (-1),
           vaild := Function.update s.vaild i false,
           aliveParticipantCount := s.aliveParticipantCount - 1 }

def drop (s : Finish) (i : Nat) : Finish :=
  if 0 < s.participantSocket i ∧ s.participantSocket i ∈ s.allFdSet then
    let fd := s.participantSocket i
    let s := s.close fd
    { s with allFdSet := s.allFdSet.erase fd }.remove i
  else s

def resend (requestMsg : Str) (s : Finish) (i : Nat) : Finish :=
  if 0 < s.participantSocket i ∧ s.participantSocket i ∈ s.allFdSet then s.send (s.participantSocket i) requestMsg
  else s

/-- A message of the participant, whose connection is closed then. The first one is kept if it can be
parsed; `none` when `parseClusterMsg` takes a byte off an empty line. -/
def record (s : Finish) (i : Nat) (participantMsg : Str) : Option Finish := do
  let (legal, partici_split_message) ← parseClusterMsg participantMsg
  let fd := s.participantSocket i
  let s := { s with response_split_msg := if legal ∧ s.finishedCount = 0 then partici_split_message else s.response_split_msg,
                    allFdSet := s.allFdSet.erase fd,
                    finishedCount := s.finishedCount + 1,
                    messages := s.messages ++ [(i, participantMsg)] }.close fd
  some { s with participantSocket := Function.update s.participantSocket i (-1) }

def reconnect (requestMsg : Str) (s : Finish) (i : Nat) (connects : Nat → Bool) : Option Finish :=
  let fd := s.participantSocket i
  let s := s.close fd
  let (reconfd, c) := s.toCoordinator.connectParticipant i connects
  let s := { s with toCoordinator := c, allFdSet := s.allFdSet.erase fd }
  if reconfd < 0 then some (s.remove i)
  else
    let s := { s with participantSocket := Function.update s.participantSocket i reconfd,
                      uses := s.uses ++ [Use.taken reconfd] }.send reconfd requestMsg
    (FD_SET reconfd s.allFdSet).map fun allFdSet => { s with allFdSet }

def handle (requestMsg : Str) (s : Finish) (i : Nat) : Answer → Option Finish
  | .message participantMsg => s.record i participantMsg
  | .gone connects => s.reconnect requestMsg i connects

def receive (requestMsg : Str) (s : Finish) (i : Nat) (reading : Reading) : Option Finish :=
  reading.getMessage.bind (s.handle requestMsg i)

def turn (participantCount : Nat) (requestMsg : Str) (s : Finish) (polled : Polled) : Option Finish :=
  let participants := List.range participantCount
  if polled.curFdSet = ∅ then
    if s.timeout = 3 then some { participants.foldl drop s with timeout := 0 }
    else
      let s := participants.foldl (resend requestMsg) s
      some { s with timeout := s.timeout + 1 }
  else
    scanReady participantSocket (receive requestMsg) polled.curFdSet polled.recv participants polled.curFdSet.card
      { s with timeout := 0 }

/-- A turn in which `select` reports some of the descriptors that it was given. -/
def Turn (participantCount : Nat) (requestMsg : Str) (s : Finish) (polled : Polled) (t : Finish) : Prop :=
  s.GoesOn ∧ (∀ fd ∈ polled.curFdSet, fd ∈ s.allFdSet ∧ fd < s.maxfd + 1) ∧
    s.turn participantCount requestMsg polled = some t

def commitResponse (s : Finish) : Int := if s.finishedCount = 0 then -1 else 1

variable {n i j : Nat} {held : Finset Int} {requestMsg : Str} {s t : Finish} {data : Str}

def live (s : Finish) (i : Nat) : Bool := decide (0 < s.participantSocket i)

/-- What holds at the head of the loop, where `held` are the sockets at the start: the alive are those
that have answered and those with a socket of their own, which is watched. -/
structure Inv (n : Nat) (held : Finset Int) (s : Finish) : Prop where
  connected : Connected n s.participantSocket s.descriptors
  alive : s.aliveParticipantCount = s.finishedCount + tally n s.live
  finished : s.finishedCount = s.messages.length
  once : (s.messages.map Prod.fst).Nodup
  replied : ∀ i data, (i, data) ∈ s.messages → i < n ∧ ¬ 0 < s.participantSocket i
  watched : s.allFdSet = openSockets n s.participantSocket
  highest : ∀ fd ∈ s.allFdSet, fd ≤ s.maxfd
  book : ledger held s.uses = some s.allFdSet

def accept (s : Finish) (i : Nat) (data : Str) (response_split_msg : List Str) : Finish :=
  { s with participantSocket := Function.update s.participantSocket i (-1),
           descriptors := s.descriptors.erase (s.participantSocket i),
           allFdSet := s.allFdSet.erase (s.participantSocket i),
           finishedCount := s.finishedCount + 1, response_split_msg := response_split_msg,
           messages := s.messages ++ [(i, data)], uses := s.uses ++ [.closed (s.participantSocket i)] }

def lose (s : Finish) (i : Nat) (descriptors : Finset Int) : Finish :=
  { s with participantSocket := Function.update s.participantSocket i (-1),
           vaild := Function.update s.vaild i false, aliveParticipantCount := s.aliveParticipantCount - 1,
           descriptors := descriptors, allFdSet := s.allFdSet.erase (s.participantSocket i),
           uses := s.uses ++ [.closed (s.participantSocket i)] }

def renew (s : Finish) (i : Nat) (fd : Int) (sent : List (Int × Str)) : Finish :=
  { s with participantSocket := Function.update s.participantSocket i fd,
           descriptors := insert fd (s.descriptors.erase (s.participantSocket i)),
           allFdSet := insert fd (s.allFdSet.erase (s.participantSocket i)), sent := sent,
           uses := s.uses ++ [.closed (s.participantSocket i)] ++ [.taken fd] }

inductive Received (s : Finish) (i : Nat) (recv : Reading) : Finish → Prop
  | answer (data : Str) (response_split_msg : List Str) : recv.getMessage = some (.message data) →
      Received s i recv (s.accept i data response_split_msg)
  | lost (connects : Nat → Bool) (descriptors : Finset Int) : recv.getMessage = some (.gone connects) →
      ¬ s.Connects i connects → s.descriptors.erase (s.participantSocket i) ⊆ descriptors →
      Received s i recv (s.lose i descriptors)
  | again (connects : Nat → Bool) (sent : List (Int × Str)) : recv.getMessage = some (.gone connects) →
      s.Connects i connects →
      Received s i recv (s.renew i (lowestFree (s.descriptors.erase (s.participantSocket i))) sent)

theorem receive_cases {recv : Reading} (step : s.receive requestMsg i recv = some t) : Received s i recv t := by
  obtain ⟨answer, returned, step⟩ := Option.bind_eq_some_iff.mp step
  cases answer with
  | message data =>
    obtain ⟨⟨legal, split⟩, parsed, same⟩ := Option.bind_eq_some_iff.mp step
    cases same
    exact .answer data _ returned
  | gone connects =>
    unfold handle reconnect at step
    rcases Coordinator.connectParticipant_cases (s.close (s.participantSocket i)).toCoordinator i connects with
      ⟨usable, connected⟩ | ⟨unusable, descriptors, kept, failed⟩
    · simp only [close, Coordinator.close] at connected
      have accepted : ¬ lowestFree (s.descriptors.erase (s.participantSocket i)) < 0 :=
        not_lt_of_gt (lowestFree_pos _)
      simp only [close, Coordinator.close, connected, if_neg accepted, send, FD_SET, Option.map_eq_some_iff] at step
      obtain ⟨allFdSet, set, rfl⟩ := step
      split at set
      · cases set
        exact .again connects _ returned usable
      · cases set
    · simp only [close, Coordinator.close] at failed kept
      simp only [close, Coordinator.close, failed, Int.reduceNeg, Int.reduceLT, if_true, remove, Function.update_idem,
        Option.some.injEq] at step
      subst step
      exact .lost connects descriptors returned unusable kept

namespace Inv

theorem mine (inv : Inv n held s) (small : i < n) (positive : 0 < s.participantSocket i) :
    s.participantSocket i ∈ s.allFdSet := by
  rw [inv.watched]
  exact socket_mem small positive

theorem replied_update (inv : Inv n held s) (positive : 0 < s.participantSocket i) (fd : Int)
    (member : (j, data) ∈ s.messages) : j < n ∧ ¬ 0 < Function.update s.participantSocket i fd j := by
  obtain ⟨below, none⟩ := inv.replied j data member
  have other : j ≠ i := fun same => none (same ▸ positive)
  rw [Function.update_of_ne other]
  exact ⟨below, none⟩

theorem accept (inv : Inv n held s) (small : i < n) (positive : 0 < s.participantSocket i) (data : Str)
    (response_split_msg : List Str) : Inv n held (s.accept i data response_split_msg) := by
  have mine := inv.mine small positive
  constructor
  · exact inv.connected.release small (Finset.Subset.refl _)
  · have count := inv.alive
    have fewer : tally n (s.accept i data response_split_msg).live + 1 = tally n s.live := tally_release small positive
    simp only [Finish.accept] at fewer ⊢
    omega
  · have count := inv.finished
    simp only [Finish.accept, List.length_append, List.length_singleton]
    omega
  · simp only [Finish.accept, List.map_append, List.map_cons, List.map_nil]
    refine inv.once.append (List.nodup_singleton i) ?_
    intro j earlier now
    obtain ⟨⟨k, answer⟩, member, rfl⟩ := List.mem_map.mp earlier
    cases List.mem_singleton.mp now
    exact (inv.replied k answer member).2 positive
  · intro j answer member
    rcases List.mem_append.mp member with earlier | now
    · exact inv.replied_update positive (-1) earlier
    · cases List.mem_singleton.mp now
      exact ⟨small, by simp [Finish.accept]⟩
  · simp only [Finish.accept]
    rw [openSockets_release inv.connected small, inv.watched]
  · exact fun fd member => inv.highest fd (Finset.mem_of_mem_erase member)
  · exact ledger_closed inv.book mine

theorem lose (inv : Inv n held s) (small : i < n) (positive : 0 < s.participantSocket i) {descriptors : Finset Int}
    (kept : s.descriptors.erase (s.participantSocket i) ⊆ descriptors) : Inv n held (s.lose i descriptors) := by
  have mine := inv.mine small positive
  constructor
  · exact inv.connected.release small kept
  · have count := inv.alive
    have fewer : tally n (s.lose i descriptors).live + 1 = tally n s.live := tally_release small positive
    simp only [Finish.lose] at fewer ⊢
    omega
  · exact inv.finished
  · exact inv.once
  · exact fun j answer member => inv.replied_update positive (-1) member
  · simp only [Finish.lose]
    rw [openSockets_release inv.connected small, inv.watched]
  · exact fun fd member => inv.highest fd (Finset.mem_of_mem_erase member)
  · exact ledger_closed inv.book mine

theorem renew (inv : Inv n held s) (small : i < n) (positive : 0 < s.participantSocket i) (sent : List (Int × Str)) :
    Inv n held (s.renew i (lowestFree (s.descriptors.erase (s.participantSocket i))) sent) := by
  have above := lowestFree_pos (s.descriptors.erase (s.participantSocket i))
  have unused := lowestFree_notMem (s.descriptors.erase (s.participantSocket i))
  have lower := lowestFree_le positive (Finset.notMem_erase (s.participantSocket i) s.descriptors)
  have connected := inv.connected.renew small
  generalize lowestFree (s.descriptors.erase (s.participantSocket i)) = fd at above unused lower connected ⊢
  have mine := inv.mine small positive
  have free : fd ∉ s.allFdSet.erase (s.participantSocket i) := by
    intro member
    obtain ⟨other, watched⟩ := Finset.mem_erase.mp member
    rw [inv.watched] at watched
    obtain ⟨j, below, rfl, live⟩ := mem_openSockets.mp watched
    exact unused (Finset.mem_erase.mpr ⟨other, inv.connected.opened j below live⟩)
  constructor
  · exact connected
  · have same : (s.renew i fd sent).live = s.live := live_renew positive above
    rw [same]
    exact inv.alive
  · exact inv.finished
  · exact inv.once
  · exact fun j answer member => inv.replied_update positive fd member
  · simp only [Finish.renew]
    rw [openSockets_place small above, openSockets_release inv.connected small, inv.watched]
  · intro fd' member
    rcases Finset.mem_insert.mp member with rfl | watched
    · exact le_trans lower (inv.highest _ mine)
    · exact inv.highest fd' (Finset.mem_of_mem_erase watched)
  · exact ledger_taken (ledger_closed inv.book mine) free

theorem received (inv : Inv n held s) (small : i < n) (positive : 0 < s.participantSocket i) {recv : Reading}
    (result : Received s i recv t) : Inv n held t := by
  cases result with
  | answer data response _ => exact inv.accept small positive data response
  | lost _ descriptors _ _ kept => exact inv.lose small positive kept
  | again _ sent _ _ => exact inv.renew small positive sent

end Inv

theorem Received.others {recv : Reading} (result : Received s i recv t) (other : j ≠ i) :
    t.participantSocket j = s.participantSocket j ∧ t.vaild j = s.vaild j := by
  cases result with
  | answer => exact ⟨Function.update_of_ne other _ _, rfl⟩
  | lost => exact ⟨Function.update_of_ne other _ _, Function.update_of_ne other _ _⟩
  | again => exact ⟨Function.update_of_ne other _ _, rfl⟩

/-- The turn of a participant, when something is received from it; `first` is where the loop over the
participants has begun. -/
structure Served (n : Nat) (polled : Polled) (first s : Finish) (i : Nat) (t : Finish) : Prop where
  small : i < n
  connected : 0 < s.participantSocket i
  ready : s.participantSocket i ∈ polled.curFdSet
  same : s.participantSocket i = first.participantSocket i ∧ s.vaild i = first.vaild i
  outcome : Received s i (polled.recv i) t

theorem scan_served (inv : Inv n held s) {polled : Polled} {nReady : Int}
    (selected : ∀ fd ∈ polled.curFdSet, fd ∈ s.allFdSet)
    (step : scanReady participantSocket (receive requestMsg) polled.curFdSet polled.recv (List.range n) nReady s = some t) :
    ∃ found, Run (fun s' i t => Served n polled s s' i t ∧ Inv n held s') s found t ∧ Inv n held t ∧
      (0 < nReady → polled.curFdSet ≠ ∅ → found ≠ []) := by
  obtain ⟨found, run, final, some⟩ := scanReady_run (Inv n held)
    (fun s' i => s'.participantSocket i = s.participantSocket i ∧ s'.vaild i = s.vaild i)
    step List.nodup_range inv
    (fun s' i t member inv _ receives => by
      obtain ⟨positive, _, received⟩ := receives
      have result := receive_cases received
      refine ⟨inv.received (List.mem_range.mp member) positive result, fun j other => ?_⟩
      obtain ⟨socket, vaild⟩ := result.others other
      rw [socket, vaild]
      exact ⟨rfl, id⟩)
    (fun _ _ _ _ => ⟨rfl, rfl⟩)
  refine ⟨found, run.mono ?_, final, fun ready nonempty => ?_⟩
  · rintro s' i t ⟨member, inv, same, positive, set, received⟩
    exact ⟨⟨List.mem_range.mp member, positive, set, same, receive_cases received⟩, inv⟩
  · obtain ⟨fd, set⟩ := Finset.nonempty_iff_ne_empty.mpr nonempty
    have watched := selected fd set
    rw [inv.watched] at watched
    obtain ⟨i, small, rfl, positive⟩ := mem_openSockets.mp watched
    exact some ready ⟨i, List.mem_range.mpr small, positive, set⟩

namespace Inv

theorem aside (inv : Inv n held s) (timeout : Nat) (sent : List (Int × Str)) :
    Inv n held { s with timeout := timeout, sent := sent } :=
  { inv with alive := inv.alive }

theorem drop (inv : Inv n held s) (small : i < n) : Inv n held (s.drop i) := by
  unfold Finish.drop
  split
  · next here => exact inv.lose small here.1 (Finset.Subset.refl _)
  · exact inv

theorem resend (inv : Inv n held s) (i : Nat) : Inv n held (s.resend requestMsg i) := by
  unfold Finish.resend
  split
  · exact inv.aside s.timeout _
  · exact inv

theorem turn (inv : Inv n held s) {polled : Polled} (step : s.Turn n requestMsg polled t) : Inv n held t := by
  obtain ⟨_, selected, step⟩ := step
  unfold Finish.turn at step
  split at step
  · split at step
    · cases step
      have dropped : Inv n held ((List.range n).foldl Finish.drop s) :=
        List.foldlRecOn (List.range n) Finish.drop inv fun s inv i member => inv.drop (List.mem_range.mp member)
      exact dropped.aside 0 _
    · cases step
      have sent : Inv n held ((List.range n).foldl (Finish.resend requestMsg) s) :=
        List.foldlRecOn (List.range n) _ inv fun s inv i _ => inv.resend i
      exact sent.aside _ _
  · obtain ⟨_, _, final, _⟩ := scan_served (inv.aside 0 s.sent) (fun fd member => (selected fd member).1) step
    exact final

theorem run {polls : List Polled} {first : Finish} (run : Run (Turn n requestMsg) first polls s)
    (start : Inv n held first) : Inv n held s :=
  run.invariant (Inv n held) (fun _ _ _ inv step => inv.turn step) start

end Inv

end Finish

end CloudLab.TwoPC
