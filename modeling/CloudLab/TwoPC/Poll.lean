import CloudLab.Library.Descriptors
import CloudLab.Library.Run
import CloudLab.Library.Tally
import CloudLab.TwoPC.Framing

/-! `waitForPrepared` with the descriptors that it closes, opens and watches. The participants
are the indices below `participantCount`, and `socket` gives the lowest free descriptor. -/

namespace CloudLab.TwoPC

open CloudLab Text Tally Descriptors

/-- Descriptors from here on do not fit in an `fd_set`. -/
def FD_SETSIZE : Int := 1024

def FD_SET (fd : Int) (set : Finset Int) : Option (Finset Int) :=
  if 0 ≤ fd ∧ fd < FD_SETSIZE then some (insert fd set) else none

/-- What a call of `getMessage` has found: a message, or that the connection is broken;
then also which calls of `connect` would succeed. -/
inductive Answer
  | message (participantMsg : Str)
  | gone (connects : Nat → Bool)

/-- What `recv` returns during one `getMessage`: some results and then nothing more, or full
buffers for ever; and the calls of `connect` that would succeed afterwards. -/
inductive Reading
  | recvs (results : List Recv) (connects : Nat → Bool)
  | endless

def Reading.getMessage : Reading → Option Answer
  | .recvs results connects =>
      (Coordinator.getMessage [] results).map fun result =>
        if result.1 ≤ 0 then .gone connects else .message result.2.1
  | .endless => none

/-- What `select` leaves in `curFdSet`, nothing after a timeout, and what is then received from
each participant. -/
structure Polled where
  curFdSet : Finset Int
  recv : Nat → Reading

/-- The variables of `waitForPrepared`; the `vaild` flags of `participantAddr`; the open
descriptors, what has been sent on which of them, and for the record the messages received. -/
structure Poll where
  participantSocket : Nat → Int
  vaild : Nat → Bool
  aliveParticipantCount : Int
  allFdSet : Finset Int
  maxfd : Int
  preparedCount : Int
  timeout : Nat
  response : Nat → Int
  descriptors : Finset Int
  sent : List (Int × Str)
  messages : List (Nat × Str)

namespace Poll

def watch (participantSocket : Nat → Int) (participantCount : Nat) : Option (Finset Int × Int) :=
  (List.range participantCount).foldlM (fun (allFdSet, maxfd) i =>
    if 0 < participantSocket i then
      (FD_SET (participantSocket i) allFdSet).map fun allFdSet => (allFdSet, max maxfd (participantSocket i))
    else some (allFdSet, maxfd)) (∅, 0)

def start (participantCount : Nat) (participantSocket : Nat → Int) (aliveParticipantCount : Int) (vaild : Nat → Bool)
    (descriptors : Finset Int) : Option Poll :=
  (watch participantSocket participantCount).map fun (allFdSet, maxfd) =>
    { participantSocket, vaild, aliveParticipantCount, allFdSet, maxfd, preparedCount := 0, timeout := 0,
      response := fun _ => -1, descriptors, sent := [], messages := [] }

def GoesOn (s : Poll) : Prop := 0 < s.aliveParticipantCount ∧ s.preparedCount < s.aliveParticipantCount

instance (s : Poll) : Decidable s.GoesOn := inferInstanceAs (Decidable (_ ∧ _))

def close (s : Poll) (fd : Int) : Poll := { s with descriptors := s.descriptors.erase fd }

def send (s : Poll) (fd : Int) (data : Str) : Poll :=
  { s with sent := s.sent ++ (sendMessage data).map fun data => (fd, data) }

/-- The new socket, or -1. The socket of three failed calls of `connect` is not closed. -/
def connectParticipant (s : Poll) (i : Nat) (connects : Nat → Bool) : Int × Poll :=
  if s.vaild i = false then (-1, s)
  else
    let sockfd := lowestFree s.descriptors
    let s := { s with descriptors := insert sockfd s.descriptors }
    if (List.range 3).any connects then (sockfd, s)
    else (-1, { s with vaild := Function.update s.vaild i false })

def remove (s : Poll) (i : Nat) : Poll :=
  { s with participantSocket := Function.update s.participantSocket i (-1),
           vaild := Function.update s.vaild i false,
           aliveParticipantCount := s.aliveParticipantCount - 1 }

def drop (s : Poll) (i : Nat) : Poll :=
  if 0 < s.participantSocket i ∧ s.participantSocket i ∈ s.allFdSet then
    let fd := s.participantSocket i
    let s := s.close fd
    { s with allFdSet := s.allFdSet.erase fd }.remove i
  else s

def resend (preparedRequestMsg : Str) (s : Poll) (i : Nat) : Poll :=
  if 0 < s.participantSocket i ∧ s.participantSocket i ∈ s.allFdSet then
    s.send (s.participantSocket i) preparedRequestMsg
  else s

def saysPrepared (data : Str) : Bool :=
  match parseClusterMsg data with
  | some (true, kind :: _) => decide (kind = PREPARED)
  | _ => false

/-- A message of the participant; `none` when `parseClusterMsg` takes a byte off an empty line. -/
def record (s : Poll) (i : Nat) (participantMsg : Str) : Option Poll := do
  let _ ← parseClusterMsg participantMsg
  some { s with response := Function.update s.response i (if saysPrepared participantMsg then 1 else 0),
                allFdSet := s.allFdSet.erase (s.participantSocket i),
                preparedCount := s.preparedCount + 1,
                messages := s.messages ++ [(i, participantMsg)] }

def reconnect (preparedRequestMsg : Str) (s : Poll) (i : Nat) (connects : Nat → Bool) : Option Poll :=
  let fd := s.participantSocket i
  let s := s.close fd
  let (reconfd, s) := { s with allFdSet := s.allFdSet.erase fd }.connectParticipant i connects
  if reconfd < 0 then some (s.remove i)
  else
    let s := { s with participantSocket := Function.update s.participantSocket i reconfd }.send reconfd preparedRequestMsg
    (FD_SET reconfd s.allFdSet).map fun allFdSet => { s with allFdSet }

def handle (preparedRequestMsg : Str) (s : Poll) (i : Nat) : Answer → Option Poll
  | .message participantMsg => s.record i participantMsg
  | .gone connects => s.reconnect preparedRequestMsg i connects

def receive (preparedRequestMsg : Str) (s : Poll) (i : Nat) (reading : Reading) : Option Poll :=
  reading.getMessage.bind (s.handle preparedRequestMsg i)

def scan (preparedRequestMsg : Str) (curFdSet : Finset Int) (recv : Nat → Reading) : List Nat → Int → Poll → Option Poll
  | [], _, s => some s
  | i :: rest, nReady, s =>
      if 0 < nReady then
        if 0 < s.participantSocket i ∧ s.participantSocket i ∈ curFdSet then
          (s.receive preparedRequestMsg i (recv i)).bind (scan preparedRequestMsg curFdSet recv rest (nReady - 1))
        else scan preparedRequestMsg curFdSet recv rest nReady s
      else some s

def turn (participantCount : Nat) (preparedRequestMsg : Str) (s : Poll) (polled : Polled) : Option Poll :=
  let participants := List.range participantCount
  if polled.curFdSet = ∅ then
    if s.timeout = 3 then some { participants.foldl drop s with timeout := 0 }
    else
      let s := participants.foldl (resend preparedRequestMsg) s
      some { s with timeout := s.timeout + 1 }
  else scan preparedRequestMsg polled.curFdSet polled.recv participants polled.curFdSet.card { s with timeout := 0 }

/-- A turn in which `select` reports some of the descriptors that it was given. -/
def Turn (participantCount : Nat) (preparedRequestMsg : Str) (s : Poll) (polled : Polled) (t : Poll) : Prop :=
  s.GoesOn ∧ (∀ fd ∈ polled.curFdSet, fd ∈ s.allFdSet ∧ fd < s.maxfd + 1) ∧
    s.turn participantCount preparedRequestMsg polled = some t

def prepareResponse (participantCount : Nat) (s : Poll) : Int :=
  if s.preparedCount = 0 then -1
  else if Wait.checkParticipantPreparedResponse participantCount s.response then 1 else 0

variable {n i j : Nat} {before : Nat → Int} {preparedRequestMsg : Str} {s t : Poll}

def live (s : Poll) (i : Nat) : Bool := decide (0 < s.participantSocket i)

def answered (s : Poll) (i : Nat) : Bool := s.messages.any fun message => decide (message.1 = i)

theorem answered_iff : s.answered i = true ↔ ∃ data, (i, data) ∈ s.messages := by
  simp [answered]

/-- What holds at the head of the loop, where `before` are the sockets at the start: each live
participant has an open descriptor of its own, watched until it has answered, and those that
have answered are not given up. -/
structure Inv (n : Nat) (before : Nat → Int) (s : Poll) : Prop where
  alive : s.aliveParticipantCount = tally n s.live
  prepared : s.preparedCount = tally n s.answered
  stays : ∀ i < n, s.answered i = true → 0 < s.participantSocket i
  watched : ∀ i < n, 0 < s.participantSocket i → (s.participantSocket i ∈ s.allFdSet ↔ s.answered i = false)
  owner : ∀ fd ∈ s.allFdSet, ∃ i < n, s.participantSocket i = fd ∧ 0 < fd
  highest : ∀ fd ∈ s.allFdSet, fd ≤ s.maxfd
  distinct : ∀ i < n, ∀ j < n, 0 < s.participantSocket i → s.participantSocket i = s.participantSocket j → i = j
  opened : ∀ i < n, 0 < s.participantSocket i → s.participantSocket i ∈ s.descriptors
  votes : ∀ i data, (i, data) ∈ s.messages → i < n ∧ s.response i = if saysPrepared data then 1 else 0
  silent : ∀ i, s.answered i = false → s.response i = -1
  dropped : ∀ i < n, 0 < before i → 0 < s.participantSocket i ∨ s.vaild i = false

def accept (s : Poll) (i : Nat) (data : Str) : Poll :=
  { s with response := Function.update s.response i (if saysPrepared data then 1 else 0),
           allFdSet := s.allFdSet.erase (s.participantSocket i), preparedCount := s.preparedCount + 1,
           messages := s.messages ++ [(i, data)] }

def lose (s : Poll) (i : Nat) (descriptors : Finset Int) : Poll :=
  { s with participantSocket := Function.update s.participantSocket i (-1),
           vaild := Function.update s.vaild i false, aliveParticipantCount := s.aliveParticipantCount - 1,
           allFdSet := s.allFdSet.erase (s.participantSocket i), descriptors := descriptors }

def renew (s : Poll) (i : Nat) (fd : Int) (sent : List (Int × Str)) : Poll :=
  { s with participantSocket := Function.update s.participantSocket i fd,
           allFdSet := insert fd (s.allFdSet.erase (s.participantSocket i)),
           descriptors := insert fd (s.descriptors.erase (s.participantSocket i)), sent := sent }

inductive Received (s : Poll) (i : Nat) : Poll → Prop
  | answer (data : Str) {parsed : Bool × List Str} : parseClusterMsg data = some parsed → Received s i (s.accept i data)
  | lost (descriptors : Finset Int) : s.descriptors.erase (s.participantSocket i) ⊆ descriptors →
      Received s i (s.lose i descriptors)
  | again (sent : List (Int × Str)) :
      Received s i (s.renew i (lowestFree (s.descriptors.erase (s.participantSocket i))) sent)

theorem connectParticipant_cases (s : Poll) (i : Nat) (connects : Nat → Bool) :
    (∃ descriptors, s.descriptors ⊆ descriptors ∧ s.connectParticipant i connects =
        (-1, { s with descriptors := descriptors, vaild := Function.update s.vaild i false })) ∨
      s.connectParticipant i connects =
        (lowestFree s.descriptors, { s with descriptors := insert (lowestFree s.descriptors) s.descriptors }) := by
  unfold connectParticipant
  split
  · next invalid =>
    refine Or.inl ⟨s.descriptors, Finset.Subset.refl _, ?_⟩
    rw [← invalid, Function.update_eq_self]
  · split
    · exact Or.inr rfl
    · exact Or.inl ⟨_, Finset.subset_insert _ _, rfl⟩

theorem receive_cases {recv : Reading} (step : s.receive preparedRequestMsg i recv = some t) : Received s i t := by
  obtain ⟨answer, _, step⟩ := Option.bind_eq_some_iff.mp step
  cases answer with
  | message data =>
    obtain ⟨_, parsed, same⟩ := Option.bind_eq_some_iff.mp step
    cases same
    exact .answer data parsed
  | gone connects =>
    unfold handle reconnect at step
    rcases connectParticipant_cases { s.close (s.participantSocket i) with
        allFdSet := s.allFdSet.erase (s.participantSocket i) } i connects with ⟨descriptors, kept, failed⟩ | connected
    · simp only [close] at failed kept
      simp only [close, failed, Int.reduceNeg, Int.reduceLT, if_true, remove, Function.update_idem,
        Option.some.injEq] at step
      subst step
      exact .lost descriptors kept
    · simp only [close] at connected
      have accepted : ¬ lowestFree (s.descriptors.erase (s.participantSocket i)) < 0 :=
        not_lt_of_gt (lowestFree_pos _)
      simp only [close, connected, if_neg accepted, send, FD_SET, Option.map_eq_some_iff] at step
      obtain ⟨allFdSet, set, rfl⟩ := step
      split at set
      · cases set
        exact .again _
      · cases set

theorem accept_answered (s : Poll) (i : Nat) (data : Str) :
    (s.accept i data).answered = Function.update s.answered i true := by
  funext j
  by_cases same : j = i
  · subst same
    simp [answered, accept]
  · simp [answered, accept, Function.update_of_ne same, Ne.symm same]

theorem lose_live (s : Poll) (i : Nat) (descriptors : Finset Int) :
    (s.lose i descriptors).live = Function.update s.live i false := by
  funext j
  by_cases same : j = i
  · subst same
    simp [live, lose]
  · simp [live, lose, Function.update_of_ne same]

theorem renew_live (s : Poll) {i : Nat} {fd : Int} (sent : List (Int × Str)) (connected : 0 < s.participantSocket i)
    (positive : 0 < fd) : (s.renew i fd sent).live = s.live := by
  funext j
  by_cases same : j = i
  · subst same
    simp [live, renew, connected, positive]
  · simp [live, renew, Function.update_of_ne same]

namespace Inv

theorem alive_eq (inv : Inv n before s) :
    s.aliveParticipantCount = s.preparedCount + tally n fun i => s.live i && !s.answered i := by
  have split := tally_split n s.live s.answered
  have both : tally n (fun i => s.live i && s.answered i) = tally n s.answered := by
    apply tally_congr
    intro j below
    cases answered : s.answered j with
    | false => exact Bool.and_false _
    | true => simp [live, inv.stays j below answered]
  have alive := inv.alive
  have prepared := inv.prepared
  omega

theorem own (inv : Inv n before s) (small : i < n) (below : j < n) (other : j ≠ i) (positive : 0 < s.participantSocket j) :
    s.participantSocket j ≠ s.participantSocket i :=
  fun same => other (inv.distinct j below i small positive same)

theorem accept (inv : Inv n before s) (small : i < n) (connected : 0 < s.participantSocket i)
    (waiting : s.answered i = false) (data : Str) : Inv n before (s.accept i data) := by
  have answers := accept_answered s i data
  constructor
  · exact inv.alive
  · rw [answers, tally_update_true small waiting]
    have count := inv.prepared
    simp only [Poll.accept]
    omega
  · intro j below answered
    by_cases same : j = i
    · rw [same]
      exact connected
    · rw [answers, Function.update_of_ne same] at answered
      exact inv.stays j below answered
  · intro j below positive
    by_cases same : j = i
    · subst same
      rw [answers, Function.update_self]
      simp [Poll.accept]
    · rw [answers, Function.update_of_ne same, ← inv.watched j below positive]
      simp only [Poll.accept, Finset.mem_erase]
      exact and_iff_right (inv.own small below same positive)
  · exact fun fd member => inv.owner fd (Finset.mem_of_mem_erase member)
  · exact fun fd member => inv.highest fd (Finset.mem_of_mem_erase member)
  · exact inv.distinct
  · exact inv.opened
  · intro j answer member
    rcases List.mem_append.mp member with earlier | now
    · have other : j ≠ i := by
        rintro rfl
        have answered := answered_iff.mpr ⟨answer, earlier⟩
        rw [waiting] at answered
        cases answered
      simp only [Poll.accept, Function.update_of_ne other]
      exact inv.votes j answer earlier
    · cases List.mem_singleton.mp now
      exact ⟨small, Function.update_self _ _ _⟩
  · intro j silent
    have other : j ≠ i := by
      rintro rfl
      rw [answers, Function.update_self] at silent
      cases silent
    rw [answers, Function.update_of_ne other] at silent
    simp only [Poll.accept, Function.update_of_ne other]
    exact inv.silent j silent
  · exact inv.dropped

theorem lose (inv : Inv n before s) (small : i < n) (connected : 0 < s.participantSocket i)
    (waiting : s.answered i = false) {descriptors : Finset Int}
    (kept : s.descriptors.erase (s.participantSocket i) ⊆ descriptors) : Inv n before (s.lose i descriptors) := by
  -- the sockets after it: that of `i` is -1
  have socket {j : Nat} (positive : 0 < (s.lose i descriptors).participantSocket j) :
      j ≠ i ∧ (s.lose i descriptors).participantSocket j = s.participantSocket j := by
    by_cases same : j = i
    · subst same
      simp [Poll.lose] at positive
    · exact ⟨same, Function.update_of_ne same _ _⟩
  constructor
  · have count := inv.alive
    have fewer := tally_update_false (f := s.live) small (by simp [live, connected])
    rw [lose_live]
    simp only [Poll.lose]
    omega
  · exact inv.prepared
  · intro j below answered
    have other : j ≠ i := by
      rintro rfl
      exact absurd answered (by simp [show (s.lose j descriptors).answered j = s.answered j from rfl, waiting])
    simp only [Poll.lose, Function.update_of_ne other]
    exact inv.stays j below answered
  · intro j below positive
    obtain ⟨other, same⟩ := socket positive
    rw [same] at positive ⊢
    simp only [Poll.lose, Finset.mem_erase]
    exact (and_iff_right (inv.own small below other positive)).trans (inv.watched j below positive)
  · intro fd member
    obtain ⟨different, watched⟩ := Finset.mem_erase.mp member
    obtain ⟨j, below, rfl, positive⟩ := inv.owner fd watched
    have other : j ≠ i := fun same => different (by rw [same])
    exact ⟨j, below, Function.update_of_ne other _ _, positive⟩
  · exact fun fd member => inv.highest fd (Finset.mem_of_mem_erase member)
  · intro j below k smaller positive equal
    obtain ⟨_, first⟩ := socket positive
    obtain ⟨_, second⟩ := socket (equal ▸ positive)
    rw [first] at positive equal
    rw [second] at equal
    exact inv.distinct j below k smaller positive equal
  · intro j below positive
    obtain ⟨other, same⟩ := socket positive
    rw [same] at positive ⊢
    exact kept (Finset.mem_erase.mpr ⟨inv.own small below other positive, inv.opened j below positive⟩)
  · exact inv.votes
  · exact inv.silent
  · intro j below positive
    by_cases same : j = i
    · subst same
      exact Or.inr (Function.update_self _ _ _)
    · simp only [Poll.lose, Function.update_of_ne same]
      exact inv.dropped j below positive

theorem renew (inv : Inv n before s) (small : i < n) (connected : 0 < s.participantSocket i)
    (waiting : s.answered i = false) (sent : List (Int × Str)) :
    Inv n before (s.renew i (lowestFree (s.descriptors.erase (s.participantSocket i))) sent) := by
  have positive := lowestFree_pos (s.descriptors.erase (s.participantSocket i))
  have unused := lowestFree_notMem (s.descriptors.erase (s.participantSocket i))
  have lower := lowestFree_le connected (Finset.notMem_erase (s.participantSocket i) s.descriptors)
  generalize lowestFree (s.descriptors.erase (s.participantSocket i)) = fd at positive unused lower
  have kept {j : Nat} (below : j < n) (other : j ≠ i) (positive : 0 < s.participantSocket j) :
      s.participantSocket j ∈ s.descriptors.erase (s.participantSocket i) :=
    Finset.mem_erase.mpr ⟨inv.own small below other positive, inv.opened j below positive⟩
  have fresh {j : Nat} (below : j < n) (other : j ≠ i) (positive : 0 < s.participantSocket j) :
      s.participantSocket j ≠ fd :=
    fun same => unused (same ▸ kept below other positive)
  have socket {j : Nat} (other : j ≠ i) : (s.renew i fd sent).participantSocket j = s.participantSocket j :=
    Function.update_of_ne other _ _
  have new : (s.renew i fd sent).participantSocket i = fd := Function.update_self _ _ _
  constructor
  · rw [renew_live s sent connected positive]
    exact inv.alive
  · exact inv.prepared
  · intro j below answered
    by_cases same : j = i
    · rw [same, new]
      exact positive
    · rw [socket same]
      exact inv.stays j below answered
  · intro j below live
    by_cases same : j = i
    · subst same
      rw [new]
      exact iff_of_true (Finset.mem_insert_self _ _) waiting
    · rw [socket same] at live ⊢
      simp only [Poll.renew, Finset.mem_insert, Finset.mem_erase]
      rw [or_iff_right (fresh below same live), and_iff_right (inv.own small below same live)]
      exact inv.watched j below live
  · intro fd' member
    rcases Finset.mem_insert.mp member with rfl | watched
    · exact ⟨i, small, new, positive⟩
    · obtain ⟨different, watched⟩ := Finset.mem_erase.mp watched
      obtain ⟨j, below, rfl, live⟩ := inv.owner fd' watched
      exact ⟨j, below, socket fun same => different (by rw [same]), live⟩
  · intro fd' member
    rcases Finset.mem_insert.mp member with rfl | watched
    · exact le_trans lower (inv.highest _ ((inv.watched i small connected).mpr waiting))
    · exact inv.highest fd' (Finset.mem_of_mem_erase watched)
  · intro j below k smaller live equal
    by_cases first : j = i
    · by_cases second : k = i
      · rw [first, second]
      · rw [first, new, socket second] at equal
        exact absurd equal.symm (fresh smaller second (equal ▸ positive))
    · rw [socket first] at live equal
      by_cases second : k = i
      · rw [second, new] at equal
        exact absurd equal (fresh below first live)
      · rw [socket second] at equal
        exact inv.distinct j below k smaller live equal
  · intro j below live
    by_cases same : j = i
    · rw [same, new]
      exact Finset.mem_insert_self _ _
    · rw [socket same] at live ⊢
      exact Finset.mem_insert_of_mem (kept below same live)
  · exact inv.votes
  · exact inv.silent
  · intro j below live
    by_cases same : j = i
    · rw [same, new]
      exact Or.inl positive
    · rw [socket same]
      exact inv.dropped j below live

theorem received (inv : Inv n before s) (small : i < n) (connected : 0 < s.participantSocket i)
    (waiting : s.answered i = false) (result : Received s i t) : Inv n before t := by
  cases result with
  | answer data _ => exact inv.accept small connected waiting data
  | lost descriptors kept => exact inv.lose small connected waiting kept
  | again sent => exact inv.renew small connected waiting sent

end Inv

theorem Received.others (result : Received s i t) (other : j ≠ i) :
    t.participantSocket j = s.participantSocket j ∧ t.answered j = s.answered j := by
  cases result with
  | answer data _ =>
    rw [accept_answered]
    exact ⟨rfl, Function.update_of_ne other _ _⟩
  | lost descriptors kept => exact ⟨Function.update_of_ne other _ _, rfl⟩
  | again sent => exact ⟨Function.update_of_ne other _ _, rfl⟩

namespace Inv

theorem scan (inv : Inv n before s) {curFdSet : Finset Int} {recv : Nat → Reading} {rest : List Nat} {nReady : Int}
    (small : ∀ i ∈ rest, i < n) (once : rest.Nodup)
    (ready : ∀ i ∈ rest, 0 < s.participantSocket i → s.participantSocket i ∈ curFdSet → s.answered i = false)
    (step : Poll.scan preparedRequestMsg curFdSet recv rest nReady s = some t) : Inv n before t := by
  induction rest generalizing s nReady with
  | nil =>
    cases step
    exact inv
  | cons i rest ih =>
    obtain ⟨absent, once⟩ := List.nodup_cons.mp once
    have later := fun j member => small j (List.mem_cons_of_mem i member)
    unfold Poll.scan at step
    split at step
    · split at step
      · next here =>
        obtain ⟨middle, received, step⟩ := Option.bind_eq_some_iff.mp step
        have result := receive_cases received
        have waiting := ready i List.mem_cons_self here.1 here.2
        refine ih (inv.received (small i List.mem_cons_self) here.1 waiting result) later once ?_ step
        intro j member
        have other : j ≠ i := fun same => absent (same ▸ member)
        obtain ⟨socket, answered⟩ := result.others other
        rw [socket, answered]
        exact ready j (List.mem_cons_of_mem i member)
      · exact ih inv later once (fun j member => ready j (List.mem_cons_of_mem i member)) step
    · cases step
      exact inv

theorem aside (inv : Inv n before s) (timeout : Nat) (sent : List (Int × Str)) :
    Inv n before { s with timeout := timeout, sent := sent } :=
  { inv with alive := inv.alive }

theorem drop (inv : Inv n before s) (small : i < n) : Inv n before (s.drop i) := by
  unfold Poll.drop
  split
  · next here => exact inv.lose small here.1 ((inv.watched i small here.1).mp here.2) (Finset.Subset.refl _)
  · exact inv

theorem resend (inv : Inv n before s) (i : Nat) : Inv n before (s.resend preparedRequestMsg i) := by
  unfold Poll.resend
  split
  · exact inv.aside s.timeout _
  · exact inv

theorem turn (inv : Inv n before s) {polled : Polled} (step : s.Turn n preparedRequestMsg polled t) : Inv n before t := by
  obtain ⟨_, selected, step⟩ := step
  unfold Poll.turn at step
  have small (i : Nat) (member : i ∈ List.range n) : i < n := List.mem_range.mp member
  split at step
  · split at step
    · cases step
      have dropped : Inv n before ((List.range n).foldl Poll.drop s) :=
        List.foldlRecOn (List.range n) Poll.drop inv fun s inv i member => inv.drop (small i member)
      exact dropped.aside 0 _
    · cases step
      have sent : Inv n before ((List.range n).foldl (Poll.resend preparedRequestMsg) s) :=
        List.foldlRecOn (List.range n) _ inv fun s inv i _ => inv.resend i
      exact sent.aside _ _
  · refine (inv.aside 0 s.sent).scan small List.nodup_range ?_ step
    intro i member positive ready
    exact (inv.watched i (small i member) positive).mp (selected _ ready).1

end Inv

end Poll

end CloudLab.TwoPC
