import CloudLab.TwoPC.Framing
import CloudLab.TwoPC.Smooth

/-! The system when nothing fails: what one step does to it. -/

namespace CloudLab.TwoPC
open Text ByteStream Tally

def Link.reading (l : Link) : Option (List (Seg Char)) := l.closed.head?.or l.current

def Link.Delivers (l : Link) (k : Nat) : Prop :=
  l.ReadsExactly k ∧ ∀ segs ∈ l.reading, Participant.Receives (readBytes k segs).1

instance (l : Link) (k : Nat) : Decidable (l.Delivers k) := inferInstanceAs (Decidable (_ ∧ _))

def Cluster.Delivers (c : Cluster) (k : Nat) : Prop :=
  match c.control with
  | .wait _ _ w =>
      match w.ready with
      | i :: _ => Exact k (c.links i).inbox ∧ Coordinator.Receives (readBytes k (c.links i).inbox).1
      | [] => True
  | _ => True

instance (k : Nat) : (c : Cluster) → Decidable (c.Delivers k)
  | ⟨.wait _ _ ⟨_, _, _, _, _, _, _, i :: _⟩, _, links⟩ =>
    inferInstanceAs (Decidable (Exact k (links i).inbox ∧ Coordinator.Receives (readBytes k (links i).inbox).1))
  | ⟨.wait _ _ ⟨_, _, _, _, _, _, _, []⟩, _, _⟩ => isTrue trivial
  | ⟨.idle _, _, _⟩ | ⟨.connectAll _ _ _ _, _, _⟩ | ⟨.sendAll _ _ _ _ _, _, _⟩ | ⟨.getNext _ _, _, _⟩ =>
    isTrue trivial

/-- No failure, no timeout and no kill, and every message is delivered whole: it is read when
all of it is there, and `getMessage` has to return it. -/
def FailureFree (n : Nat) (c : Cluster) : Event → Prop
  | .request data _ => Coordinator.Receives data
  | .read i k => i < n ∧ (c.links i).Delivers k
  | .eof i => i < n
  | .reply k => c.Delivers k
  | .connect ok => ok = true
  | .timeout | .hangup _ | .lose _ _ _ | .stop _ | .kill => False
  | _ => True

instance (n : Nat) (c : Cluster) : (event : Event) → Decidable (FailureFree n c event)
  | .request data _ => inferInstanceAs (Decidable (Coordinator.Receives data))
  | .read i k => inferInstanceAs (Decidable (i < n ∧ (c.links i).Delivers k))
  | .eof i => inferInstanceAs (Decidable (i < n))
  | .reply k => inferInstanceAs (Decidable (c.Delivers k))
  | .connect ok => inferInstanceAs (Decidable (ok = true))
  | .timeout | .hangup _ | .lose _ _ _ | .stop _ | .kill => isFalse id
  | .send | .proceed | .select _ => isTrue trivial

def Control.Forward : Control → Prop
  | .sendAll _ (.decision commit) _ _ _ => commit = true
  | .wait _ (.decision commit) _ => commit = true
  | .getNext _ todo => todo ≠ []
  | _ => True

/-- The state of a system in which nothing has failed. -/
structure Orderly (n : Nat) (db : Db) (c : Cluster) : Prop where
  inv : Inv .smooth n db c
  links : ∀ i < n, (c.links i).Smooth
  readable : ∀ t phase w, c.control = .wait t phase w → ∀ i ∈ w.ready, (c.links i).inbox ≠ []
  forward : c.control.Forward
  txn : ∀ t, c.control.txn = some t → ∃ r : Request, r.Valid ∧ t.Of r

section step
variable {n : Nat} {db : Db} {t : Txn} {c c' : Cluster} {w : Wait} {vaild participantSocket : Nat → Bool}
  {links : Nat → Link} {i k : Nat} {ready todo : List Nat} {alive : Int} {l : Link}

theorem Orderly.everyone (orderly : Orderly n db c) : ∀ i < n, c.vaild i = true :=
  orderly.inv.everyone trivial

theorem Orderly.link (orderly : Orderly n db c) (bound : i < n) :
    LinkInv .smooth db c.control i (c.links i) :=
  orderly.inv.links i bound (orderly.everyone i bound)

theorem Orderly.served (orderly : Orderly n db c) (bound : i < n) :
    ∀ seg segs, (c.links i).current = some (seg :: segs) → (c.links i).site.Serves seg.message := by
  intro seg segs current
  have link := orderly.link bound
  cases txn : c.control.txn with
  | some t =>
    obtain ⟨r, _, of⟩ := orderly.txn t txn
    exact link.serves orderly.inv.control txn of (orderly.links i bound) current
  | none =>
    match control : c.control with
    | .idle last =>
      rw [control] at link
      rw [link.1.1] at current
      cases current
    | .connectAll .. => simp [control, Control.txn] at txn
    | .sendAll .. => simp [control, Control.txn] at txn
    | .wait .. => simp [control, Control.txn] at txn
    | .getNext .. => simp [control, Control.txn] at txn

theorem FailureFree.allowed {event : Event} (orderly : Orderly n db c) (free : FailureFree n c event) :
    Allowed .smooth n c event := by
  cases event with
  | request => exact False.elim
  | connect ok => exact fun _ => free
  | reply k =>
    intro t phase w i ready control queue
    refine ⟨fun _ => ?_, fun strict => absurd trivial strict⟩
    have delivers : c.Delivers k := free
    simp only [Cluster.Delivers, control, queue] at delivers
    exact delivers.1
  | read i k =>
    intro bound _
    refine ⟨free.2.1, fun _ l' step => ?_⟩
    exact ((orderly.links i bound).read free.2.1 (orderly.served bound) step).1.running
  | timeout => exact absurd free id
  | hangup => exact absurd free id
  | lose => exact absurd free id
  | stop => exact absurd free id
  | kill => exact absurd free id
  | send => trivial
  | proceed => trivial
  | select => trivial
  | eof => trivial

/-! The links stay in order. -/

theorem Link.Smooth.connect (smooth : l.Smooth) : l.connect.Smooth := by
  refine ⟨smooth.running, rfl, smooth.closed, ?_, fun _ none => (nomatch none)⟩
  rintro _ same seg member
  cases same
  cases member

theorem Link.Smooth.send (smooth : l.Smooth) (message : Str) : (l.send message).Smooth := by
  refine ⟨smooth.running, smooth.open_, smooth.closed, ?_, smooth.inbox⟩
  intro segs current seg member
  obtain ⟨before, old, rfl⟩ := Option.map_eq_some_iff.mp current
  rcases List.mem_append.mp member with early | late
  · exact smooth.current before old seg early
  · obtain ⟨data, _, rfl⟩ := List.mem_map.mp late
    exact Seg.sent_whole data

theorem Link.Smooth.close (smooth : l.Smooth) (current : ∀ segs, l.current = some segs → segs = []) :
    l.close.Smooth := by
  refine ⟨smooth.running, rfl, ?_, fun _ none => (nomatch none), fun _ none => (nomatch none)⟩
  intro conn member
  rcases List.mem_append.mp member with old | new
  · exact smooth.closed conn old
  · exact current conn (Option.mem_toList.mp new)

theorem Link.Smooth.eof {l' : Link} (smooth : l.Smooth) (step : l.eof = some l') :
    l'.Smooth ∧ l'.inbox = l.inbox ∧ l'.current = l.current ∧ l.closed = [] :: l'.closed := by
  unfold Link.eof at step
  split at step
  · next rest running closed =>
    cases step
    refine ⟨⟨smooth.running, smooth.open_, ?_, smooth.current, smooth.inbox⟩, rfl, rfl, closed⟩
    exact fun conn member => smooth.closed conn (by simp [closed, member])
  · cases step

theorem Link.Smooth.take {k : Nat} (smooth : l.Smooth) (exact : Exact k l.inbox) (some : ¬ (k = 0 ∨ size l.inbox < k)) :
    ({ l with inbox := (readBytes k l.inbox).2 } : Link).Smooth ∧
      (readBytes k l.inbox).2.length < l.inbox.length := by
  obtain ⟨seg, rest, inbox, exactly⟩ := taken_message some
  rw [exactly exact]
  refine ⟨⟨smooth.running, smooth.open_, smooth.closed, smooth.current, ?_⟩, by simp [inbox]⟩
  exact fun other member => smooth.inbox other (by simp [inbox, List.mem_cons_of_mem _ member])

theorem smooth_update (smooth : ∀ j < n, (links j).Smooth) (changed : i < n → l.Smooth) :
    ∀ j < n, (Function.update links i l j).Smooth := by
  intro j bound
  by_cases same : j = i
  · subst same
    rw [Function.update_self]
    exact changed bound
  · rw [Function.update_of_ne same]
    exact smooth j bound

theorem readable_wait {phase : Phase} (some : ∀ i ∈ w.ready, (links i).inbox ≠ []) :
    ∀ t' phase' w', Control.wait t phase w = .wait t' phase' w' → ∀ i ∈ w'.ready, (links i).inbox ≠ [] := by
  intro t' phase' w' same
  simp only [Control.wait.injEq] at same
  obtain ⟨_, _, rfl⟩ := same
  exact some

theorem readable_setLink (orderly : Orderly n db c) (grows : i < n → (c.links i).inbox ≠ [] → l.inbox ≠ []) :
    ∀ t phase w, (c.setLink i l).control = .wait t phase w → ∀ j ∈ w.ready, ((c.setLink i l).links j).inbox ≠ [] := by
  intro t phase w control j member
  have known := orderly.inv.control
  have before := orderly.readable t phase w control j member
  by_cases same : j = i
  · subst same
    rw [Cluster.setLink_self]
    have control : c.control = .wait t phase w := control
    rw [control] at known
    have waits := known.waits
    exact grows (waits.sockets j (waits.monitored j (waits.ready j member))).1 before
  · rw [Cluster.setLink_of_ne c same]
    exact before

theorem Orderly.read (orderly : Orderly n db c) (free : FailureFree n c (.read i k))
    (step : next n c (.read i k) = some c') : Orderly n db c' := by
  have inv := orderly.inv.read (free.allowed orderly) step
  obtain ⟨l', turn, rfl⟩ := Option.map_eq_some_iff.mp step
  refine ⟨inv, ?_, ?_, orderly.forward, orderly.txn⟩
  · exact smooth_update orderly.links fun bound =>
      ((orderly.links i bound).read free.2.1 (orderly.served bound) turn).1
  · refine readable_setLink orderly fun bound some => ?_
    obtain ⟨_, _, _, _, _, sent, _, _, inbox, _⟩ :=
      (orderly.links i bound).read free.2.1 (orderly.served bound) turn
    rw [inbox]
    simp [some]

theorem Orderly.eof (orderly : Orderly n db c) (step : next n c (.eof i) = some c') : Orderly n db c' := by
  have inv := orderly.inv.eof step
  obtain ⟨l', ended, rfl⟩ := Option.map_eq_some_iff.mp step
  refine ⟨inv, ?_, ?_, orderly.forward, orderly.txn⟩
  · exact smooth_update orderly.links fun bound => ((orderly.links i bound).eof ended).1
  · refine readable_setLink orderly fun bound some => ?_
    rw [((orderly.links i bound).eof ended).2.1]
    exact some

/-! The coordinator's steps. -/

theorem Orderly.connect (orderly : Orderly n db c) {ok : Bool} (free : FailureFree n c (.connect ok))
    (step : next n c (.connect ok) = some c') : Orderly n db c' ∧ c'.control.txn = c.control.txn ∧
      c'.control.txn.isSome := by
  have inv := orderly.inv.connect (free.allowed orderly) step
  have everyone := orderly.everyone
  cases next_branch step with
  | connectGone gone =>
    obtain ⟨_, _, _, _, _, unconnected⟩ := orderly.inv.control
    exact absurd (gone.symm.trans (everyone _ (unconnected _ (by simp)).1)) Bool.false_ne_true
  | connected =>
    refine ⟨⟨inv, ?_, fun _ _ _ wrong => (nomatch wrong), trivial, orderly.txn⟩, rfl, rfl⟩
    exact smooth_update orderly.links fun small => (orderly.links _ small).connect
  | connectFailed => cases free
  | getGone gone =>
    obtain ⟨_, _, small⟩ := orderly.inv.control
    exact absurd (gone.symm.trans (everyone _ (small _ (by simp)))) Bool.false_ne_true
  | asked =>
    refine ⟨⟨inv, ?_, readable_wait fun j member => (nomatch member), trivial, orderly.txn⟩, rfl, rfl⟩
    exact smooth_update orderly.links fun small => (orderly.links _ small).connect.send _
  | getFailed => cases free

theorem Orderly.send (orderly : Orderly n db c) (step : next n c .send = some c') :
    Orderly n db c' ∧ c'.control.txn = c.control.txn ∧ c'.control.txn.isSome := by
  have inv := orderly.inv.send step
  cases next_branch step with
  | @send _ phase =>
    refine ⟨⟨inv, ?_, fun _ _ _ wrong => (nomatch wrong), ?_, orderly.txn⟩, rfl, rfl⟩
    · dsimp only
      split
      · exact smooth_update orderly.links fun small => (orderly.links _ small).send _
      · exact orderly.links
    · have forward := orderly.forward
      cases phase with
      | decision commit => exact forward
      | prepare => trivial
      | get => trivial

theorem Orderly.select (orderly : Orderly n db c) (step : next n c (.select ready) = some c') :
    Orderly n db c' ∧ c'.control.txn = c.control.txn ∧ c'.control.txn.isSome := by
  have inv := orderly.inv.select step
  cases next_branch step with
  | @select _ phase _ _ links _ _ _ reported =>
    refine ⟨⟨inv, orderly.links, readable_wait fun j member => ?_, ?_, orderly.txn⟩, rfl, rfl⟩
    · obtain ⟨bound, _, readable⟩ := reported j member
      have open_ : (links j).hup = false := (orderly.links j bound).open_
      simpa [Link.readable, open_] using readable
    · have forward := orderly.forward
      cases phase with
      | decision commit => exact forward
      | prepare => trivial
      | get => trivial

/-- When a reply is taken in the wait for a decision or a GET, nothing is under way to its
sender. -/
theorem Orderly.drained {phase : Phase} (orderly : Orderly n db ⟨.wait t phase w, vaild, links⟩)
    (notPrepare : phase ≠ .prepare) (queue : w.ready = i :: ready) :
    ∀ segs, (links i).current = some segs → segs = [] := by
  intro segs current
  obtain ⟨descriptor, socket, bound, _⟩ := orderly.inv.control.waits.head queue
  have smooth := orderly.links i bound
  have some : (links i).inbox ≠ [] := orderly.readable t phase w rfl i (by simp [queue])
  have link : WaitLink .smooth db t w i (links i) phase := orderly.link bound
  cases phase with
  | prepare => exact absurd rfl notPrepare
  | decision commit =>
    obtain ⟨follows, answered⟩ := link.1 socket
    obtain ⟨seg, member⟩ := List.exists_mem_of_ne_nil _ some
    have done := (follows.1 seg member).resolve_left fun strict => strict.1 trivial
    rw [(answered ⟨seg, member, done.ne_prepared⟩).2] at current
    cases current
  | get todo =>
    obtain ⟨_, _, count⟩ := (link.1 socket).current smooth current
    have one := count trivial id
    have positive := List.length_pos_iff.mpr some
    exact List.eq_nil_of_length_eq_zero (by omega)

theorem Orderly.others {phase : Phase} (orderly : Orderly n db ⟨.wait t phase w, vaild, links⟩)
    (queue : w.ready = i :: ready) : ∀ j ∈ ready, (Function.update links i l j).inbox ≠ [] := by
  intro j member
  obtain ⟨_, later⟩ := orderly.inv.control.waits.tail queue
  rw [Function.update_of_ne (later j member).1]
  exact orderly.readable t phase w rfl j (by simp [queue, member])

theorem Orderly.reply (orderly : Orderly n db c) (free : FailureFree n c (.reply k))
    (step : next n c (.reply k) = some c') :
    Orderly n db c' ∧ c'.control.txn = c.control.txn ∧ c'.control.txn.isSome := by
  have inv := orderly.inv.reply (free.allowed orderly) step
  cases next_branch step with
  | @prepared t w _ vaild links i ready _ queue some recorded =>
    have delivers : Cluster.Delivers ⟨.wait t .prepare w, vaild, links⟩ k := free
    simp only [Cluster.Delivers, queue] at delivers
    obtain ⟨exact, _⟩ := delivers
    simp only [Wait.recordPrepared, Option.bind_eq_bind, Option.bind_eq_some_iff,
      Option.some.injEq] at recorded
    obtain ⟨_, _, rfl⟩ := recorded
    refine ⟨⟨inv, smooth_update orderly.links fun small => ?_, readable_wait (orderly.others queue), trivial,
      orderly.txn⟩, rfl, rfl⟩
    exact ((orderly.links i small).take exact some).1
  | @done t phase w _ vaild links i ready _ voted queue some recorded =>
    simp only [Wait.recordDone, Option.bind_eq_bind, Option.bind_eq_some_iff,
      Option.some.injEq] at recorded
    obtain ⟨_, _, rfl⟩ := recorded
    have drained := orderly.drained voted queue
    refine ⟨⟨inv, smooth_update orderly.links fun small => (orderly.links i small).close drained,
      readable_wait (orderly.others queue), ?_, orderly.txn⟩, rfl, rfl⟩
    have forward := orderly.forward
    cases phase with
    | prepare => trivial
    | decision commit => exact forward
    | get => trivial

end step

end CloudLab.TwoPC
