import CloudLab.TwoPC.Serving

/-! The open descriptors after a connection has been served. The coordinator has those it had before,
as long as no connect fails three times and no select fails; a participant has one more each time. -/

namespace CloudLab.TwoPC

open CloudLab Text Tally Descriptors

/-- The descriptors are `base` and the sockets in `participantSocket`, whose participants have not been given up. -/
structure Balanced (n : Nat) (base : Finset Int) (participantSocket : Nat → Int) (c : Coordinator) : Prop where
  connected : Connected n participantSocket c.descriptors
  conserved : c.descriptors = base ∪ openSockets n participantSocket
  apart : Disjoint base (openSockets n participantSocket)
  vaild : ∀ i < n, 0 < participantSocket i → c.vaild i = true

namespace Balanced

variable {n i : Nat} {base : Finset Int} {participantSocket : Nat → Int} {c : Coordinator} {fd : Int}

theorem base_eq (balanced : Balanced n base participantSocket c) (none : ∀ i < n, ¬ 0 < participantSocket i) :
    c.descriptors = base := by
  rw [balanced.conserved, openSockets_eq_empty none, Finset.union_empty]

theorem start (none : ∀ i < n, ¬ 0 < participantSocket i) (c : Coordinator) :
    Balanced n c.descriptors participantSocket c := by
  have empty := openSockets_eq_empty none
  refine ⟨⟨fun i small _ _ positive => absurd positive (none i small), fun i small positive => absurd positive (none i small)⟩,
    ?_, ?_, fun i small positive => absurd positive (none i small)⟩
  · rw [empty, Finset.union_empty]
  · rw [empty]
    exact Finset.disjoint_empty_right _

theorem release (balanced : Balanced n base participantSocket c) (small : i < n) (positive : 0 < participantSocket i)
    {vaild : Nat → Bool} (others : ∀ j, j ≠ i → vaild j = c.vaild j) :
    Balanced n base (Function.update participantSocket i (-1)) ⟨vaild, c.descriptors.erase (participantSocket i)⟩ := by
  have mine := socket_mem small positive
  have outside : participantSocket i ∉ base := fun inside => Finset.disjoint_left.mp balanced.apart inside mine
  have left := openSockets_release balanced.connected small
  refine ⟨balanced.connected.release small (Finset.Subset.refl _), ?_, ?_, fun j below live => ?_⟩
  · rw [left, balanced.conserved, Finset.erase_union_distrib, Finset.erase_eq_of_notMem outside]
  · rw [left]
    exact balanced.apart.mono_right (Finset.erase_subset _ _)
  · have other : j ≠ i := by
      rintro rfl
      rw [Function.update_self] at live
      omega
    rw [Function.update_of_ne other] at live
    exact (others j other).trans (balanced.vaild j below live)

theorem place (balanced : Balanced n base participantSocket c) (small : i < n) (none : ¬ 0 < participantSocket i)
    (usable : c.vaild i = true) (positive : 0 < fd) (free : fd ∉ c.descriptors) :
    Balanced n base (Function.update participantSocket i fd) { c with descriptors := insert fd c.descriptors } := by
  have same : openSockets n (Function.update participantSocket i (-1)) = openSockets n participantSocket := by
    rw [openSockets_release balanced.connected small]
    refine Finset.erase_eq_of_notMem fun member => ?_
    obtain ⟨_, _, _, above⟩ := mem_openSockets.mp member
    exact none above
  have placed : openSockets n (Function.update participantSocket i fd) =
      insert fd (openSockets n (Function.update participantSocket i (-1))) := openSockets_place small positive
  rw [same] at placed
  refine ⟨balanced.connected.place none free, ?_, ?_, fun j below live => ?_⟩
  · rw [placed, balanced.conserved, Finset.union_insert]
  · rw [placed, Finset.disjoint_insert_right]
    refine ⟨fun inside => free ?_, balanced.apart⟩
    rw [balanced.conserved]
    exact Finset.mem_union_left _ inside
  · by_cases here : j = i
    · rw [here]
      exact usable
    · rw [Function.update_of_ne here] at live
      exact balanced.vaild j below live

theorem renew (balanced : Balanced n base participantSocket c) (small : i < n) (positive : 0 < participantSocket i) :
    Balanced n base (Function.update participantSocket i (lowestFree (c.descriptors.erase (participantSocket i))))
      ⟨c.vaild, insert (lowestFree (c.descriptors.erase (participantSocket i))) (c.descriptors.erase (participantSocket i))⟩ := by
  have released : Balanced n base (Function.update participantSocket i (-1))
      ⟨c.vaild, c.descriptors.erase (participantSocket i)⟩ := balanced.release small positive fun _ _ => rfl
  have again := released.place small (by rw [Function.update_self]; decide) (balanced.vaild i small positive)
    (lowestFree_pos _) (lowestFree_notMem (c.descriptors.erase (participantSocket i)))
  rwa [Function.update_idem] at again

end Balanced

def Answer.usable : Answer → Bool
  | .message _ => true
  | .gone connects => (List.range 3).any connects

def Reading.usable (reading : Reading) : Bool := reading.getMessage.all Answer.usable

def Reaches (n : Nat) (participantSocket : Nat → Int) (polled : Polled) : Prop :=
  ∀ i < n, 0 < participantSocket i → participantSocket i ∈ polled.curFdSet → (polled.recv i).usable = true

instance (n : Nat) (participantSocket : Nat → Int) (polled : Polled) : Decidable (Reaches n participantSocket polled) :=
  Nat.decidableBallLT n _

section waits

variable {n i : Nat} {base held : Finset Int} {before : Nat → Int} {msg : Str} {polled : Polled}

namespace Poll

variable {s t first : Poll}

theorem Served.balanced (served : Served n polled first s i t) (reaches : Reaches n first.participantSocket polled)
    (balanced : Balanced n base s.participantSocket s.coordinator) : Balanced n base t.participantSocket t.coordinator := by
  obtain ⟨small, positive, ready, _, ⟨socket, _⟩, outcome⟩ := served
  have reached := reaches i small (socket ▸ positive) (socket ▸ ready)
  cases outcome with
  | answer => exact balanced
  | lost _ _ returned unusable =>
    rw [Reading.usable, returned] at reached
    exact absurd ⟨balanced.vaild i small positive, reached⟩ unusable
  | again => exact balanced.renew small positive

theorem drop_balanced (balanced : Balanced n base s.participantSocket s.coordinator) (small : i < n) :
    Balanced n base (s.drop i).participantSocket (s.drop i).coordinator := by
  unfold drop
  split
  · next here => exact balanced.release small here.1 fun j other => Function.update_of_ne other _ _
  · exact balanced

theorem turn_balanced (inv : Inv n before s) (step : s.Turn n msg polled t) (reaches : Reaches n s.participantSocket polled)
    (balanced : Balanced n base s.participantSocket s.coordinator) : Balanced n base t.participantSocket t.coordinator := by
  obtain ⟨_, selected, step⟩ := step
  unfold Poll.turn at step
  split at step
  · split at step
    · cases step
      exact List.foldlRecOn (List.range n) drop (motive := fun s => Balanced n base s.participantSocket s.coordinator) balanced
        fun s balanced i member => drop_balanced balanced (List.mem_range.mp member)
    · cases step
      obtain ⟨sent, same⟩ := resends msg (List.range n) s
      rw [same]
      exact balanced
  · obtain ⟨found, run, _, _⟩ := scan_served (inv.aside 0 s.sent) (fun fd member => (selected fd member).1) step
    exact run.invariant (fun s => Balanced n base s.participantSocket s.coordinator)
      (fun _ _ _ balanced served => served.1.balanced reaches balanced) balanced

end Poll

namespace Finish

variable {s t first : Finish}

theorem Served.balanced (served : Served n polled first s i t) (reaches : Reaches n first.participantSocket polled)
    (balanced : Balanced n base s.participantSocket s.toCoordinator) : Balanced n base t.participantSocket t.toCoordinator := by
  obtain ⟨small, positive, ready, ⟨socket, _⟩, outcome⟩ := served
  have reached := reaches i small (socket ▸ positive) (socket ▸ ready)
  cases outcome with
  | answer => exact balanced.release small positive fun _ _ => rfl
  | lost _ _ returned unusable =>
    rw [Reading.usable, returned] at reached
    exact absurd ⟨balanced.vaild i small positive, reached⟩ unusable
  | again => exact balanced.renew small positive

theorem drop_balanced (balanced : Balanced n base s.participantSocket s.toCoordinator) (small : i < n) :
    Balanced n base (s.drop i).participantSocket (s.drop i).toCoordinator := by
  unfold drop
  split
  · next here => exact balanced.release small here.1 fun j other => Function.update_of_ne other _ _
  · exact balanced

theorem turn_balanced (inv : Inv n held s) (step : s.Turn n msg polled t) (reaches : Reaches n s.participantSocket polled)
    (balanced : Balanced n base s.participantSocket s.toCoordinator) : Balanced n base t.participantSocket t.toCoordinator := by
  obtain ⟨_, selected, step⟩ := step
  unfold Finish.turn at step
  split at step
  · split at step
    · cases step
      exact List.foldlRecOn (List.range n) drop (motive := fun s => Balanced n base s.participantSocket s.toCoordinator) balanced
        fun s balanced i member => drop_balanced balanced (List.mem_range.mp member)
    · cases step
      obtain ⟨sent, same⟩ := resends msg (List.range n) s
      rw [same]
      exact balanced
  · obtain ⟨found, run, _, _⟩ := scan_served (inv.aside 0 s.sent) (fun fd member => (selected fd member).1) step
    exact run.invariant (fun s => Balanced n base s.participantSocket s.toCoordinator)
      (fun _ _ _ balanced served => served.1.balanced reaches balanced) balanced

end Finish

end waits

/-! Where the sockets are opened. -/

section connecting

variable {n : Nat} {base : Finset Int} {participantSocket : Nat → Int} {c : Coordinator}

theorem connectAllParticipants_balanced {connects : Nat → Nat → Bool}
    (reaches : ∀ i < n, c.vaild i = true → (List.range 3).any (connects i) = true) {k : Nat} (few : k ≤ n) :
    (Connecting.connectAllParticipants k connects c.vaild c.descriptors).vaild = c.vaild ∧
      Balanced n c.descriptors (Connecting.connectAllParticipants k connects c.vaild c.descriptors).participantSocket
        ⟨c.vaild, (Connecting.connectAllParticipants k connects c.vaild c.descriptors).descriptors⟩ := by
  induction k with
  | zero => exact ⟨rfl, Balanced.start (fun _ _ => (by decide : ¬ (0 : Int) < -1)) c⟩
  | succ k ih =>
    obtain ⟨vaild, balanced⟩ := ih (by omega)
    have later := (Connecting.connectAllParticipants_made k connects c.vaild c.descriptors).later k (le_refl k)
    have turn : Connecting.connectAllParticipants (k + 1) connects c.vaild c.descriptors =
        (Connecting.connectAllParticipants k connects c.vaild c.descriptors).connect connects k := by
      unfold Connecting.connectAllParticipants
      rw [List.range_succ, List.foldl_append]
      rfl
    rw [turn]
    generalize Connecting.connectAllParticipants k connects c.vaild c.descriptors = made at vaild balanced later ⊢
    unfold Connecting.connect
    split
    · next usable =>
      rw [vaild] at usable
      rw [if_pos (reaches k (by omega) usable)]
      refine ⟨vaild, balanced.place (by omega) ?_ usable (lowestFree_pos _) (lowestFree_notMem _)⟩
      rw [later]
      decide
    · exact ⟨vaild, balanced⟩

theorem tally_one {i : Nat} {fd : Int} (small : i < n) (none : ∀ j < n, ¬ 0 < participantSocket j) (positive : 0 < fd) :
    (1 : Int) = tally n fun j => decide (0 < Function.update participantSocket i fd j) := by
  have same : tally n (fun j => decide (0 < Function.update participantSocket i fd j)) = tally n fun j => decide (j = i) := by
    refine tally_congr fun j below => ?_
    by_cases here : j = i
    · simp [here, positive]
    · simp [here, none j below]
  rw [same, tally_single small]
  rfl

end connecting

namespace Serving

variable {n : Nat} {base : Finset Int} {c : Coordinator} {connfd : Int} {t : Txn} {s s' : Serving} {event : Event}

/-- No call of `connect` fails three times in a row, and no `select` fails. -/
def Tidy (n : Nat) : Serving → Event → Prop
  | .connect _ _ c, .connectAll connects => ∀ i < n, c.vaild i = true → (List.range 3).any (connects i) = true
  | .getNext _ _ _ c (i :: _), .connectOne connects => c.vaild i = true → (List.range 3).any connects = true
  | .prepare _ _ s, .selected polled => Reaches n s.participantSocket polled
  | .finish _ _ _ s, .selected polled => Reaches n s.participantSocket polled
  | _, .selectFails => False
  | _, _ => True

instance (n : Nat) (s : Serving) (event : Event) : Decidable (Tidy n s event) := by
  unfold Tidy
  split <;> infer_instance

def InRange (n : Nat) : Phase → Prop
  | .get todo => ∀ i ∈ todo, i < n
  | _ => True

/-- What is open, where `base` was open before the connection: the connection too, and the sockets in
`participantSocket`; and what the two waits rest on. -/
def Conserves (n : Nat) (base : Finset Int) : Serving → Prop
  | .idle c _ => c.descriptors = base
  | .connect connfd _ c => connfd ∉ base ∧ c.descriptors = insert connfd base
  | .prepare connfd _ s =>
      connfd ∉ base ∧ Balanced n (insert connfd base) s.participantSocket s.coordinator ∧ ∃ before, Poll.Inv n before s
  | .finish connfd _ phase s =>
      connfd ∉ base ∧ Balanced n (insert connfd base) s.participantSocket s.toCoordinator ∧ InRange n phase ∧
        ∃ held, Finish.Inv n held s
  | .getNext connfd _ participantSocket c todo =>
      connfd ∉ base ∧ Balanced n (insert connfd base) participantSocket c ∧ (∀ i ∈ todo, i < n) ∧
        ∀ i < n, ¬ 0 < participantSocket i

theorem leave_conserves (free : connfd ∉ base) (opened : c.descriptors = insert connfd base) (sent : List Str) :
    Conserves n base (leave c connfd sent) := by
  change c.descriptors.erase connfd = base
  rw [opened, Finset.erase_insert free]

theorem handleConnection_conserves {received : Option Str} {id : Int} (free : connfd ∉ base)
    (opened : c.descriptors = insert connfd base) (step : handleConnection n c connfd received id = some s') :
    Conserves n base s' := by
  unfold handleConnection at step
  split at step
  · cases step
    exact leave_conserves free opened _
  · simp only [Option.bind_eq_bind, Option.bind_eq_some_iff] at step
    obtain ⟨⟨legal, split_message⟩, _, step⟩ := step
    split at step
    · cases step
      exact leave_conserves free opened _
    · obtain ⟨method, _, step⟩ := Option.bind_eq_some_iff.mp step
      split at step
      · cases step
        exact ⟨free, opened⟩
      · split at step
        · cases step
          have none (i : Nat) (_ : i < n) : ¬ (0 : Int) < -1 := by decide
          exact ⟨free, opened ▸ Balanced.start none c, fun i member => List.mem_range.mp member, none⟩
        · cases step
          exact leave_conserves free opened _

theorem firstPhase_conserves {connects : Nat → Nat → Bool} (free : connfd ∉ base) (opened : c.descriptors = insert connfd base)
    (reaches : ∀ i < n, c.vaild i = true → (List.range 3).any (connects i) = true)
    (step : firstPhase n connfd t c connects = some s') : Conserves n base s' := by
  have made := Connecting.connectAllParticipants_made n connects c.vaild c.descriptors
  obtain ⟨vaild, balanced⟩ := connectAllParticipants_balanced reaches (le_refl n)
  unfold firstPhase at step
  generalize Connecting.connectAllParticipants n connects c.vaild c.descriptors = all at made vaild balanced step
  obtain ⟨participantSocket, flags, connectSuccessCount, descriptors⟩ := all
  cases vaild
  rw [opened] at balanced
  have counted := made.counted
  dsimp only at step counted
  split at step
  · next zero =>
    cases step
    rw [zero] at counted
    have gone : tally n (fun i => decide (0 < participantSocket i)) = 0 := by omega
    have none (i : Nat) (small : i < n) : ¬ 0 < participantSocket i := of_decide_eq_false (tally_eq_zero.mp gone i small)
    exact leave_conserves free (balanced.base_eq none) _
  · obtain ⟨first, started, rfl⟩ := Option.map_eq_some_iff.mp step
    have inv := Poll.Inv.start made.connected counted started
    obtain ⟨_, _, rfl⟩ := Option.map_eq_some_iff.mp started
    exact ⟨free, balanced, participantSocket, inv⟩

theorem secondPhase_conserves {s : Poll} (conserves : Conserves n base (.prepare connfd t s)) (ended : ¬ s.GoesOn)
    (step : secondPhase n connfd t s (s.prepareResponse n) = some s') : Conserves n base s' := by
  obtain ⟨free, balanced, before, inv⟩ := conserves
  unfold secondPhase at step
  split at step
  · obtain ⟨first, started, rfl⟩ := Option.map_eq_some_iff.mp step
    have inv' := Finish.Inv.start balanced.connected inv.alive started
    obtain ⟨_, _, rfl⟩ := Option.map_eq_some_iff.mp started
    exact ⟨free, balanced, trivial, _, inv'⟩
  · next other =>
    cases step
    -- nobody has answered, so nobody is left
    have zero : s.preparedCount = 0 := by
      by_contra some
      unfold Poll.prepareResponse at other
      rw [if_neg some] at other
      split at other
      · exact other (Or.inr rfl)
      · exact other (Or.inl rfl)
    have gone : tally n s.live = 0 := by
      have alive := inv.alive
      unfold Poll.GoesOn at ended
      omega
    exact leave_conserves free (balanced.base_eq fun i small => of_decide_eq_false (tally_eq_zero.mp gone i small)) _

theorem finished_conserves {phase : Phase} {s : Finish} (conserves : Conserves n base (.finish connfd t phase s))
    (ended : ¬ s.GoesOn) : Conserves n base (finished connfd t phase s s.commitResponse) := by
  obtain ⟨free, balanced, inRange, held, inv⟩ := conserves
  have none (i : Nat) (small : i < n) : ¬ 0 < s.participantSocket i := of_decide_eq_false (inv.nobody ended i small)
  have leaves (sent : List Str) : Conserves n base (leave s.toCoordinator connfd sent) :=
    leave_conserves free (balanced.base_eq none) sent
  cases phase with
  | prepare => exact leaves _
  | get todo =>
    unfold finished
    dsimp only
    split
    · exact leaves _
    · exact ⟨free, balanced, inRange, none⟩
  | decision commit =>
    cases commit with
    | false => exact leaves _
    | true =>
      unfold finished
      dsimp only
      split <;> exact leaves _

theorem askOne_conserves {participantSocket : Nat → Int} {i : Nat} {todo : List Nat} {connects : Nat → Bool}
    (conserves : Conserves n base (.getNext connfd t participantSocket c (i :: todo)))
    (reaches : c.vaild i = true → (List.range 3).any connects = true)
    (step : askOne n connfd t participantSocket c i todo connects = some s') : Conserves n base s' := by
  obtain ⟨free, balanced, small, none⟩ := conserves
  obtain ⟨here, later⟩ := List.forall_mem_cons.mp small
  unfold askOne at step
  split at step
  · next usable =>
    rcases c.connectParticipant_cases i connects with ⟨_, connected⟩ | ⟨unusable, _⟩
    · simp only [connected, lowestFree_pos, if_true] at step
      obtain ⟨first, started, rfl⟩ := Option.map_eq_some_iff.mp step
      have placed := balanced.place here (none i here) usable (lowestFree_pos _) (lowestFree_notMem _)
      have inv := Finish.Inv.start placed.connected (tally_one here none (lowestFree_pos _)) started
      obtain ⟨_, _, rfl⟩ := Option.map_eq_some_iff.mp started
      exact ⟨free, placed, later, _, inv⟩
    · exact absurd ⟨usable, reaches usable⟩ unusable
  · cases step
    exact ⟨free, balanced, later, none⟩

theorem prepare_conserves {s : Poll} (conserves : Conserves n base (.prepare connfd t s)) (tidy : Tidy n (.prepare connfd t s) event)
    (step : next n (.prepare connfd t s) event = some s') : Conserves n base s' := by
  obtain ⟨free, balanced, before, inv⟩ := conserves
  cases event with
  | selected polled =>
    simp only [next] at step
    split at step
    · next selects =>
      obtain ⟨s', turn, rfl⟩ := Option.map_eq_some_iff.mp step
      have turn : s.Turn n (requestMsg t) polled s' := ⟨selects.1, selects.2, turn⟩
      exact ⟨free, Poll.turn_balanced inv turn tidy balanced, before, inv.turn turn⟩
    · cases step
  | returns =>
    simp only [next] at step
    split at step
    · cases step
    · next ended => exact secondPhase_conserves ⟨free, balanced, before, inv⟩ ended step
  | selectFails => exact False.elim tidy
  | _ => cases step

theorem finish_conserves {phase : Phase} {s : Finish} (conserves : Conserves n base (.finish connfd t phase s))
    (tidy : Tidy n (.finish connfd t phase s) event) (step : next n (.finish connfd t phase s) event = some s') :
    Conserves n base s' := by
  obtain ⟨free, balanced, inRange, held, inv⟩ := conserves
  cases event with
  | selected polled =>
    simp only [next] at step
    split at step
    · next selects =>
      obtain ⟨s', turn, rfl⟩ := Option.map_eq_some_iff.mp step
      have turn : s.Turn n (phase.message t) polled s' := ⟨selects.1, selects.2, turn⟩
      exact ⟨free, Finish.turn_balanced inv turn tidy balanced, inRange, held, inv.turn turn⟩
    · cases step
  | returns =>
    simp only [next] at step
    split at step
    · cases step
    · next ended =>
      cases step
      exact finished_conserves ⟨free, balanced, inRange, held, inv⟩ ended
  | selectFails => exact False.elim tidy
  | _ => cases step

theorem next_conserves (conserves : Conserves n base s) (tidy : Tidy n s event) (step : next n s event = some s') :
    Conserves n base s' := by
  cases s with
  | idle c sent =>
    cases event with
    | accept received id =>
      cases conserves
      exact handleConnection_conserves (lowestFree_notMem c.descriptors) rfl step
    | _ => cases step
  | connect connfd t c =>
    cases event with
    | connectAll connects => exact firstPhase_conserves conserves.1 conserves.2 tidy step
    | _ => cases step
  | prepare connfd t s => exact prepare_conserves conserves tidy step
  | finish connfd t phase s => exact finish_conserves conserves tidy step
  | getNext connfd t participantSocket c todo =>
    cases todo with
    | nil =>
      cases event with
      | returns =>
        cases step
        obtain ⟨free, balanced, _, none⟩ := conserves
        exact leave_conserves free (balanced.base_eq none) _
      | _ => cases step
    | cons i todo =>
      cases event with
      | connectOne connects => exact askOne_conserves conserves tidy step
      | _ => cases step

def TidyStep (n : Nat) (s : Serving) (event : Event) (s' : Serving) : Prop := next n s event = some s' ∧ Tidy n s event

theorem run_conserves {events : List Event} (run : Run (TidyStep n) s events s') (start : Conserves n base s) :
    Conserves n base s' :=
  run.invariant (Conserves n base) (fun _ _ _ conserves step => next_conserves conserves step.2 step.1) start

end Serving

namespace Attending

def descriptors : Attending → Option (Finset Int)
  | .listening _ descriptors => some descriptors
  | .serving _ _ descriptors => some descriptors
  | .stopped => none

theorem next_grows {s s' : Attending} {event : Event} {after : Finset Int} (step : next s event = some s')
    (final : s'.descriptors = some after) :
    ∃ before, s.descriptors = some before ∧ before ⊆ after ∧
      after.card = before.card + if event = .accept then 1 else 0 := by
  cases s with
  | listening p before =>
    cases event with
    | accept =>
      cases step
      cases final
      refine ⟨before, rfl, Finset.subset_insert _ _, ?_⟩
      rw [if_pos rfl, Finset.card_insert_of_notMem (lowestFree_notMem before)]
    | received => cases step
  | serving connfd p before =>
    cases event with
    | accept => cases step
    | received data =>
      refine ⟨before, rfl, ?_⟩
      have same : after = before := by
        cases data with
        | none =>
          cases step
          cases final
          rfl
        | some data =>
          obtain ⟨handled, _, step⟩ := Option.bind_eq_some_iff.mp step
          split at step <;> cases step <;> cases final <;> rfl
      subst same
      exact ⟨Finset.Subset.refl _, rfl⟩
  | stopped => cases step

theorem run_grows {s s' : Attending} {events : List Event} {after : Finset Int}
    (run : Run (fun s event s' => next s event = some s') s events s') (final : s'.descriptors = some after) :
    ∃ before, s.descriptors = some before ∧ before ⊆ after ∧ after.card = before.card + events.count .accept := by
  induction run generalizing after with
  | refl => exact ⟨after, final, Finset.Subset.refl _, by simp⟩
  | tail _ last ih =>
    obtain ⟨middle, kept, subset, grows⟩ := next_grows last final
    obtain ⟨before, start, fewer, earlier⟩ := ih kept
    refine ⟨before, start, fewer.trans subset, ?_⟩
    rw [List.count_append, List.count_singleton, grows, earlier]
    simp only [beq_iff_eq]
    omega

end Attending

/-- After serving, the coordinator has the descriptors that it had before, in a run in which no connect
fails three times and no select fails; a participant has as many more as it has served connections. -/
theorem descriptors_conserved {n : Nat} :
    (∀ (c c' : Coordinator) (sent sent' : List Str) (events : List Serving.Event),
      Run (Serving.TidyStep n) (.idle c sent) events (.idle c' sent') → c'.descriptors = c.descriptors) ∧
    ∀ (p p' : Participant) (descriptors descriptors' : Finset Int) (events : List Attending.Event),
      Run (fun s event s' => Attending.next s event = some s') (.listening p descriptors) events (.listening p' descriptors') →
        descriptors ⊆ descriptors' ∧ descriptors'.card = descriptors.card + events.count .accept := by
  refine ⟨fun c c' sent sent' events run => Serving.run_conserves run rfl, fun p p' descriptors descriptors' events run => ?_⟩
  obtain ⟨_, same, grows⟩ := Attending.run_grows run rfl
  cases same
  exact grows

def listeningOnly : Finset Int := {0, 1, 2, 3}

def setRequest : Serving.Event := .accept (some (respArray [SET, "k".toList, "v".toList])) 7

def oneParticipant : Serving := .idle ⟨fun _ => true, listeningOnly⟩ []

def oneCommit : List Serving.Event :=
  [setRequest, .connectAll fun _ _ => true,
    .selected ⟨{5}, fun _ => .recvs [.bytes (wire [PREPARED, "7".toList, SET])] fun _ => false⟩, .returns,
    .selected ⟨{5}, fun _ => .recvs [.bytes (wire [DONE, "7".toList, SET])] fun _ => false⟩, .returns]

def hungUp : List Attending.Event := [.accept, .received none]

theorem hungUp_run :
    Run (fun s event s' => Attending.next s event = some s') (.listening Participant.init listeningOnly) hungUp
      (.listening Participant.init (insert 4 listeningOnly)) := run_of_execute rfl

theorem descriptors_conserved_commit :
    (∃ c', Run (Serving.TidyStep 1) oneParticipant oneCommit (.idle c' [getClientOKMsg]) ∧ c'.descriptors = listeningOnly) ∧
    (insert 4 listeningOnly).card = listeningOnly.card + hungUp.count .accept := by
  have served : (execute (fun s event => if Serving.Tidy 1 s event then Serving.next 1 s event else none) oneParticipant
      oneCommit).any (fun s => match s with
        | .idle _ sent => decide (sent = [getClientOKMsg])
        | _ => false) = true := by decide +kernel
  obtain ⟨s, executed, result⟩ := (Option.any_eq_true _ _).mp served
  cases s with
  | idle c' sent' =>
    cases of_decide_eq_true result
    have run : Run (Serving.TidyStep 1) oneParticipant oneCommit (.idle c' [getClientOKMsg]) := run_of_checked executed
    exact ⟨⟨c', run, descriptors_conserved.1 _ _ _ _ _ run⟩, (descriptors_conserved (n := 1)).2 _ _ _ _ _ hungUp_run |>.2⟩
  | _ => cases result

/-- A participant keeps a connection that its peer has closed, and the coordinator a socket that could
not be connected. -/
theorem descriptors_not_conserved :
    (∃ descriptors, Run (fun s event s' => Attending.next s event = some s') (.listening Participant.init listeningOnly) hungUp
      (.listening Participant.init descriptors) ∧ descriptors ≠ listeningOnly) ∧
    ∃ c', Run (fun s event s' => Serving.next 1 s event = some s') oneParticipant [setRequest, .connectAll fun _ _ => false]
      (.idle c' [getClientERRORMsg]) ∧ c'.descriptors ≠ listeningOnly := by
  refine ⟨⟨insert 4 listeningOnly, hungUp_run, by decide⟩, ?_⟩
  have served : (execute (Serving.next 1) oneParticipant [setRequest, .connectAll fun _ _ => false]).any
      (fun s => match s with
        | .idle c' sent => decide (sent = [getClientERRORMsg] ∧ c'.descriptors ≠ listeningOnly)
        | _ => false) = true := by decide +kernel
  obtain ⟨s, executed, result⟩ := (Option.any_eq_true _ _).mp served
  cases s with
  | idle c' sent' =>
    obtain ⟨same, more⟩ := of_decide_eq_true result
    cases same
    exact ⟨c', run_of_execute executed, more⟩
  | _ => cases result

end CloudLab.TwoPC
