import CloudLab.TwoPC.Prepared

/-! The sockets of the coordinator to its participants, as both of its waits use them: the loop
over the participants whose descriptors are ready, and what becomes of the set of sockets. -/

namespace CloudLab.TwoPC

open CloudLab Text Tally Descriptors

structure Coordinator where
  vaild : Nat → Bool
  descriptors : Finset Int

namespace Coordinator

def close (c : Coordinator) (fd : Int) : Coordinator := { c with descriptors := c.descriptors.erase fd }

/-- The new socket, or -1. The socket of three failed calls of `connect` is not closed. -/
def connectParticipant (c : Coordinator) (i : Nat) (connects : Nat → Bool) : Int × Coordinator :=
  if c.vaild i = false then (-1, c)
  else
    let sockfd := lowestFree c.descriptors
    let c := { c with descriptors := insert sockfd c.descriptors }
    if (List.range 3).any connects then (sockfd, c)
    else (-1, { c with vaild := Function.update c.vaild i false })

def Connects (c : Coordinator) (i : Nat) (connects : Nat → Bool) : Prop :=
  c.vaild i = true ∧ (List.range 3).any connects = true

theorem connectParticipant_cases (c : Coordinator) (i : Nat) (connects : Nat → Bool) :
    (c.Connects i connects ∧ c.connectParticipant i connects =
        (lowestFree c.descriptors, { c with descriptors := insert (lowestFree c.descriptors) c.descriptors })) ∨
      (¬ c.Connects i connects ∧ ∃ descriptors, c.descriptors ⊆ descriptors ∧ c.connectParticipant i connects =
        (-1, { vaild := Function.update c.vaild i false, descriptors := descriptors })) := by
  unfold connectParticipant
  split
  · next invalid =>
    refine Or.inr ⟨fun usable => ?_, c.descriptors, Finset.Subset.refl _, ?_⟩
    · rw [usable.1] at invalid
      cases invalid
    · rw [← invalid, Function.update_eq_self]
  · next valid =>
    split
    · next succeeds => exact Or.inl ⟨⟨Bool.not_eq_false _ |>.mp valid, succeeds⟩, rfl⟩
    · next fails => exact Or.inr ⟨fun usable => fails usable.2, _, Finset.subset_insert _ _, rfl⟩

end Coordinator

section scan

variable {σ : Type*} {socket : σ → Nat → Int} {receive : σ → Nat → Reading → Option σ}
  {curFdSet : Finset Int} {recv : Nat → Reading}

/-- The loop of both waits over the participants, as long as `nReady` is positive. -/
def scanReady (socket : σ → Nat → Int) (receive : σ → Nat → Reading → Option σ) (curFdSet : Finset Int)
    (recv : Nat → Reading) : List Nat → Int → σ → Option σ
  | [], _, s => some s
  | i :: rest, nReady, s =>
      if 0 < nReady then
        if 0 < socket s i ∧ socket s i ∈ curFdSet then
          (receive s i (recv i)).bind (scanReady socket receive curFdSet recv rest (nReady - 1))
        else scanReady socket receive curFdSet recv rest nReady s
      else some s

theorem Poll.scan_eq (preparedRequestMsg : Str) (rest : List Nat) (nReady : Int) (s : Poll) :
    Poll.scan preparedRequestMsg curFdSet recv rest nReady s =
      scanReady Poll.participantSocket (Poll.receive preparedRequestMsg) curFdSet recv rest nReady s := by
  induction rest generalizing nReady s with
  | nil => rfl
  | cons i rest ih =>
    have onwards : Poll.scan preparedRequestMsg curFdSet recv rest =
        scanReady Poll.participantSocket (Poll.receive preparedRequestMsg) curFdSet recv rest := by
      funext nReady s
      exact ih nReady s
    rw [Poll.scan, scanReady, onwards]

def Receives (socket : σ → Nat → Int) (receive : σ → Nat → Reading → Option σ) (curFdSet : Finset Int)
    (recv : Nat → Reading) (s : σ) (i : Nat) (t : σ) : Prop :=
  0 < socket s i ∧ socket s i ∈ curFdSet ∧ receive s i (recv i) = some t

/-- The loop is a run over the participants found ready, each of them once. What holds of every
ready one at the start, and is not lost when others are dealt with, holds when its turn comes; and
unless none is ready, one of them has its turn. -/
theorem scanReady_run (Inv : σ → Prop) (Waiting : σ → Nat → Prop) {s t : σ} {rest : List Nat} {nReady : Int}
    (step : scanReady socket receive curFdSet recv rest nReady s = some t) (once : rest.Nodup) (inv : Inv s)
    (others : ∀ s i t, i ∈ rest → Inv s → Waiting s i → Receives socket receive curFdSet recv s i t →
      Inv t ∧ ∀ j, j ≠ i → socket t j = socket s j ∧ (Waiting s j → Waiting t j))
    (ready : ∀ i ∈ rest, 0 < socket s i → socket s i ∈ curFdSet → Waiting s i) :
    ∃ found, Run (fun s i t => i ∈ rest ∧ Inv s ∧ Waiting s i ∧ Receives socket receive curFdSet recv s i t) s found t ∧
      Inv t ∧ (0 < nReady → (∃ i ∈ rest, 0 < socket s i ∧ socket s i ∈ curFdSet) → found ≠ []) := by
  induction rest generalizing s nReady with
  | nil =>
    cases step
    exact ⟨[], Run.refl _, inv, fun _ some => by simp at some⟩
  | cons i rest ih =>
    obtain ⟨absent, once⟩ := List.nodup_cons.mp once
    have later {s t : σ} {j : Nat} (member : j ∈ rest) := others s j t (List.mem_cons_of_mem i member)
    rw [scanReady] at step
    split at step
    · split at step
      · next here =>
        obtain ⟨middle, received, step⟩ := Option.bind_eq_some_iff.mp step
        have waits := ready i List.mem_cons_self here.1 here.2
        have receives : Receives socket receive curFdSet recv s i middle := ⟨here.1, here.2, received⟩
        obtain ⟨inv', kept⟩ := others s i middle List.mem_cons_self inv waits receives
        have still (j : Nat) (member : j ∈ rest) (positive : 0 < socket middle j) (set : socket middle j ∈ curFdSet) :
            Waiting middle j := by
          have other : j ≠ i := fun same => absent (same ▸ member)
          obtain ⟨same, waiting⟩ := kept j other
          rw [same] at positive set
          exact waiting (ready j (List.mem_cons_of_mem i member) positive set)
        obtain ⟨found, run, final, _⟩ := ih step once inv' (fun s j t member => later member) still
        refine ⟨i :: found, Run.head ⟨List.mem_cons_self, inv, waits, receives⟩ (run.mono ?_), final,
          fun _ _ => List.cons_ne_nil _ _⟩
        exact fun s j t turn => ⟨List.mem_cons_of_mem i turn.1, turn.2⟩
      · next away =>
        obtain ⟨found, run, final, some⟩ := ih step once inv (fun s j t member => later member) fun j member =>
          ready j (List.mem_cons_of_mem i member)
        refine ⟨found, run.mono fun s j t turn => ⟨List.mem_cons_of_mem i turn.1, turn.2⟩, final, ?_⟩
        rintro positive ⟨j, member, here⟩
        rcases List.mem_cons.mp member with rfl | later
        · exact absurd here away
        · exact some positive ⟨j, later, here⟩
    · next spent =>
      cases step
      exact ⟨[], Run.refl _, inv, fun positive => absurd positive spent⟩

theorem scanReady_none {s : σ} {rest : List Nat} {nReady : Int} (once : rest.Nodup)
    (others : ∀ s i t, receive s i (recv i) = some t → ∀ j, j ≠ i → socket t j = socket s j)
    (enough : (rest.filter fun i => decide (0 < socket s i ∧ socket s i ∈ curFdSet)).length ≤ nReady)
    {i : Nat} (member : i ∈ rest) (ready : 0 < socket s i ∧ socket s i ∈ curFdSet)
    (silent : ∀ s, receive s i (recv i) = none) :
    scanReady socket receive curFdSet recv rest nReady s = none := by
  induction rest generalizing s nReady with
  | nil => cases member
  | cons k rest ih =>
    obtain ⟨absent, once⟩ := List.nodup_cons.mp once
    have positive : 0 < nReady := by
      have inside : i ∈ (k :: rest).filter fun i => decide (0 < socket s i ∧ socket s i ∈ curFdSet) :=
        List.mem_filter.mpr ⟨member, decide_eq_true ready⟩
      have some := List.length_pos_of_mem inside
      omega
    rw [scanReady, if_pos positive]
    split
    · next here =>
      by_cases same : i = k
      · subst same
        rw [silent s]
        rfl
      · have later : i ∈ rest := (List.mem_cons.mp member).resolve_left same
        cases received : receive s k (recv k) with
        | none => rfl
        | some t =>
          have kept (j : Nat) (inside : j ∈ rest) : socket t j = socket s j :=
            others s k t received j fun is => absent (is ▸ inside)
          have unchanged : (rest.filter fun j => decide (0 < socket t j ∧ socket t j ∈ curFdSet)) =
              rest.filter fun j => decide (0 < socket s j ∧ socket s j ∈ curFdSet) := by
            apply List.filter_congr
            intro j inside
            rw [kept j inside]
          rw [List.filter_cons, if_pos (decide_eq_true here), List.length_cons] at enough
          exact ih once (by rw [unchanged]; omega) later (by rw [kept i later]; exact ready)
    · next elsewhere =>
      have other : i ≠ k := by
        rintro rfl
        exact elsewhere ready
      rw [List.filter_cons, if_neg (by rw [decide_eq_true_eq]; exact elsewhere)] at enough
      exact ih once enough ((List.mem_cons.mp member).resolve_left other) ready

theorem length_ready_le (curFdSet : Finset Int) {n : Nat} {participantSocket : Nat → Int}
    (distinct : ∀ i < n, ∀ j < n, 0 < participantSocket i → participantSocket i = participantSocket j → i = j) :
    ((List.range n).filter fun i => decide (0 < participantSocket i ∧ participantSocket i ∈ curFdSet)).length ≤
      curFdSet.card := by
  have member (i : Nat) : i ∈ ((List.range n).filter fun i =>
      decide (0 < participantSocket i ∧ participantSocket i ∈ curFdSet)).toFinset ↔
        i < n ∧ 0 < participantSocket i ∧ participantSocket i ∈ curFdSet := by
    simp
  rw [← List.toFinset_card_of_nodup (List.nodup_range.filter _)]
  refine Finset.card_le_card_of_injOn participantSocket (fun i inside => ((member i).mp inside).2.2) ?_
  intro i first j second same
  exact distinct i ((member i).mp first).1 j ((member j).mp second).1 ((member i).mp first).2.1 same

end scan

/-! The positive sockets, and what becomes of them. -/

def openSockets (n : Nat) (participantSocket : Nat → Int) : Finset Int :=
  ((Finset.range n).image participantSocket).filter (0 < ·)

section sockets

variable {n i : Nat} {participantSocket : Nat → Int} {descriptors : Finset Int} {fd : Int}

theorem mem_openSockets : fd ∈ openSockets n participantSocket ↔ ∃ i < n, participantSocket i = fd ∧ 0 < fd := by
  simp only [openSockets, Finset.mem_filter, Finset.mem_image, Finset.mem_range]
  constructor
  · rintro ⟨⟨i, small, same⟩, positive⟩
    exact ⟨i, small, same, positive⟩
  · rintro ⟨i, small, same, positive⟩
    exact ⟨⟨i, small, same⟩, positive⟩

theorem socket_mem (small : i < n) (positive : 0 < participantSocket i) :
    participantSocket i ∈ openSockets n participantSocket :=
  mem_openSockets.mpr ⟨i, small, rfl, positive⟩

theorem openSockets_eq_empty (none : ∀ i < n, ¬ 0 < participantSocket i) : openSockets n participantSocket = ∅ := by
  rw [Finset.eq_empty_iff_forall_notMem]
  intro fd member
  obtain ⟨i, small, rfl, positive⟩ := mem_openSockets.mp member
  exact none i small positive

theorem openSockets_release (connected : Connected n participantSocket descriptors) (small : i < n) :
    openSockets n (Function.update participantSocket i (-1)) =
      (openSockets n participantSocket).erase (participantSocket i) := by
  ext fd
  rw [Finset.mem_erase, mem_openSockets, mem_openSockets]
  constructor
  · rintro ⟨j, below, same, above⟩
    by_cases here : j = i
    · rw [here, Function.update_self] at same
      omega
    · rw [Function.update_of_ne here] at same
      refine ⟨fun equal => here ?_, j, below, same, above⟩
      exact connected.distinct j below i small (same ▸ above) (same.trans equal)
  · rintro ⟨other, j, below, same, above⟩
    have here : j ≠ i := fun equal => other (by rw [← same, equal])
    exact ⟨j, below, by rw [Function.update_of_ne here]; exact same, above⟩

theorem openSockets_place (small : i < n) (positive : 0 < fd) :
    openSockets n (Function.update participantSocket i fd) =
      insert fd (openSockets n (Function.update participantSocket i (-1))) := by
  ext x
  rw [Finset.mem_insert, mem_openSockets, mem_openSockets]
  constructor
  · rintro ⟨j, below, same, above⟩
    by_cases here : j = i
    · rw [here, Function.update_self] at same
      exact Or.inl same.symm
    · rw [Function.update_of_ne here] at same
      exact Or.inr ⟨j, below, by rw [Function.update_of_ne here]; exact same, above⟩
  · rintro (rfl | ⟨j, below, same, above⟩)
    · exact ⟨i, small, Function.update_self _ _ _, positive⟩
    · have here : j ≠ i := by
        rintro rfl
        rw [Function.update_self] at same
        omega
      rw [Function.update_of_ne here] at same
      exact ⟨j, below, by rw [Function.update_of_ne here]; exact same, above⟩

theorem Connected.release (connected : Connected n participantSocket descriptors) (small : i < n)
    {kept : Finset Int} (others : descriptors.erase (participantSocket i) ⊆ kept) :
    Connected n (Function.update participantSocket i (-1)) kept := by
  have socket {j : Nat} (positive : 0 < Function.update participantSocket i (-1) j) :
      j ≠ i ∧ Function.update participantSocket i (-1) j = participantSocket j := by
    by_cases same : j = i
    · rw [same, Function.update_self] at positive
      omega
    · exact ⟨same, Function.update_of_ne same _ _⟩
  constructor
  · intro j below k smaller positive equal
    obtain ⟨_, first⟩ := socket positive
    obtain ⟨_, second⟩ := socket (equal ▸ positive)
    rw [first] at positive equal
    rw [second] at equal
    exact connected.distinct j below k smaller positive equal
  · intro j below positive
    obtain ⟨other, same⟩ := socket positive
    rw [same] at positive ⊢
    have different : participantSocket j ≠ participantSocket i := fun equal =>
      other (connected.distinct j below i small positive equal)
    exact others (Finset.mem_erase.mpr ⟨different, connected.opened j below positive⟩)

theorem Connected.place (connected : Connected n participantSocket descriptors)
    (none : ¬ 0 < participantSocket i) (free : fd ∉ descriptors) :
    Connected n (Function.update participantSocket i fd) (insert fd descriptors) := by
  have own {j : Nat} (below : j < n) (positive : 0 < participantSocket j) : j ≠ i ∧ participantSocket j ≠ fd :=
    ⟨fun same => none (same ▸ positive), fun same => free (same ▸ connected.opened j below positive)⟩
  constructor
  · intro j below k smaller positive equal
    by_cases first : j = i
    · by_cases second : k = i
      · rw [first, second]
      · rw [first, Function.update_self] at positive equal
        rw [Function.update_of_ne second] at equal
        exact absurd equal.symm (own smaller (equal ▸ positive)).2
    · rw [Function.update_of_ne first] at positive equal
      by_cases second : k = i
      · rw [second, Function.update_self] at equal
        exact absurd equal (own below positive).2
      · rw [Function.update_of_ne second] at equal
        exact connected.distinct j below k smaller positive equal
  · intro j below positive
    by_cases same : j = i
    · rw [same, Function.update_self]
      exact Finset.mem_insert_self _ _
    · rw [Function.update_of_ne same] at positive ⊢
      exact Finset.mem_insert_of_mem (connected.opened j below positive)

theorem Connected.renew (connected : Connected n participantSocket descriptors) (small : i < n) :
    Connected n (Function.update participantSocket i (lowestFree (descriptors.erase (participantSocket i))))
      (insert (lowestFree (descriptors.erase (participantSocket i))) (descriptors.erase (participantSocket i))) := by
  have released := connected.release small (Finset.Subset.refl (descriptors.erase (participantSocket i)))
  have again := released.place (by rw [Function.update_self]; decide)
    (lowestFree_notMem (descriptors.erase (participantSocket i)))
  rwa [Function.update_idem] at again

theorem tally_release (small : i < n) (positive : 0 < participantSocket i) :
    tally n (fun j => decide (0 < Function.update participantSocket i (-1) j)) + 1 =
      tally n fun j => decide (0 < participantSocket j) := by
  have same : (fun j => decide (0 < Function.update participantSocket i (-1) j)) =
      Function.update (fun j => decide (0 < participantSocket j)) i false := by
    funext j
    by_cases here : j = i
    · subst here
      simp
    · simp [Function.update_of_ne here]
  rw [same]
  exact tally_update_false small (decide_eq_true positive)

theorem live_renew (positive : 0 < participantSocket i) (above : 0 < fd) :
    (fun j => decide (0 < Function.update participantSocket i fd j)) = fun j => decide (0 < participantSocket j) := by
  funext j
  by_cases here : j = i
  · subst here
    simp [positive, above]
  · simp [Function.update_of_ne here]

end sockets

/-! What a ready descriptor of `waitForPrepared` gives, with what is found on it. -/

/-- Among the ready participants one is found gone that is then connected to again. -/
def Reconnects (n : Nat) (participantSocket : Nat → Int) (vaild : Nat → Bool) (polled : Polled) : Prop :=
  ∃ i < n, 0 < participantSocket i ∧ participantSocket i ∈ polled.curFdSet ∧
    ∃ connects, (polled.recv i).getMessage = some (.gone connects) ∧ vaild i = true ∧ (List.range 3).any connects = true

namespace Poll

variable {n i j : Nat} {before : Nat → Int} {preparedRequestMsg : Str} {s t : Poll}

def coordinator (s : Poll) : Coordinator := ⟨s.vaild, s.descriptors⟩

theorem connectParticipant_eq (s : Poll) (i : Nat) (connects : Nat → Bool) :
    s.connectParticipant i connects =
      ((s.coordinator.connectParticipant i connects).1,
        { s with vaild := (s.coordinator.connectParticipant i connects).2.vaild,
                 descriptors := (s.coordinator.connectParticipant i connects).2.descriptors }) := by
  unfold connectParticipant Coordinator.connectParticipant coordinator
  split
  · rfl
  · split <;> rfl

inductive Outcome (s : Poll) (i : Nat) (recv : Reading) : Poll → Prop
  | answer (data : Str) {parsed : Bool × List Str} : recv.getMessage = some (.message data) →
      parseClusterMsg data = some parsed → Outcome s i recv (s.accept i data)
  | lost (connects : Nat → Bool) (descriptors : Finset Int) : recv.getMessage = some (.gone connects) →
      ¬ s.coordinator.Connects i connects → s.descriptors.erase (s.participantSocket i) ⊆ descriptors →
      Outcome s i recv (s.lose i descriptors)
  | again (connects : Nat → Bool) (sent : List (Int × Str)) : recv.getMessage = some (.gone connects) →
      s.coordinator.Connects i connects →
      Outcome s i recv (s.renew i (lowestFree (s.descriptors.erase (s.participantSocket i))) sent)

theorem receive_outcome {recv : Reading} (step : s.receive preparedRequestMsg i recv = some t) : Outcome s i recv t := by
  obtain ⟨answer, returned, step⟩ := Option.bind_eq_some_iff.mp step
  cases answer with
  | message data =>
    obtain ⟨_, parsed, same⟩ := Option.bind_eq_some_iff.mp step
    cases same
    exact .answer data returned parsed
  | gone connects =>
    unfold handle reconnect at step
    rcases Coordinator.connectParticipant_cases (s.close (s.participantSocket i)).coordinator i connects with
      ⟨usable, connected⟩ | ⟨unusable, descriptors, kept, failed⟩
    · simp only [coordinator, close] at connected
      have accepted : ¬ lowestFree (s.descriptors.erase (s.participantSocket i)) < 0 :=
        not_lt_of_gt (lowestFree_pos _)
      simp only [connectParticipant_eq, coordinator, close, connected, if_neg accepted, send, FD_SET,
        Option.map_eq_some_iff] at step
      obtain ⟨allFdSet, set, rfl⟩ := step
      split at set
      · cases set
        exact .again connects _ returned usable
      · cases set
    · simp only [coordinator, close] at failed kept
      simp only [connectParticipant_eq, coordinator, close, failed, Int.reduceNeg, Int.reduceLT, if_true, remove,
        Function.update_idem, Option.some.injEq] at step
      subst step
      exact .lost connects descriptors returned unusable kept

theorem Outcome.received {recv : Reading} (result : Outcome s i recv t) : Received s i t := by
  cases result with
  | answer data _ parsed => exact .answer data parsed
  | lost _ descriptors _ _ kept => exact .lost descriptors kept
  | again _ sent _ _ => exact .again sent

theorem Outcome.others {recv : Reading} (result : Outcome s i recv t) (other : j ≠ i) :
    t.participantSocket j = s.participantSocket j ∧ t.vaild j = s.vaild j ∧ t.answered j = s.answered j := by
  obtain ⟨socket, answered⟩ := result.received.others other
  refine ⟨socket, ?_, answered⟩
  cases result with
  | answer => rfl
  | lost => exact Function.update_of_ne other _ _
  | again => rfl

structure Served (n : Nat) (polled : Polled) (first s : Poll) (i : Nat) (t : Poll) : Prop where
  small : i < n
  connected : 0 < s.participantSocket i
  ready : s.participantSocket i ∈ polled.curFdSet
  waiting : s.answered i = false
  same : s.participantSocket i = first.participantSocket i ∧ s.vaild i = first.vaild i
  outcome : Outcome s i (polled.recv i) t

theorem scan_served (inv : Inv n before s) {polled : Polled} {nReady : Int}
    (selected : ∀ fd ∈ polled.curFdSet, fd ∈ s.allFdSet)
    (step : Poll.scan preparedRequestMsg polled.curFdSet polled.recv (List.range n) nReady s = some t) :
    ∃ found, Run (fun s' i t => Served n polled s s' i t ∧ Inv n before s') s found t ∧ Inv n before t ∧
      (0 < nReady → polled.curFdSet ≠ ∅ → found ≠ []) := by
  rw [scan_eq] at step
  obtain ⟨found, run, final, some⟩ := scanReady_run (Inv n before)
    (fun s' i => s'.answered i = false ∧ s'.participantSocket i = s.participantSocket i ∧ s'.vaild i = s.vaild i)
    step List.nodup_range inv
    (fun s' i t member inv waiting receives => by
      obtain ⟨positive, _, received⟩ := receives
      have result := receive_outcome received
      refine ⟨inv.received (List.mem_range.mp member) positive waiting.1 result.received, fun j other => ?_⟩
      obtain ⟨socket, vaild, answered⟩ := result.others other
      rw [socket, vaild, answered]
      exact ⟨rfl, id⟩)
    (fun i member positive ready =>
      ⟨(inv.watched i (List.mem_range.mp member) positive).mp (selected _ ready), rfl, rfl⟩)
  refine ⟨found, run.mono ?_, final, fun ready nonempty => ?_⟩
  · rintro s' i t ⟨member, inv, ⟨waiting, same⟩, positive, set, received⟩
    exact ⟨⟨List.mem_range.mp member, positive, set, waiting, same, receive_outcome received⟩, inv⟩
  · obtain ⟨fd, set⟩ := Finset.nonempty_iff_ne_empty.mpr nonempty
    obtain ⟨i, small, rfl, positive⟩ := inv.owner fd (selected fd set)
    exact some ready ⟨i, List.mem_range.mpr small, positive, set⟩

end Poll

end CloudLab.TwoPC
