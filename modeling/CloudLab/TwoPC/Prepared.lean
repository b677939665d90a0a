import CloudLab.TwoPC.Poll

/-! What `waitForPrepared` has counted whenever it is at the head of its loop, and what its
result says. -/

namespace CloudLab.TwoPC

open CloudLab Text Tally Descriptors

structure Connected (n : Nat) (participantSocket : Nat → Int) (descriptors : Finset Int) : Prop where
  distinct : ∀ i < n, ∀ j < n, 0 < participantSocket i → participantSocket i = participantSocket j → i = j
  opened : ∀ i < n, 0 < participantSocket i → participantSocket i ∈ descriptors

namespace Poll

variable {n i : Nat} {before : Nat → Int} {preparedRequestMsg : Str} {s : Poll}

theorem watch_eq {participantSocket : Nat → Int} {allFdSet : Finset Int} {maxfd : Int}
    (result : watch participantSocket n = some (allFdSet, maxfd)) :
    (∀ fd, fd ∈ allFdSet ↔ ∃ i < n, participantSocket i = fd ∧ 0 < fd) ∧ ∀ fd ∈ allFdSet, fd ≤ maxfd := by
  induction n generalizing allFdSet maxfd with
  | zero =>
    cases result
    simp
  | succ n ih =>
    unfold watch at result
    rw [List.range_succ, List.foldlM_append] at result
    obtain ⟨⟨earlier, high⟩, first, last⟩ := Option.bind_eq_some_iff.mp result
    obtain ⟨members, bound⟩ := ih first
    simp only [List.foldlM_cons, List.foldlM_nil, FD_SET] at last
    by_cases positive : 0 < participantSocket n
    · rw [if_pos positive] at last
      split at last
      · cases last
        constructor
        · intro fd
          rw [Finset.mem_insert, members fd]
          constructor
          · intro either
            rcases either with rfl | ⟨i, small, found⟩
            · exact ⟨n, by omega, rfl, positive⟩
            · exact ⟨i, by omega, found⟩
          · rintro ⟨i, small, rfl, above⟩
            by_cases same : i = n
            · exact Or.inl (by rw [same])
            · exact Or.inr ⟨i, by omega, rfl, above⟩
        · intro fd member
          rcases Finset.mem_insert.mp member with rfl | inside
          · exact le_max_right _ _
          · exact le_trans (bound fd inside) (le_max_left _ _)
      · cases last
    · rw [if_neg positive] at last
      cases last
      refine ⟨fun fd => ?_, bound⟩
      rw [members fd]
      constructor
      · rintro ⟨i, small, found⟩
        exact ⟨i, by omega, found⟩
      · rintro ⟨i, small, rfl, above⟩
        have other : i ≠ n := fun same => positive (same ▸ above)
        exact ⟨i, by omega, rfl, above⟩

theorem Inv.start {aliveParticipantCount : Int} {vaild : Nat → Bool} {descriptors : Finset Int}
    (connected : Connected n before descriptors)
    (counted : aliveParticipantCount = tally n fun i => decide (0 < before i))
    (started : Poll.start n before aliveParticipantCount vaild descriptors = some s) : Inv n before s := by
  obtain ⟨⟨allFdSet, maxfd⟩, watched, rfl⟩ := Option.map_eq_some_iff.mp started
  obtain ⟨members, bound⟩ := watch_eq watched
  constructor
  · exact counted
  · exact (congrArg Nat.cast (tally_false n)).symm
  · exact fun i small answered => nomatch answered
  · exact fun i small positive => iff_of_true ((members _).mpr ⟨i, small, rfl, positive⟩) rfl
  · exact fun fd member => (members fd).mp member
  · exact bound
  · exact connected.distinct
  · exact connected.opened
  · exact fun i data member => nomatch member
  · exact fun i silent => rfl
  · exact fun i small positive => Or.inl positive

theorem Inv.run {polls : List Polled} {first : Poll} (run : Run (Turn n preparedRequestMsg) first polls s)
    (start : Inv n before first) : Inv n before s :=
  run.invariant (Inv n before) (fun _ _ _ inv step => inv.turn step) start

/-- What the variables of the loop say at its head. -/
structure Exact (n : Nat) (s : Poll) : Prop where
  alive : s.aliveParticipantCount = tally n s.live
  prepared : s.preparedCount = tally n s.answered
  watched : ∀ fd, fd ∈ s.allFdSet ↔ ∃ i < n, s.participantSocket i = fd ∧ 0 < fd ∧ s.answered i = false
  highest : ∀ fd ∈ s.allFdSet, fd ≤ s.maxfd

/-- What the result says after the loop, where `before` are the sockets at the start. -/
structure Decided (n : Nat) (before : Nat → Int) (s : Poll) : Prop where
  nobody : s.prepareResponse n = -1 ↔ ∀ i < n, s.answered i = false
  all : s.prepareResponse n = 1 ↔
    (∃ i < n, s.answered i = true) ∧ ∀ i data, (i, data) ∈ s.messages → saysPrepared data = true
  refused : s.prepareResponse n = 0 ↔ ∃ i data, (i, data) ∈ s.messages ∧ saysPrepared data = false
  answered : ∀ i < n, 0 < s.participantSocket i → s.answered i = true
  dropped : ∀ i < n, 0 < before i → ¬ 0 < s.participantSocket i → s.vaild i = false

namespace Inv

theorem exact (inv : Inv n before s) : s.Exact n where
  alive := inv.alive
  prepared := inv.prepared
  highest := inv.highest
  watched := by
    intro fd
    constructor
    · intro member
      obtain ⟨i, small, rfl, positive⟩ := inv.owner fd member
      exact ⟨i, small, rfl, positive, (inv.watched i small positive).mp member⟩
    · rintro ⟨i, small, rfl, positive, waiting⟩
      exact (inv.watched i small positive).mpr waiting

theorem all_answered (inv : Inv n before s) (finished : ¬ s.GoesOn) (small : i < n) (positive : 0 < s.participantSocket i) :
    s.answered i = true := by
  have live : s.live i = true := decide_eq_true positive
  have some : tally n s.live ≠ 0 := fun none => by
    rw [tally_eq_zero.mp none i small] at live
    cases live
  have none : tally n (fun i => s.live i && !s.answered i) = 0 := by
    have alive := inv.alive_eq
    have prepared := inv.prepared
    unfold GoesOn at finished
    omega
  have here := tally_eq_zero.mp none i small
  simpa [live] using here

theorem refused_iff (inv : Inv n before s) :
    (∃ i < n, s.response i = 0) ↔ ∃ i data, (i, data) ∈ s.messages ∧ saysPrepared data = false := by
  constructor
  · rintro ⟨i, small, zero⟩
    cases answered : s.answered i with
    | false =>
      rw [inv.silent i answered] at zero
      cases zero
    | true =>
      obtain ⟨data, member⟩ := answered_iff.mp answered
      refine ⟨i, data, member, ?_⟩
      rw [(inv.votes i data member).2] at zero
      by_contra prepared
      rw [Bool.not_eq_false] at prepared
      rw [prepared] at zero
      cases zero
  · rintro ⟨i, data, member, refused⟩
    obtain ⟨small, response⟩ := inv.votes i data member
    rw [refused] at response
    exact ⟨i, small, response⟩

theorem preparedCount_eq_zero (inv : Inv n before s) : s.preparedCount = 0 ↔ ∀ i < n, s.answered i = false := by
  rw [← tally_eq_zero, inv.prepared]
  exact Int.natCast_eq_zero

theorem prepareResponse_answered (inv : Inv n before s) (some : s.preparedCount ≠ 0) :
    s.prepareResponse n = if ∃ i < n, s.response i = 0 then 0 else 1 := by
  have participants : n ≠ 0 := by
    rintro rfl
    exact some (inv.preparedCount_eq_zero.mpr fun i small => absurd small (Nat.not_lt_zero i))
  have checked : Wait.checkParticipantPreparedResponse n s.response = true ↔ ¬ ∃ i < n, s.response i = 0 := by
    simp [Wait.checkParticipantPreparedResponse, participants]
  unfold prepareResponse
  rw [if_neg some]
  by_cases refused : ∃ i < n, s.response i = 0
  · rw [if_pos refused, if_neg fun passed => checked.mp passed refused]
  · rw [if_neg refused, if_pos (checked.mpr refused)]

theorem decided (inv : Inv n before s) (finished : ¬ s.GoesOn) : s.Decided n before := by
  have answered := fun i small => inv.all_answered (i := i) finished small
  have dropped (i : Nat) (small : i < n) (positive : 0 < before i) (gone : ¬ 0 < s.participantSocket i) :
      s.vaild i = false := (inv.dropped i small positive).resolve_left gone
  by_cases none : s.preparedCount = 0
  · have silent := inv.preparedCount_eq_zero.mp none
    have result : s.prepareResponse n = -1 := if_pos none
    have unheard (i : Nat) (data : Str) : (i, data) ∉ s.messages := by
      intro member
      have heard := answered_iff.mpr ⟨data, member⟩
      rw [silent i (inv.votes i data member).1] at heard
      cases heard
    refine ⟨iff_of_true result silent, iff_of_false (by rw [result]; decide) ?_,
      iff_of_false (by rw [result]; decide) ?_, answered, dropped⟩
    · rintro ⟨⟨i, small, heard⟩, _⟩
      rw [silent i small] at heard
      cases heard
    · rintro ⟨i, data, member, _⟩
      exact unheard i data member
  · have result := inv.prepareResponse_answered none
    have heard : ∃ i < n, s.answered i = true := by
      by_contra nobody
      refine none (inv.preparedCount_eq_zero.mpr fun i small => ?_)
      rw [← Bool.not_eq_true]
      exact fun here => nobody ⟨i, small, here⟩
    have talked : ¬ ∀ i < n, s.answered i = false := by
      obtain ⟨i, small, here⟩ := heard
      intro silent
      rw [silent i small] at here
      cases here
    by_cases refused : ∃ i < n, s.response i = 0
    · rw [if_pos refused] at result
      obtain ⟨i, data, member, no⟩ := inv.refused_iff.mp refused
      refine ⟨iff_of_false (by rw [result]; decide) talked, iff_of_false (by rw [result]; decide) ?_,
        iff_of_true result ⟨i, data, member, no⟩, answered, dropped⟩
      rintro ⟨_, prepared⟩
      rw [prepared i data member] at no
      cases no
    · rw [if_neg refused] at result
      rw [inv.refused_iff] at refused
      refine ⟨iff_of_false (by rw [result]; decide) talked, iff_of_true result ⟨heard, fun i data member => ?_⟩,
        iff_of_false (by rw [result]; decide) refused, answered, dropped⟩
      rw [← Bool.not_eq_false]
      exact fun no => refused ⟨i, data, member, no⟩

end Inv

end Poll

/-! Where the sockets come from. -/

structure Connecting where
  participantSocket : Nat → Int
  vaild : Nat → Bool
  connectSuccessCount : Int
  descriptors : Finset Int

namespace Connecting

def connect (connects : Nat → Nat → Bool) (c : Connecting) (i : Nat) : Connecting :=
  if c.vaild i then
    let sockfd := lowestFree c.descriptors
    let c := { c with descriptors := insert sockfd c.descriptors }
    if (List.range 3).any (connects i) then
      { c with participantSocket := Function.update c.participantSocket i sockfd,
               connectSuccessCount := c.connectSuccessCount + 1 }
    else { c with vaild := Function.update c.vaild i false }
  else c

def connectAllParticipants (participantCount : Nat) (connects : Nat → Nat → Bool) (vaild : Nat → Bool)
    (descriptors : Finset Int) : Connecting :=
  (List.range participantCount).foldl (connect connects)
    { participantSocket := fun _ => -1, vaild, connectSuccessCount := 0, descriptors }

structure Made (n : Nat) (c : Connecting) : Prop where
  connected : Connected n c.participantSocket c.descriptors
  counted : c.connectSuccessCount = tally n (fun i => decide (0 < c.participantSocket i))
  later : ∀ i, n ≤ i → c.participantSocket i = -1

namespace Made

variable {n : Nat} {c : Connecting}

theorem skip (made : Made n c) (vaild : Nat → Bool) {descriptors : Finset Int} (kept : c.descriptors ⊆ descriptors) :
    Made (n + 1) { c with vaild := vaild, descriptors := descriptors } := by
  have none : ¬ 0 < c.participantSocket n := by
    rw [made.later n (le_refl n)]
    decide
  have earlier {i : Nat} (small : i < n + 1) (positive : 0 < c.participantSocket i) : i < n := by
    have other : i ≠ n := fun same => none (same ▸ positive)
    omega
  refine ⟨⟨fun i small j smaller positive same => ?_, fun i small positive => ?_⟩, ?_, fun i large => made.later i (by omega)⟩
  · exact made.connected.distinct i (earlier small positive) j (earlier smaller (same ▸ positive)) positive same
  · exact kept (made.connected.opened i (earlier small positive) positive)
  · rw [tally_succ, decide_eq_false none]
    exact made.counted

theorem add (made : Made n c) :
    Made (n + 1)
      { c with descriptors := insert (lowestFree c.descriptors) c.descriptors,
               participantSocket := Function.update c.participantSocket n (lowestFree c.descriptors),
               connectSuccessCount := c.connectSuccessCount + 1 } := by
  have positive := lowestFree_pos c.descriptors
  have unused := lowestFree_notMem c.descriptors
  generalize lowestFree c.descriptors = fd at positive unused ⊢
  have old {i : Nat} (small : i < n) : Function.update c.participantSocket n fd i = c.participantSocket i :=
    Function.update_of_ne (by omega) _ _
  have fresh {i : Nat} (small : i < n) (live : 0 < c.participantSocket i) : c.participantSocket i ≠ fd :=
    fun same => unused (same ▸ made.connected.opened i small live)
  constructor
  · constructor
    · intro i small j smaller live same
      by_cases first : i = n
      · by_cases second : j = n
        · rw [first, second]
        · simp only [first, Function.update_self, old (show j < n by omega)] at same
          exact absurd same.symm (fresh (by omega) (same ▸ positive))
      · simp only [old (show i < n by omega)] at live same
        by_cases second : j = n
        · rw [second, Function.update_self] at same
          exact absurd same (fresh (by omega) live)
        · rw [old (show j < n by omega)] at same
          exact made.connected.distinct i (by omega) j (by omega) live same
    · intro i small live
      by_cases last : i = n
      · simp only [last, Function.update_self]
        exact Finset.mem_insert_self _ _
      · simp only [old (show i < n by omega)] at live ⊢
        exact Finset.mem_insert_of_mem (made.connected.opened i (by omega) live)
  · have same : tally n (fun i => decide (0 < Function.update c.participantSocket n fd i)) =
        tally n (fun i => decide (0 < c.participantSocket i)) :=
      tally_congr fun i small => by rw [old small]
    have count := made.counted
    simp only [tally_succ, same, Function.update_self, positive, decide_true, Bool.toNat_true]
    omega
  · intro i large
    simp only [Function.update_of_ne (show i ≠ n by omega)]
    exact made.later i (by omega)

theorem connect (made : Made n c) (connects : Nat → Nat → Bool) : Made (n + 1) (c.connect connects n) := by
  unfold Connecting.connect
  split
  · dsimp only
    split
    · exact made.add
    · exact made.skip _ (Finset.subset_insert _ _)
  · exact made.skip c.vaild (Finset.Subset.refl _)

end Made

theorem connectAllParticipants_made (n : Nat) (connects : Nat → Nat → Bool) (vaild : Nat → Bool)
    (descriptors : Finset Int) : Made n (connectAllParticipants n connects vaild descriptors) := by
  induction n with
  | zero =>
    have nobody {P : Nat → Prop} (i : Nat) (small : i < 0) : P i := absurd small (Nat.not_lt_zero i)
    exact ⟨⟨nobody, nobody⟩, rfl, fun _ _ => rfl⟩
  | succ n ih =>
    unfold connectAllParticipants at ih ⊢
    rw [List.range_succ, List.foldl_append]
    exact ih.connect connects

end Connecting

/-- The votes are counted exactly: at each head of the loop the counters, the watched
descriptors and the highest of them are right, and so is the result. -/
theorem waitForPrepared_counts {n : Nat} {participantSocket : Nat → Int} {aliveParticipantCount : Int}
    {vaild : Nat → Bool} {descriptors : Finset Int} {preparedRequestMsg : Str} {polls : List Polled} {first s : Poll}
    (connected : Connected n participantSocket descriptors)
    (counted : aliveParticipantCount = tally n fun i => decide (0 < participantSocket i))
    (started : Poll.start n participantSocket aliveParticipantCount vaild descriptors = some first)
    (run : Run (Poll.Turn n preparedRequestMsg) first polls s) :
    s.Exact n ∧ (¬ s.GoesOn → s.Decided n participantSocket) := by
  have inv := (Poll.Inv.start connected counted started).run run
  exact ⟨inv.exact, inv.decided⟩

def threePolled : List Polled :=
  let prepared := wire [PREPARED, "7".toList, SET]
  let answers : Reading := .recvs [.bytes prepared] fun _ => false
  [⟨{5}, fun _ => answers⟩, ⟨{6, 7}, fun i => .recvs [.closed] fun _ => decide (i = 1)⟩, ⟨∅, fun _ => answers⟩,
    ⟨{6}, fun _ => answers⟩]

theorem waitForPrepared_counts_three :
    ∃ first s, Run (Poll.Turn 3 PREPARED_REQUEST) first threePolled s ∧ ¬ s.GoesOn ∧ s.prepareResponse 3 = 1 ∧
      s.Exact 3 ∧ s.Decided 3 (fun i => 5 + i) := by
  have finishes : ((Poll.start 3 (fun i => 5 + i) 3 (fun _ => true) {0, 1, 2, 3, 4, 5, 6, 7}).bind fun first =>
      execute (fun s polled => if s.GoesOn ∧ ∀ fd ∈ polled.curFdSet, fd ∈ s.allFdSet ∧ fd < s.maxfd + 1 then
        s.turn 3 PREPARED_REQUEST polled else none) first threePolled).any
      (fun s => decide (¬ s.GoesOn ∧ s.prepareResponse 3 = 1)) = true := by decide +kernel
  obtain ⟨s, found, result⟩ := (Option.any_eq_true _ _).mp finishes
  obtain ⟨finished, prepared⟩ := of_decide_eq_true result
  obtain ⟨first, started, executed⟩ := Option.bind_eq_some_iff.mp found
  have run : Run (Poll.Turn 3 PREPARED_REQUEST) first threePolled s :=
    (run_of_checked executed).mono fun _ _ _ step => ⟨step.2.1, step.2.2, step.1⟩
  have connected : Connected 3 (fun i => 5 + i) {0, 1, 2, 3, 4, 5, 6, 7} :=
    ⟨fun i _ j _ _ same => by omega, by decide⟩
  obtain ⟨counts, decided⟩ := waitForPrepared_counts connected (by decide) started run
  exact ⟨first, s, run, finished, prepared, counts, decided finished⟩

end CloudLab.TwoPC
