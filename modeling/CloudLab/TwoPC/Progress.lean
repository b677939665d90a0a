import CloudLab.TwoPC.Refinement

/-! When nothing fails a busy coordinator is never stuck, and it answers after a bounded
number of steps. -/

namespace CloudLab.TwoPC
open Text ByteStream Tally

/-! The messages that serve a request, and which of them fill their last read. -/

def Request.doneMsg (db : Db) (id : Int) : Request → Str
  | .set _ _ _ => getClusterDoneMsg id SET []
  | .get key => getClusterDoneMsg id GET ((db key).getD NIL)
  | .del key keys =>
      getClusterDoneMsg id DEL (decimal ((key :: keys).toFinset.filter fun k => (db k).isSome).card)

/-- Neither the request, nor its PREPARED-REQUEST, nor the DONE that answers it fills its
last read. -/
def Request.Unfilled (db : Db) (id : Int) (r : Request) : Prop :=
  r.encode.length % 512 ≠ 0 ∧ (requestMsg ⟨id, r.fields⟩).length % 512 ≠ 0 ∧
    (r.doneMsg db id).length % 512 ≠ 0

instance (db : Db) (id : Int) (r : Request) : Decidable (r.Unfilled db id) :=
  inferInstanceAs (Decidable (_ ∧ _ ∧ _))

section messages
variable {db : Db} {t : Txn} {r : Request} {message : Str} {phase : Phase}

theorem Txn.Of.requestMsg_eq (of : t.Of r) : requestMsg t = requestMsg ⟨t.id, r.fields⟩ := by
  rw [requestMsg, requestMsg, of]

theorem length_decimal_id (valid : t.Valid) : 0 < (decimal t.id).length ∧ (decimal t.id).length ≤ 4 := by
  obtain ⟨id, same⟩ := Int.eq_ofNat_of_zero_le valid.1
  have few : id < 10 ^ 4 := by
    have high := valid.2
    omega
  constructor
  · exact List.length_pos_iff.mpr (decimal_ne_nil t.id)
  · rw [same]
    exact (length_decimal_le_iff (by decide)).mpr few

theorem preparedMsg_unfilled (valid : t.Valid) (of : t.Of r) : (preparedMsg t).length % 512 ≠ 0 := by
  obtain ⟨some, few⟩ := length_decimal_id valid
  have method : (t.split_message.headD []).length = 3 := by
    rw [of]
    cases r <;> rfl
  have long : (preparedMsg t).length = 8 + 2 + (decimal t.id).length + 2 + 3 + 2 := by
    rw [preparedMsg, getClusterPrepareMsg]
    simp only [List.length_append, method]
    rfl
  rw [long]
  omega

theorem decisionMsg_unfilled (valid : t.Valid) (commit : Bool) : (decisionMsg t commit).length % 512 ≠ 0 := by
  obtain ⟨some, few⟩ := length_decimal_id valid
  cases commit with
  | true =>
    have long : (decisionMsg t true).length = 6 + 2 + (decimal t.id).length + 2 := by
      simp only [decisionMsg, if_true, getClusterCommitMsg, List.length_append]
      rfl
    rw [long]
    omega
  | false =>
    have long : (decisionMsg t false).length = 5 + 2 + (decimal t.id).length + 2 := by
      simp only [decisionMsg, Bool.false_eq_true, if_false, getClusterAbortMsg, List.length_append]
      rfl
    rw [long]
    omega

theorem says_done (of : t.Of r) (said : phase.Says .smooth db t message) (fits : phase.Fits t)
    (notPrepare : phase ≠ .prepare) (forward : ∀ commit, phase = .decision commit → commit = true) :
    message = r.doneMsg db t.id := by
  cases phase with
  | prepare => exact absurd rfl notPrepare
  | decision commit =>
    obtain rfl := forward commit rfl
    obtain ⟨op, fields, rfl⟩ : DoneMsg db t true message := said
    rw [Txn.Of, fields] at of
    cases r with
    | get key => cases op <;> simp [Request.fields, Op.fields] at of
    | set key value more =>
      cases op with
      | del => simp [Request.fields, Op.fields] at of
      | set => rfl
    | del key keys =>
      cases op with
      | set => simp [Request.fields, Op.fields] at of
      | del key' keys' =>
        obtain ⟨rfl, rfl⟩ : key' = key ∧ keys' = keys := by simpa [Request.fields, Op.fields] using of
        rw [Op.done, countDeleted_eq, Request.doneMsg]
  | get todo =>
    obtain ⟨key, field, rfl⟩ := (said : GetReply .smooth db t message) id
    obtain ⟨key', rest, reads⟩ : t.Reads := fits
    rw [Txn.Of, reads] at of
    cases r with
    | set => simp [Request.fields] at of
    | del => simp [Request.fields] at of
    | get asked =>
      obtain ⟨rfl, _⟩ : key' = asked ∧ rest = [] := by simpa [Request.fields] using of
      obtain rfl : key' = key := by simpa [reads] using field
      rfl

end messages

section enabled
variable {n : Nat} {db : Db} {t : Txn} {c : Cluster} {w : Wait} {phase : Phase}
  {vaild participantSocket : Nat → Bool} {links : Nat → Link} {i : Nat} {ready : List Nat} {l : Link}
  {segs : List (Seg Char)}

/-- Some step is possible in which nothing fails, other than a request. -/
def Enabled (n : Nat) (c : Cluster) : Prop :=
  ∃ event, event.isRequest = false ∧ FailureFree n c event ∧ (next n c event).isSome

theorem Link.read_isSome {k : Nat} (smooth : l.Smooth) (closed : l.closed = []) (current : l.current = some segs)
    (positive : k ≠ 0) (enough : k ≤ size segs) : (l.read k).isSome := by
  have able : ¬ (l.running = false ∨ k = 0) := by simp [smooth.running, positive]
  have long : ¬ size segs < k := by omega
  simp only [Link.read, if_neg able, closed, current, if_neg long]
  split
  · rfl
  · split <;> rfl

theorem enabled_participant (orderly : Orderly n db c) (bound : i < n) {seg : Seg Char} {rest : List (Seg Char)}
    (current : (c.links i).current = some (seg :: rest)) (short : seg.message.length % 512 ≠ 0) :
    Enabled n c := by
  have filled : seg.message ≠ [] := by
    intro none
    rw [none] at short
    exact short rfl
  have smooth := orderly.links i bound
  cases closed : (c.links i).closed with
  | cons conn conns =>
    have none : conn = [] := smooth.closed conn (by simp [closed])
    subst none
    refine ⟨.eof i, rfl, bound, ?_⟩
    simp [next, Link.eof, smooth.running, closed]
  | nil =>
    have whole : seg.Whole := smooth.current _ current seg (by simp)
    have positive : seg.message.length ≠ 0 := fun zero => filled (List.eq_nil_of_length_eq_zero zero)
    have read := Link.read_isSome smooth closed current positive (size_exact whole)
    refine ⟨.read i seg.message.length, rfl, ⟨bound, ?_, ?_⟩, by simpa [next] using read⟩
    · simpa [Link.ReadsExactly, closed, current] using exact_cons.mpr ⟨whole, rfl⟩
    · intro segs reading
      obtain rfl : seg :: rest = segs := by simpa [Link.reading, closed, current] using reading
      rw [readBytes_exact whole filled]
      exact Participant.receives_iff.mpr short

theorem preparedMsg_ne_nil (t : Txn) : preparedMsg t ≠ [] := prepareMsg_ne_nil _ _

theorem waited_moves (orderly : Orderly n db ⟨.wait t phase w, vaild, links⟩) (bound : i < n)
    (waited : w.waitedFor i = true) : (links i).inbox ≠ [] ∨
      ∃ seg rest, (links i).current = some (seg :: rest) ∧
        (seg.message = requestMsg t ∨ ∃ commit, seg.message = decisionMsg t commit) := by
  have smooth := orderly.links i bound
  have link : WaitLink .smooth db t w i (links i) phase := orderly.link bound
  simp only [Wait.waitedFor, Bool.and_eq_true] at waited
  obtain ⟨socket, descriptor⟩ := waited
  by_cases filled : (links i).inbox ≠ []
  · exact Or.inl filled
  rw [ne_eq, not_not] at filled
  refine Or.inr ?_
  cases phase with
  | prepare =>
    have follows := link.2.1 descriptor
    have here := follows.here smooth
    cases current : (links i).current with
    | none =>
      simp only [Shape.ahead, current] at here
      exact absurd trivial here.1
    | some segs =>
      simp only [Shape.ahead, current] at here
      obtain ⟨messages, _, count⟩ := here
      cases segs with
      | nil => simp [filled] at count; exact absurd trivial count
      | cons seg rest =>
        exact ⟨seg, rest, rfl, Or.inl (messages seg (by simp))⟩
  | decision commit =>
    have follows := (link.1 socket).1
    have here := follows.here smooth
    cases current : (links i).current with
    | none =>
      simp only [Shape.ahead, current] at here
      rcases here with ⟨_, some⟩ | ⟨strict, _⟩
      · exact absurd filled (some trivial)
      · exact absurd trivial strict
    | some segs =>
      simp only [Shape.ahead, current] at here
      rcases here.2 with ⟨_, has, _⟩ | ⟨_, strict, _⟩
      · cases segs with
        | nil => exact has.elim
        | cons seg rest =>
          refine ⟨seg, rest, rfl, ?_⟩
          rcases has with ⟨request, _⟩ | decision
          · exact Or.inl request
          · exact Or.inr ⟨commit, decision⟩
      · exact absurd trivial strict
  | get todo =>
    have follows := link.1 socket
    have here := follows.here smooth
    cases current : (links i).current with
    | none =>
      simp only [Shape.ahead, current] at here
      exact absurd trivial here.1
    | some segs =>
      simp only [Shape.ahead, current] at here
      obtain ⟨messages, _, count⟩ := here
      cases segs with
      | nil =>
        have one := count trivial id
        simp [filled] at one
      | cons seg rest =>
        exact ⟨seg, rest, rfl, Or.inl (messages seg (by simp))⟩

theorem DoneMsg.parses {message : Str} {commit : Bool} (done : DoneMsg db t commit message) :
    message ≠ [] ∧ (parseClusterMsg message).isSome := by
  obtain ⟨op, fields, rfl⟩ := done
  refine ⟨done_ne_nil op, ?_⟩
  have plain : ∀ method addition, '\n' ∉ method → '\n' ∉ addition →
      (parseClusterMsg (getClusterDoneMsg t.id method addition)).isSome := by
    intro method addition methodPlain additionPlain
    rw [done_wire]
    have lines : ∀ line ∈ [DONE, decimal t.id, method] ++ (if addition = [] then [] else [addition]), '\n' ∉ line := by
      intro line member
      rcases List.mem_append.mp member with first | last
      · simp only [List.mem_cons, List.not_mem_nil, or_false] at first
        rcases first with rfl | rfl | rfl
        · exact no_newline_words DONE (by simp)
        · exact newline_not_mem_decimal t.id
        · exact methodPlain
      · split at last
        · cases last
        · rw [List.mem_singleton.mp last]
          exact additionPlain
    rw [parseClusterMsg_wire (by simp) lines]
    rfl
  cases op with
  | set => exact plain _ _ (no_newline_words SET (by simp)) (by simp)
  | del =>
    cases commit
    · exact plain _ _ (no_newline_words DEL (by simp)) (by simp)
    · exact plain _ _ (no_newline_words DEL (by simp)) (newline_not_mem_decimal _)

theorem GetReply.parses {message : Str} (reply : GetReply .smooth db t message) (plain : PlainStore db) :
    message ≠ [] ∧ (parseClusterMsg message).isSome := by
  obtain ⟨key, _, rfl⟩ := reply id
  have line : (db key).getD NIL ≠ [] ∧ '\n' ∉ (db key).getD NIL := by
    cases found : db key with
    | none => exact ⟨by decide, by decide⟩
    | some value => exact plain key value found
  constructor
  · rw [done_wire]
    exact wire_ne_nil (by simp)
  · rw [parse_done (no_newline_words GET (by simp)) line.1 line.2]
    rfl

theorem Orderly.speaks (orderly : Orderly n db ⟨.wait t phase w, vaild, links⟩) (queue : w.ready = i :: ready) :
    ∀ seg ∈ (links i).inbox, phase.Says .smooth db t seg.message := by
  intro seg member
  obtain ⟨descriptor, socket, bound, _⟩ := orderly.inv.control.waits.head queue
  have link : WaitLink .smooth db t w i (links i) phase := orderly.link bound
  cases phase with
  | prepare => exact (link.2.1 descriptor).1.1 seg member
  | decision commit => exact ((link.1 socket).1.1 seg member).resolve_left fun strict => strict.1 trivial
  | get todo => exact (link.1 socket).1.1 seg member

theorem reply_parses {message : Str} (valid : t.Valid) (plain : PlainStore db)
    (said : phase.Says .smooth db t message) : message ≠ [] ∧ (parseClusterMsg message).isSome := by
  cases phase with
  | prepare =>
    have prepared : message = preparedMsg t := said
    rw [prepared, parse_prepared valid]
    exact ⟨preparedMsg_ne_nil t, rfl⟩
  | decision commit => exact DoneMsg.parses said
  | get todo => exact GetReply.parses said plain

theorem Control.Forward.commits (forward : (Control.wait t phase w).Forward) (commit : Bool)
    (decision : phase = .decision commit) : commit = true := by
  subst decision
  exact forward

theorem reply_unfilled {message : Str} {r : Request} (orderly : Orderly n db ⟨.wait t phase w, vaild, links⟩)
    (of : t.Of r) (unfilled : r.Unfilled db t.id) (said : phase.Says .smooth db t message) :
    message.length % 512 ≠ 0 := by
  obtain ⟨valid, fits⟩ := orderly.inv.control.fits
  by_cases prepare : phase = .prepare
  · subst prepare
    have prepared : message = preparedMsg t := said
    rw [prepared]
    exact preparedMsg_unfilled valid of
  · rw [says_done of said fits prepare (Control.Forward.commits orderly.forward)]
    exact unfilled.2.2

theorem enabled_reply {r : Request} (orderly : Orderly n db ⟨.wait t phase w, vaild, links⟩)
    (plain : PlainStore db) (of : t.Of r) (unfilled : r.Unfilled db t.id) (queue : w.ready = i :: ready) :
    Enabled n ⟨.wait t phase w, vaild, links⟩ := by
  obtain ⟨_, _, bound, _⟩ := orderly.inv.control.waits.head queue
  have filled : (links i).inbox ≠ [] := orderly.readable t phase w rfl i (by simp [queue])
  have smooth := orderly.links i bound
  match inbox : (links i).inbox with
  | [] => exact absurd inbox filled
  | seg :: rest =>
    have said := orderly.speaks queue seg (by simp [inbox])
    have short := reply_unfilled orderly of unfilled said
    obtain ⟨nonempty, parses⟩ := reply_parses orderly.inv.control.fits.1 plain said
    have whole : seg.Whole := smooth.inbox seg (by simp [inbox])
    obtain ⟨parsed, result⟩ := Option.isSome_iff_exists.mp parses
    have exact : Exact seg.message.length (links i).inbox := inbox ▸ exact_cons.mpr ⟨whole, rfl⟩
    have able : ¬ (seg.message.length = 0 ∨ size (links i).inbox < seg.message.length) := by
      rintro (zero | short)
      · exact nonempty (List.eq_nil_of_length_eq_zero zero)
      · have enough : seg.message.length ≤ size (seg :: rest) := size_exact whole
        rw [inbox] at short
        omega
    have taken : (readBytes seg.message.length (links i).inbox).1 = seg.message := by
      rw [inbox, readBytes_exact whole nonempty]
    have free : Cluster.Delivers ⟨.wait t phase w, vaild, links⟩ seg.message.length := by
      simp only [Cluster.Delivers, queue, taken]
      exact ⟨exact, Coordinator.receives_iff.mpr short⟩
    cases phase with
    | prepare =>
      refine ⟨.reply seg.message.length, rfl, free, ?_⟩
      simp only [next, queue, Cluster.onReply, if_neg able, Wait.recordPrepared, taken, result,
        Option.bind_eq_bind, Option.bind_some]
      rfl
    | decision commit =>
      refine ⟨.reply seg.message.length, rfl, free, ?_⟩
      simp only [next, queue, Cluster.onReply, if_neg able, Wait.recordDone, taken, result,
        Option.bind_eq_bind, Option.bind_some]
      rfl
    | get todo =>
      refine ⟨.reply seg.message.length, rfl, free, ?_⟩
      simp only [next, queue, Cluster.onReply, if_neg able, Wait.recordDone, taken, result,
        Option.bind_eq_bind, Option.bind_some]
      rfl

theorem exists_waited (known : ControlInv .smooth n db vaild (.wait t phase w)) (goes : w.GoesOn) :
    ∃ i < n, w.waitedFor i = true := by
  rw [Wait.GoesOn] at goes
  have pending : ∀ {phase : Phase}, DoneInv .smooth n db t phase vaild w → ∃ i < n, w.waitedFor i = true := by
    intro phase inv
    have alive := inv.alive
    obtain ⟨i, bound, socket⟩ := exists_of_tally (n := n) (f := w.participantSocket) (by omega)
    exact ⟨i, bound, by simp [Wait.waitedFor, socket, inv.all i socket]⟩
  cases phase with
  | prepare =>
    obtain ⟨_, _, inv⟩ := known
    have split := tally_split n w.participantSocket w.allFdSet
    have alive := inv.alive
    have count := inv.count
    exact exists_of_tally (f := w.waitedFor) (by
      show tally n (fun i => w.participantSocket i && w.allFdSet i) ≠ 0
      omega)
  | decision commit => exact pending known.2.2.1
  | get todo => exact pending known.2.2.1

/-- A coordinator that serves a request without full reads is never stuck. -/
theorem Orderly.enabled {r : Request} (orderly : Orderly n db c) (plain : PlainStore db)
    (busy : c.control.txn = some t) (of : t.Of r) (unfilled : r.Unfilled db t.id) : Enabled n c := by
  obtain ⟨control, vaild, links⟩ := c
  have everyone : ∀ i < n, vaild i = true := orderly.everyone
  cases control with
  | idle last => cases busy
  | connectAll t participantSocket alive todo =>
    cases todo with
    | nil =>
      refine ⟨.proceed, rfl, trivial, ?_⟩
      simp only [next]
      split <;> rfl
    | cons i todo =>
      have bound := (orderly.inv.control.2.2.2.2.2 i (by simp)).1
      have running : (links i).running = true := (orderly.links i bound).running
      refine ⟨.connect true, rfl, rfl, ?_⟩
      simp only [next, everyone i bound, running, Bool.true_eq_false, if_false, if_true]
      rfl
  | sendAll t phase participantSocket alive todo =>
    cases todo with
    | nil => exact ⟨.proceed, rfl, trivial, rfl⟩
    | cons i todo => exact ⟨.send, rfl, trivial, rfl⟩
  | getNext t todo =>
    cases todo with
    | nil => exact ⟨.proceed, rfl, trivial, rfl⟩
    | cons i todo =>
      have bound := orderly.inv.control.2.2 i (by simp)
      have running : (links i).running = true := (orderly.links i bound).running
      refine ⟨.connect true, rfl, rfl, ?_⟩
      simp only [next, everyone i bound, running, Bool.true_eq_false, if_false, if_true]
      rfl
  | wait t' phase w =>
    obtain rfl : t' = t := by simpa [Control.txn] using busy
    cases queue : w.ready with
    | cons i ready => exact enabled_reply orderly plain of unfilled queue
    | nil =>
      by_cases goes : w.GoesOn
      · obtain ⟨i, bound, waited⟩ := exists_waited orderly.inv.control goes
        rcases waited_moves orderly bound waited with filled | ⟨seg, rest, current, message⟩
        · refine ⟨.select [i], rfl, trivial, ?_⟩
          have able : w.ready = [] ∧ w.GoesOn ∧ [i] ≠ [] ∧ [i].Pairwise (· < ·) ∧
              ∀ j ∈ [i], j < n ∧ w.waitedFor j ∧ (links j).readable := by
            refine ⟨queue, goes, by simp, List.pairwise_singleton _ _, ?_⟩
            intro j member
            rw [List.mem_singleton.mp member]
            exact ⟨bound, waited, by simp [Link.readable, filled]⟩
          simp only [next, if_pos able]
          rfl
        · refine enabled_participant orderly bound current ?_
          rcases message with request | ⟨commit, decision⟩
          · rw [request, of.requestMsg_eq]
            exact unfilled.2.1
          · rw [decision]
            exact decisionMsg_unfilled orderly.inv.control.fits.1 commit
      · refine ⟨.proceed, rfl, trivial, ?_⟩
        simp only [next, queue, goes, not_false_eq_true, and_self, if_true]
        split <;> rfl

end enabled

/-! How much is left to do. -/

/-- A message that is to be read costs more than the answer to it. -/
def Link.work (l : Link) : Nat := l.closed.length + 3 * (l.current.getD []).length + l.inbox.length

def Wait.work (n : Nat) (w : Wait) : Nat := 2 * tally n w.waitedFor + if w.ready = [] then 1 else 0

def Control.work (n : Nat) : Control → Nat
  | .idle _ => 0
  | .connectAll _ _ _ todo => 12 * n + 7 + todo.length
  | .sendAll _ .prepare _ _ todo => 8 * n + 6 + 4 * todo.length
  | .wait _ .prepare w => 6 * n + 4 + w.work n
  | .sendAll _ (.decision _) _ _ todo => 2 * n + 3 + 4 * todo.length
  | .wait _ (.decision _) w => 1 + w.work n
  | .getNext _ todo => 1 + 8 * todo.length
  | .wait _ (.get todo) w => 2 + 8 * todo.length + w.work n
  | .sendAll _ (.get _) _ _ todo => 4 * todo.length

def Cluster.work (n : Nat) (c : Cluster) : Nat :=
  c.control.work n + ∑ i ∈ Finset.range n, (c.links i).work

section work
variable {n : Nat} {db : Db} {t : Txn} {c c' : Cluster} {w w' : Wait} {phase : Phase}
  {vaild participantSocket : Nat → Bool} {links : Nat → Link} {i k : Nat} {ready : List Nat} {l l' : Link}

theorem Cluster.work_lt (bound : i < n) (changed : c'.links = Function.update c.links i l)
    (lower : c'.control.work n + l.work < c.control.work n + (c.links i).work) : c'.work n < c.work n := by
  have terms : (fun j => (c'.links j).work) = Function.update (fun j => (c.links j).work) i l.work := by
    funext j
    rw [changed]
    by_cases same : j = i
    · simp [same]
    · simp [same]
  have sum := sum_update (n := n) (f := fun j => (c.links j).work) (v := l.work) bound
  rw [← terms] at sum
  simp only [Cluster.work] at sum ⊢
  omega

theorem Link.connect_work (l : Link) : l.connect.work ≤ l.work := by
  simp only [Link.connect, Link.work, Option.getD_some, List.length_nil]
  omega

theorem Link.send_work (l : Link) (message : Str) : (l.send message).work ≤ l.work + 3 := by
  have short : (sendMessage message).length ≤ 1 := by
    unfold sendMessage
    split <;> simp
  simp only [Link.send, Link.work]
  cases l.current with
  | none => simp
  | some segs =>
    simp only [Option.map_some, Option.getD_some, List.length_append, List.length_map]
    omega

theorem Link.close_work (filled : l.inbox ≠ []) : l.close.work ≤ l.work := by
  have positive := List.length_pos_iff.mpr filled
  simp only [Link.close, Link.work, Option.getD_none, List.length_nil, List.length_append]
  cases l.current with
  | none => simp
  | some segs =>
    simp only [Option.toList_some, List.length_singleton, Option.getD_some]
    omega

theorem Link.read_work (smooth : l.Smooth) (exact : l.ReadsExactly k)
    (served : ∀ seg segs, l.current = some (seg :: segs) → l.site.Serves seg.message)
    (step : l.read k = some l') : l'.work < l.work := by
  obtain ⟨_, closed, closed', seg, segs, sent, current, after, inbox, short⟩ := smooth.read exact served step
  have left : (l'.current.getD []).length ≤ segs.length := by
    rcases after with same | gone
    · simp [same]
    · simp [gone]
  simp only [Link.work, closed, closed', inbox, current, Option.getD_some, List.length_cons, List.length_append]
  omega

theorem Wait.work_taken (waited : w.waitedFor i = true) (bound : i < n) (queue : w.ready = i :: ready)
    (others : ∀ j, w'.waitedFor j = Function.update w.waitedFor i false j) : w'.work n < w.work n := by
  have fewer := tally_update_false bound waited
  have same : tally n w'.waitedFor = tally n (Function.update w.waitedFor i false) :=
    tally_congr fun j _ => others j
  have first : w.ready ≠ [] := by simp [queue]
  simp only [Wait.work, same, if_neg first]
  split <;> omega

theorem Wait.start_work (n : Nat) (participantSocket : Nat → Bool) (alive : Int) :
    (Wait.start participantSocket alive).work n ≤ 2 * n + 1 := by
  have bound := tally_le n (Wait.start participantSocket alive).waitedFor
  simp only [Wait.work, Wait.start, if_true] at bound ⊢
  omega

theorem connect_lowers (orderly : Orderly n db c) {ok : Bool} (free : FailureFree n c (.connect ok))
    (step : next n c (.connect ok) = some c') : c'.work n < c.work n := by
  cases next_branch step with
  | @connectGone t participantSocket alive i todo =>
    simp only [Cluster.work, Control.work, List.length_cons]
    omega
  | @connected t participantSocket alive i todo vaild links =>
    have bound := (orderly.inv.control.2.2.2.2.2 i (by simp)).1
    have connect := (links i).connect_work
    refine Cluster.work_lt bound rfl ?_
    simp only [Control.work, List.length_cons]
    omega
  | connectFailed => cases free
  | @getGone t i todo =>
    simp only [Cluster.work, Control.work, List.length_cons]
    omega
  | @asked t i todo vaild links =>
    have bound := orderly.inv.control.2.2 i (by simp)
    have connect := (links i).connect_work
    have send := (links i).connect.send_work (Phase.message t (.get todo))
    have start : (Wait.start (fun j => decide (j = i)) 1).work n ≤ 3 := by
      have one : tally n (Wait.start (fun j => decide (j = i)) 1).waitedFor = 1 := by
        rw [← tally_single bound]
        exact tally_congr fun j _ => by simp [Wait.waitedFor, Wait.start]
      simp only [Wait.work]
      rw [one]
      simp [Wait.start]
    refine Cluster.work_lt bound rfl ?_
    simp only [Control.work, List.length_cons]
    omega
  | getFailed => cases free

theorem send_lowers (orderly : Orderly n db c) (step : next n c .send = some c') : c'.work n < c.work n := by
  cases next_branch step with
  | @send t phase participantSocket alive i todo vaild links =>
    have lower : (Control.sendAll t phase participantSocket alive todo).work n + 4 =
        (Control.sendAll t phase participantSocket alive (i :: todo)).work n := by
      cases phase <;> simp only [Control.work, List.length_cons] <;> omega
    split
    · next socket =>
      have bound := (orderly.inv.control.2.2.1 i socket).1
      have send := (links i).send_work (phase.message t)
      refine Cluster.work_lt bound rfl ?_
      simp only
      omega
    · simp only [Cluster.work]
      omega

theorem select_lowers (step : next n c (.select ready) = some c') : c'.work n < c.work n := by
  cases next_branch step with
  | @select t phase w vaild links _ able =>
    have lower : ({ w with ready := ready, timeout := 0 } : Wait).work n < w.work n := by
      have same : tally n ({ w with ready := ready, timeout := 0 } : Wait).waitedFor = tally n w.waitedFor := rfl
      simp only [Wait.work, same, if_neg able.2.2, if_pos able.1]
      omega
    cases phase <;> simp only [Cluster.work, Control.work] <;> omega

theorem proceed_lowers (orderly : Orderly n db c) (positive : 0 < n) (plain : PlainStore db)
    (step : next n c .proceed = some c') : c'.work n < c.work n := by
  have present := orderly.everyone 0 positive
  cases next_branch step with
  | nobody nobody => exact absurd nobody (orderly.inv.somebody positive present)
  | prepare =>
    simp only [Cluster.work, Control.work, List.length_range, List.length_nil]
    omega
  | @startWait t phase participantSocket alive =>
    have start := Wait.start_work n participantSocket alive
    cases phase with
    | prepare =>
      simp only [Cluster.work, Control.work, List.length_nil]
      omega
    | decision commit =>
      simp only [Cluster.work, Control.work, List.length_nil]
      omega
    | get rest => exact absurd rfl (orderly.inv.control.2.2.2.2.2 rest)
  | decided done =>
    simp only [Cluster.decideAll, orderly.inv.agreed trivial positive present done, if_true, Cluster.work,
      Control.work, List.length_range]
    omega
  | @finish t phase w vaild links done voted =>
    obtain ⟨r, _, of⟩ := orderly.txn t rfl
    cases phase with
    | prepare => exact absurd rfl voted
    | decision commit =>
      obtain rfl : commit = true := orderly.forward
      rw [(orderly.answerWrite positive done of).1]
      simp only [Cluster.work, Control.work]
      omega
    | get todo =>
      obtain ⟨answered, _⟩ := orderly.answerGet done of plain
      simp only [Cluster.finishAll, answered, Int.zero_lt_one, if_true, Cluster.work, Cluster.answer, Control.work]
      omega
  | exhausted => exact absurd rfl orderly.forward

theorem Wait.recordPrepared_waited {data : Str} (recorded : w.recordPrepared i data = some w') :
    ∀ j, w'.waitedFor j = Function.update w.waitedFor i false j := by
  simp only [Wait.recordPrepared, Option.bind_eq_bind, Option.bind_eq_some_iff, Option.some.injEq] at recorded
  obtain ⟨_, _, rfl⟩ := recorded
  intro j
  by_cases same : j = i
  · simp [same, Wait.waitedFor]
  · simp [same, Wait.waitedFor]

theorem Wait.recordDone_waited {data : Str} (recorded : w.recordDone i data = some w') :
    ∀ j, w'.waitedFor j = Function.update w.waitedFor i false j := by
  simp only [Wait.recordDone, Option.bind_eq_bind, Option.bind_eq_some_iff, Option.some.injEq] at recorded
  obtain ⟨_, _, rfl⟩ := recorded
  intro j
  by_cases same : j = i
  · simp [same, Wait.waitedFor]
  · simp [same, Wait.waitedFor]

theorem reply_lowers (orderly : Orderly n db c) (free : FailureFree n c (.reply k))
    (step : next n c (.reply k) = some c') : c'.work n < c.work n := by
  cases next_branch step with
  | @prepared t w _ vaild links i ready _ queue some recorded =>
    obtain ⟨descriptor, socket, bound, _⟩ := orderly.inv.control.waits.head queue
    have waited : w.waitedFor i = true := by simp [Wait.waitedFor, descriptor, socket]
    have delivers : Cluster.Delivers ⟨.wait t .prepare w, vaild, links⟩ k := free
    simp only [Cluster.Delivers, queue] at delivers
    obtain ⟨exact, _⟩ := delivers
    have take := ((orderly.links i bound).take exact some).2
    have lower := Wait.work_taken waited bound queue
      (Wait.recordPrepared_waited (w := { w with ready := ready }) recorded)
    refine Cluster.work_lt bound rfl ?_
    simp only [Link.work, Control.work] at take ⊢
    omega
  | @done t phase w _ vaild links i ready _ voted queue some recorded =>
    obtain ⟨descriptor, socket, bound, _⟩ := orderly.inv.control.waits.head queue
    have waited : w.waitedFor i = true := by simp [Wait.waitedFor, descriptor, socket]
    have filled : (links i).inbox ≠ [] := orderly.readable t phase w rfl i (by simp [queue])
    have lower := Wait.work_taken waited bound queue
      (Wait.recordDone_waited (w := { w with ready := ready }) recorded)
    refine Cluster.work_lt bound rfl (Nat.add_lt_add_of_lt_of_le ?_ (Link.close_work filled))
    cases phase with
    | prepare => exact absurd rfl voted
    | decision commit =>
      simp only [Control.work]
      omega
    | get todo =>
      simp only [Control.work]
      omega

theorem read_lowers (orderly : Orderly n db c) (free : FailureFree n c (.read i k))
    (step : next n c (.read i k) = some c') : c'.work n < c.work n := by
  obtain ⟨l', turn, rfl⟩ := Option.map_eq_some_iff.mp step
  have bound : i < n := free.1
  have lower := Link.read_work (orderly.links i bound) free.2.1 (orderly.served bound) turn
  exact Cluster.work_lt bound rfl (Nat.add_lt_add_left lower _)

theorem eof_lowers (orderly : Orderly n db c) (free : FailureFree n c (.eof i))
    (step : next n c (.eof i) = some c') : c'.work n < c.work n := by
  obtain ⟨l', ended, rfl⟩ := Option.map_eq_some_iff.mp step
  have bound : i < n := free
  obtain ⟨_, inbox, current, closed⟩ := (orderly.links i bound).eof ended
  have lower : l'.work + 1 = (c.links i).work := by
    simp only [Link.work, inbox, current, closed, List.length_cons]
    omega
  exact Cluster.work_lt bound rfl (Nat.add_lt_add_left (by omega) _)

theorem Orderly.lowers (orderly : Orderly n db c) (positive : 0 < n) (plain : PlainStore db) {event : Event}
    (free : FailureFree n c event) (notRequest : event.isRequest = false)
    (step : next n c event = some c') : c'.work n < c.work n := by
  cases event with
  | request => cases notRequest
  | connect ok => exact connect_lowers orderly free step
  | send => exact send_lowers orderly step
  | select ready => exact select_lowers step
  | reply k => exact reply_lowers orderly free step
  | read i k => exact read_lowers orderly free step
  | eof i => exact eof_lowers orderly free step
  | proceed => exact proceed_lowers orderly positive plain step
  | timeout => exact absurd free id
  | hangup => exact absurd free id
  | lose => exact absurd free id
  | stop => exact absurd free id
  | kill => exact absurd free id

end work

/-! Sessions. -/

def Request.AllUnfilled (db : Db) : List (Request × Int) → Prop
  | [] => True
  | request :: requests => request.1.Unfilled db request.2 ∧ AllUnfilled (request.1.apply db) requests

def Request.decidableAllUnfilled : (db : Db) → (requests : List (Request × Int)) →
    Decidable (Request.AllUnfilled db requests)
  | _, [] => isTrue trivial
  | db, request :: requests =>
    letI := Request.decidableAllUnfilled (request.1.apply db) requests
    inferInstanceAs (Decidable (request.1.Unfilled db request.2 ∧ AllUnfilled (request.1.apply db) requests))

instance (db : Db) (requests : List (Request × Int)) : Decidable (Request.AllUnfilled db requests) :=
  Request.decidableAllUnfilled db requests

theorem Request.allUnfilled_append {db : Db} {first second : List (Request × Int)} :
    Request.AllUnfilled db (first ++ second) ↔
      Request.AllUnfilled db first ∧ Request.AllUnfilled (Request.store db (first.map Prod.fst)) second := by
  induction first generalizing db with
  | nil => simp [Request.AllUnfilled, Request.store]
  | cons request first ih =>
    rw [List.cons_append, Request.AllUnfilled, Request.AllUnfilled, ih, and_assoc]
    rfl

theorem Request.AllUnfilled.next {answered waiting : List (Request × Int)} {r : Request} {id : Int}
    (unfilled : Request.AllUnfilled (fun _ => none) (answered ++ (r, id) :: waiting)) :
    r.Unfilled (Session.store answered) id :=
  (Request.allUnfilled_append.mp unfilled).2.1

def Session.work (n : Nat) (s : Session) : Nat := s.cluster.work n + s.waiting.length * (13 * n + 8)

/-- Every run ends, its replies are at every point the first ones of the map, and in the end
all of them. -/
def Session.Refines (n : Nat) (requests : List (Request × Int)) : Prop :=
  ∃ bound, ∀ events s, Run (Session.Step n) (Session.init requests) events s →
    events.length ≤ bound ∧ s.replies <+: Session.mapReplies requests ∧
      ((∀ event s', ¬ Session.Step n s event s') → s.replies = Session.mapReplies requests)

section session
variable {n : Nat} {requests answered : List (Request × Int)} {s s' : Session} {c c' : Cluster} {event : Event}

theorem request_work {data : Str} {id : Int} (step : next n c (.request data id) = some c') :
    c'.work n ≤ c.work n + (13 * n + 7) := by
  cases next_branch step with
  | refused =>
    simp only [Cluster.work, Control.work]
    exact Nat.le_add_right _ _
  | get =>
    simp only [Cluster.work, Control.work, List.length_range]
    have same (l : Link) : l.clear.work = l.work := rfl
    simp only [same]
    omega
  | write =>
    simp only [Cluster.work, Control.work, List.length_range]
    have same (l : Link) : l.clear.work = l.work := rfl
    simp only [same]
    omega

theorem Session.Sequential.lowers (sequential : s.Sequential n requests answered) (positive : 0 < n)
    (step : Session.Step n s event s') : s'.work n < s.work n := by
  cases step with
  | request queue _ step =>
    have taken := request_work step
    simp only [Session.work, queue, List.length_cons, Nat.succ_mul]
    omega
  | other notRequest free step =>
    have lower := sequential.orderly.lowers positive sequential.plain free notRequest step
    simp only [Session.work]
    omega

theorem Session.run_le (positive : 0 < n) (valid : Session.Valid requests) {events : List Event}
    (run : Run (Session.Step n) (Session.init requests) events s) :
    events.length ≤ (Session.init requests).work n := by
  have bounded := run.length_le (fun s => ∃ answered, s.Sequential n requests answered) (fun s => s.work n)
    (fun s event s' ⟨_, sequential⟩ step =>
      ⟨sequential.step positive step, sequential.lowers positive step⟩) ⟨_, .init n valid⟩
  exact Nat.le_of_add_right_le bounded.2

theorem takes_request {r : Request} (valid : r.Valid) {id : Int} (range : 0 ≤ id ∧ id ≤ 9999)
    (idle : c.control.txn = none) : (next n c (.request r.encode id)).isSome := by
  obtain ⟨control, vaild, links⟩ := c
  cases control with
  | idle last =>
    simp only [next, if_pos range, Cluster.handleConnection, parseClientMsg_encode valid, Option.bind_eq_bind,
      Option.bind_some, Bool.true_eq_false, if_false]
    split <;> rfl
  | connectAll => cases idle
  | sendAll => cases idle
  | wait => cases idle
  | getNext => cases idle

theorem Session.Sequential.goesOn (sequential : s.Sequential n requests answered)
    (unfilled : Request.AllUnfilled (fun _ => none) requests) (more : answered ≠ requests) :
    ∃ event s', Session.Step n s event s' := by
  cases txn : s.cluster.control.txn with
  | none =>
    have split := sequential.idle txn
    cases queue : s.waiting with
    | nil =>
      rw [queue, List.append_nil] at split
      exact absurd split.symm more
    | cons request waiting =>
      rw [queue] at split
      obtain ⟨r, id⟩ := request
      obtain ⟨valid, range⟩ := sequential.valid (r, id) (by simp [split])
      obtain ⟨c, step⟩ := Option.isSome_iff_exists.mp (takes_request (n := n) valid range txn)
      rw [split] at unfilled
      exact ⟨_, _, .request queue (Coordinator.receives_iff.mpr unfilled.next.1) step⟩
  | some t =>
    obtain ⟨r, split, of⟩ := sequential.busy t txn
    rw [split] at unfilled
    obtain ⟨event, notRequest, free, able⟩ := sequential.orderly.enabled sequential.plain txn of unfilled.next
    obtain ⟨c, step⟩ := Option.isSome_iff_exists.mp able
    exact ⟨event, _, .other notRequest free step⟩

theorem Session.mapReplies_begin (sequential : s.Sequential n requests answered) :
    s.replies <+: Session.mapReplies requests := by
  obtain ⟨rest, rfl⟩ := sequential.begins
  rw [sequential.replies, Session.mapReplies, Session.mapReplies, List.map_append, Request.replies_append]
  exact List.prefix_append _ _

/-- Without full reads the replies are those of the map. -/
theorem Session.refines_of_unfilled (positive : 0 < n) (valid : Session.Valid requests)
    (unfilled : Request.AllUnfilled (fun _ => none) requests) : Session.Refines n requests := by
  refine ⟨(Session.init requests).work n, ?_⟩
  intro events s run
  obtain ⟨answered, sequential⟩ := Session.sequential positive valid run
  refine ⟨Session.run_le positive valid run, Session.mapReplies_begin sequential, ?_⟩
  intro final
  have all : answered = requests := by
    by_contra more
    obtain ⟨event, s', step⟩ := sequential.goesOn unfilled more
    exact final event s' step
  rw [← all]
  exact sequential.replies

end session

end CloudLab.TwoPC
