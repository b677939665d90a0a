import CloudLab.TwoPC.Refinement
import CloudLab.TwoPC.Reply

/-! Participants that are killed and started again with an empty store, and what the clients
are told as long as one participant is never given up. -/

namespace CloudLab.TwoPC
open Text ByteStream Tally

/-! What the clients are promised: the answers of one map. -/

def mapApply (db : Db) : List Str → Db
  | command :: key :: rest =>
      if command = SET then
        match rest with
        | [] => db
        | value :: _ => Function.update db key (some value)
      else if command = DEL then fun k => if k ∈ key :: rest then none else db k
      else db
  | _ => db

/-- The map after the requests answered so far; an error acknowledges nothing. -/
def clientMap (answered : List (Txn × Str)) : Db :=
  answered.foldl (fun db (t, reply) => if reply = getClientERRORMsg then db else mapApply db t.split_message)
    fun _ => none

structure MapReply (db : Db) (split_message : List Str) (reply : Str) : Prop where
  get : ∀ key rest, split_message = GET :: key :: rest →
    reply = respArray (match db key with | none => [NIL] | some value => words value)
  del : ∀ key rest, split_message = DEL :: key :: rest →
    reply = ':' :: decimal ((key :: rest).toFinset.filter fun k => (db k).isSome).card ++ crlf

/-- Each answer is that of the map after the answers before it. -/
inductive AnswersOfMap : List (Txn × Str) → Prop
  | nil : AnswersOfMap []
  | snoc {answered : List (Txn × Str)} {t : Txn} {reply : Str} : AnswersOfMap answered →
      MapReply (clientMap answered) t.split_message reply → AnswersOfMap (answered ++ [(t, reply)])

theorem mapApply_eq (t : Txn) (db : Db) : t.apply db = mapApply db t.split_message := by
  unfold Txn.apply Txn.op mapApply
  cases t.split_message with
  | nil => rfl
  | cons command fields =>
    cases fields with
    | nil => rfl
    | cons key rest =>
      by_cases del : command = DEL
      · subst del
        simp only [if_true, if_neg SET_ne_DEL.symm]
        exact eraseAll_eq db (key :: rest)
      · by_cases set : command = SET
        · subst set
          simp only [if_neg SET_ne_DEL, if_true]
          cases rest <;> rfl
        · simp only [if_neg del, if_neg set]

theorem clientMap_snoc (answered : List (Txn × Str)) (t : Txn) {reply : Str} (ok : reply ≠ getClientERRORMsg) :
    clientMap (answered ++ [(t, reply)]) = t.apply (clientMap answered) := by
  rw [mapApply_eq, clientMap, List.foldl_append]
  exact if_neg ok

theorem clientMap_get (answered : List (Txn × Str)) {t : Txn} {key : Str} {rest : List Str}
    (reads : t.split_message = GET :: key :: rest) (reply : Str) :
    clientMap (answered ++ [(t, reply)]) = clientMap answered := by
  rw [clientMap, List.foldl_append, ← clientMap]
  simp only [List.foldl_cons, List.foldl_nil, reads, mapApply, if_neg GET_ne_SET, if_neg GET_ne_DEL, ite_self]

/-! The cluster, whose participants come back. -/

/-- The process of a participant is started again: empty, in phase 1, without connections. -/
def Link.revive (l : Link) : Link :=
  { l with running := true, site := { process := Participant.init, commits := [] }, closed := [], current := none }

inductive Happening where
  | step (event : Event)
  | revive (i : Nat)
  deriving DecidableEq

structure History where
  cluster : Cluster
  answered : List (Txn × Str)

def Cluster.concludes (before after : Cluster) : List (Txn × Str) :=
  match before.control.txn, after.control with
  | some _, .idle (some answer) => [answer]
  | _, _ => []

namespace History

def init : History := { cluster := Cluster.init, answered := [] }

def next (n : Nat) (s : History) : Happening → Option History
  | .step event => (TwoPC.next n s.cluster event).map fun c =>
      { cluster := c, answered := s.answered ++ s.cluster.concludes c }
  | .revive i =>
      if (s.cluster.links i).running then none
      else some { s with cluster := s.cluster.setLink i (s.cluster.links i).revive }

end History

def Event.setsEmpty : Event → Bool
  | .request data _ =>
      match parseClientMsg data with
      | some (true, [command, _, value]) => decide (command = SET ∧ value = [])
      | _ => false
  | _ => false

/-- Messages are read one by one, the coordinator stays, and no empty value is stored. -/
def Plainly (n : Nat) (c : Cluster) (event : Event) : Prop :=
  event ≠ .kill ∧ AnswersApart c event ∧ OneByOne n c event ∧ event.setsEmpty = false

instance (n : Nat) (c : Cluster) (event : Event) : Decidable (Plainly n c event) :=
  inferInstanceAs (Decidable (_ ∧ _ ∧ _ ∧ _))

/-- A participant comes back only after the coordinator has given it up. -/
def Noticed (n : Nat) (c : Cluster) : Happening → Prop
  | .step event => Plainly n c event
  | .revive i => c.vaild i = false

instance (n : Nat) (c : Cluster) : (happening : Happening) → Decidable (Noticed n c happening)
  | .step event => inferInstanceAs (Decidable (Plainly n c event))
  | .revive i => inferInstanceAs (Decidable (c.vaild i = false))

section onward
variable {n a : Nat} {db : Db} {c c' : Cluster} {event : Event}

def Control.Onward (a : Nat) : Control → Prop
  | .getNext _ todo => a ∈ todo
  | .wait _ (.get todo) w => w.count = 0 → a ∈ todo ∨ w.participantSocket a = true
  | .wait _ (.decision commit) _ => commit = true
  | .sendAll _ (.decision commit) _ _ _ => commit = true
  | _ => True

structure Stays (a : Nat) (c c' : Cluster) : Prop where
  txn : c'.control.txn = c.control.txn
  busy : c.control.txn.isSome
  vaild : c'.vaild a = true → c.vaild a = true
  onward : c'.vaild a = true → c.control.Onward a → c'.control.Onward a

theorem mem_of_ne {i : Nat} {todo : List Nat} (other : a ≠ i) (member : a ∈ i :: todo) : a ∈ todo :=
  (List.mem_cons.mp member).resolve_left other

theorem Stays.connect {ok : Bool} (step : next n c (.connect ok) = some c') : Stays a c c' := by
  cases next_branch step with
  | connectGone => exact ⟨rfl, rfl, id, fun _ _ => trivial⟩
  | connected => exact ⟨rfl, rfl, id, fun _ _ => trivial⟩
  | connectFailed => exact ⟨rfl, rfl, fun alive => (of_update_false alive).2, fun _ _ => trivial⟩
  | getGone gone =>
    refine ⟨rfl, rfl, id, fun alive member => mem_of_ne ?_ member⟩
    rintro rfl
    exact Bool.false_ne_true (gone.symm.trans alive)
  | asked =>
    refine ⟨rfl, rfl, id, fun _ member _ => ?_⟩
    rcases List.mem_cons.mp member with here | later
    · exact Or.inr (decide_eq_true here)
    · exact Or.inl later
  | getFailed =>
    exact ⟨rfl, rfl, fun alive => (of_update_false alive).2,
      fun alive member => mem_of_ne (of_update_false alive).1 member⟩

theorem Stays.send (step : next n c .send = some c') : Stays a c c' := by
  cases next_branch step with
  | @send t phase =>
    refine ⟨rfl, rfl, id, fun _ onward => ?_⟩
    cases phase <;> exact onward

theorem Stays.select {ready : List Nat} (step : next n c (.select ready) = some c') : Stays a c c' := by
  cases next_branch step with
  | @select t phase =>
    refine ⟨rfl, rfl, id, fun _ onward => ?_⟩
    cases phase <;> exact onward

theorem Stays.timeout (step : next n c .timeout = some c') : Stays a c c' := by
  cases next_branch step with
  | @giveUp t phase =>
    refine ⟨rfl, rfl, fun alive => ((Bool.and_eq_true _ _).mp alive).1, fun alive onward => ?_⟩
    have kept := ((Bool.and_eq_true _ _).mp alive).2
    cases phase with
    | prepare => trivial
    | decision => exact onward
    | get todo =>
      intro none
      exact (onward none).imp_right fun socket => (Bool.and_eq_true _ _).mpr ⟨socket, kept⟩
  | @resend t phase =>
    refine ⟨rfl, rfl, id, fun _ onward => ?_⟩
    cases phase <;> exact onward

theorem Stays.hangup {ok : Bool} (step : next n c (.hangup ok) = some c') : Stays a c c' := by
  cases next_branch step with
  | @reconnected t phase =>
    refine ⟨rfl, rfl, id, fun _ onward => ?_⟩
    cases phase <;> exact onward
  | @removed t phase =>
    refine ⟨rfl, rfl, fun alive => (of_update_false alive).2, fun alive onward => ?_⟩
    have other := (of_update_false alive).1
    cases phase with
    | prepare => trivial
    | decision => exact onward
    | get todo =>
      intro none
      exact (onward none).imp_right fun socket => (Function.update_of_ne other _ _).trans socket

theorem Stays.reply {mode : Mode} (inv : Inv mode n db c) {k : Nat} (step : next n c (.reply k) = some c') :
    Stays a c c' := by
  cases next_branch step with
  | prepared => exact ⟨rfl, rfl, id, fun _ _ => trivial⟩
  | @done t phase w w' _ _ _ _ _ voted _ _ recorded =>
    refine ⟨rfl, rfl, id, fun _ onward => ?_⟩
    cases phase with
    | prepare => trivial
    | decision commit => exact onward
    | get todo =>
      -- the reply is counted, and it asks nothing of the others
      obtain ⟨_, _, known, _⟩ := inv.control
      have counted : w'.count = w.count + 1 := by
        obtain ⟨parsed, _, same⟩ := Option.bind_eq_some_iff.mp recorded
        cases same
        rfl
      intro none
      have positive := known.positive
      omega

/-! Nobody is given up at the end of a loop. -/

theorem vaild_decideAll {t : Txn} {w : Wait} : (Cluster.decideAll n c t w).vaild = c.vaild := by
  unfold Cluster.decideAll
  split
  · rfl
  · split <;> rfl

theorem vaild_finishAll {t : Txn} {phase : Phase} {w : Wait} : (Cluster.finishAll c t phase w).vaild = c.vaild := by
  unfold Cluster.finishAll
  split
  · split <;> rfl
  · split <;> rfl
  · rfl

theorem vaild_kept (alive : event ≠ .kill) (step : next n c event = some c') (present : c'.vaild a = true) :
    c.vaild a = true := by
  cases next_branch step with
  | connectFailed => exact (of_update_false present).2
  | getFailed => exact (of_update_false present).2
  | removed => exact (of_update_false present).2
  | giveUp => exact ((Bool.and_eq_true _ _).mp present).1
  | decided => exact vaild_decideAll (n := n) ▸ present
  | finish => exact vaild_finishAll ▸ present
  | kill => exact absurd rfl alive
  | _ => exact present

end onward

/-! As long as a participant is left, the answers are those of the map. -/

theorem Cluster.concludes_busy {before after : Cluster} (busy : after.control.txn.isSome) :
    before.concludes after = [] := by
  unfold Cluster.concludes
  split
  · next control => simp [control, Control.txn] at busy
  · rfl

theorem Cluster.concludes_idle {before after : Cluster} (idle : before.control.txn = none) :
    before.concludes after = [] := by
  unfold Cluster.concludes
  rw [idle]

theorem PlainStore.commit {db : Db} {t : Txn} {op : Op} (plain : PlainStore db) (valid : t.Valid)
    (filled : ∀ key, t.split_message ≠ [SET, key, []]) (fields : t.split_message = op.fields) :
    PlainStore (t.apply db) := by
  rw [Txn.apply_eq fields]
  intro k stored found
  cases op with
  | set key value =>
    simp only [Op.apply] at found
    by_cases here : k = key
    · subst here
      rw [Function.update_self, Option.some.injEq] at found
      subst found
      refine ⟨fun empty => filled k ?_, valid.lines _ (by simp [fields, Op.fields])⟩
      rw [fields, Op.fields, empty]
    · rw [Function.update_of_ne here] at found
      exact plain k stored found
  | del key keys =>
    simp only [Op.apply, eraseAll_eq] at found
    split at found
    · cases found
    · exact plain k stored found

/-- The participants that are left hold the clients' map, and every answer was the map's. -/
structure Faithful (n : Nat) (s : History) : Prop where
  inv : Inv .late n (clientMap s.answered) s.cluster
  plain : PlainStore (clientMap s.answered)
  filled : ∀ t, s.cluster.control.txn = some t → ∀ key, t.split_message ≠ [SET, key, []]
  onward : ∀ a < n, s.cluster.vaild a = true → s.cluster.control.Onward a
  answers : AnswersOfMap s.answered

section faithful
variable {n a : Nat} {s t : History} {c : Cluster} {event : Event} {happening : Happening}

theorem Faithful.stays (faithful : Faithful n s) (inv : Inv .late n (clientMap s.answered) c) (bound : a < n)
    (stays : ∀ b < n, Stays b s.cluster c) : Faithful n ⟨c, s.answered ++ s.cluster.concludes c⟩ := by
  have txn := (stays a bound).txn
  have silent : s.cluster.concludes c = [] := Cluster.concludes_busy (by rw [txn]; exact (stays a bound).busy)
  rw [silent, List.append_nil]
  refine ⟨inv, faithful.plain, fun t busy => faithful.filled t (txn ▸ busy), ?_, faithful.answers⟩
  intro b bound present
  exact (stays b bound).onward present (faithful.onward b bound ((stays b bound).vaild present))

theorem Faithful.apart (faithful : Faithful n s) {i : Nat} {l : Link}
    (inv : Inv .late n (clientMap s.answered) (s.cluster.setLink i l)) :
    Faithful n ⟨s.cluster.setLink i l, s.answered ++ s.cluster.concludes (s.cluster.setLink i l)⟩ := by
  have silent : s.cluster.concludes (s.cluster.setLink i l) = [] := by
    cases txn : s.cluster.control.txn with
    | none => exact Cluster.concludes_idle txn
    | some t => exact Cluster.concludes_busy (by rw [Cluster.setLink_control, txn]; rfl)
  rw [silent, List.append_nil]
  exact ⟨inv, faithful.plain, faithful.filled, faithful.onward, faithful.answers⟩

theorem Faithful.request (faithful : Faithful n s) {data : Str} {id : Int}
    (inv : Inv .late n (clientMap s.answered) c) (filled : (Event.request data id).setsEmpty = false)
    (step : next n s.cluster (.request data id) = some c) :
    Faithful n ⟨c, s.answered ++ s.cluster.concludes c⟩ := by
  -- the fields are those of the request, which sets nothing to the empty value
  have kept : ∀ {fields : List Str}, parseClientMsg data = some (true, fields) → ∀ t : Txn,
      some { id := id, split_message := fields } = some t → ∀ key, t.split_message ≠ [SET, key, []] := by
    rintro fields parsed t same key empty
    cases same
    simp only at empty
    rw [empty] at parsed
    simp [Event.setsEmpty, parsed] at filled
  obtain ⟨cluster, answered⟩ := s
  cases next_branch step with
  | refused =>
    rw [Cluster.concludes_idle rfl, List.append_nil]
    exact ⟨inv, faithful.plain, fun _ busy => (nomatch busy), fun _ _ _ => trivial, faithful.answers⟩
  | get _ parsed =>
    rw [Cluster.concludes_idle rfl, List.append_nil]
    exact ⟨inv, faithful.plain, kept parsed, fun _ bound _ => List.mem_range.mpr bound, faithful.answers⟩
  | write _ parsed =>
    rw [Cluster.concludes_idle rfl, List.append_nil]
    exact ⟨inv, faithful.plain, kept parsed, fun _ _ _ => trivial, faithful.answers⟩

theorem Faithful.concluded (faithful : Faithful n s) {txn : Txn} {reply : Str}
    (busy : s.cluster.control.txn = some txn) (answered : c.control = .idle (some (txn, reply)))
    (inv : Inv .late n (clientMap (s.answered ++ [(txn, reply)])) c)
    (plain : PlainStore (clientMap (s.answered ++ [(txn, reply)])))
    (maps : MapReply (clientMap s.answered) txn.split_message reply) :
    Faithful n ⟨c, s.answered ++ s.cluster.concludes c⟩ := by
  have concludes : s.cluster.concludes c = [(txn, reply)] := by
    unfold Cluster.concludes
    rw [busy, answered]
  rw [concludes]
  refine ⟨inv, plain, ?_, ?_, faithful.answers.snoc maps⟩
  · intro t busy
    simp [answered, Control.txn] at busy
  · intro a _ _
    rw [answered]
    trivial

theorem Faithful.answerGet {txn : Txn} {todo : List Nat} {w : Wait} {vaild : Nat → Bool} {links : Nat → Link}
    {answered : List (Txn × Str)} (faithful : Faithful n ⟨⟨.wait txn (.get todo) w, vaild, links⟩, answered⟩)
    (counted : w.count ≠ 0) (reads : txn.Reads) :
    ∃ reply, Cluster.finishAll ⟨.wait txn (.get todo) w, vaild, links⟩ txn (.get todo) w =
        ⟨.idle (some (txn, reply)), vaild, links⟩ ∧ MapReply (clientMap answered) txn.split_message reply := by
  obtain ⟨key, rest, reads⟩ := reads
  obtain ⟨yes, text⟩ := faithful.inv.answerGet trivial id counted faithful.plain reads
  refine ⟨getClientGetOrDelMsg txn.id w.response_split_msg, ?_, ?_, ?_⟩
  · simp only [Cluster.finishAll, yes, Int.zero_lt_one, if_true, Cluster.answer]
  · intro key' rest' same
    rw [reads] at same
    cases same
    exact text
  · intro key' rest' same
    rw [reads] at same
    exact absurd (List.cons.inj same).1 GET_ne_DEL

theorem Faithful.answerWrite {txn : Txn} {w : Wait} {vaild : Nat → Bool} {links : Nat → Link}
    {answered : List (Txn × Str)} (faithful : Faithful n ⟨⟨.wait txn (.decision true) w, vaild, links⟩, answered⟩)
    (counted : w.count ≠ 0) (valid : txn.Valid) :
    ∃ reply, Cluster.finishAll ⟨.wait txn (.decision true) w, vaild, links⟩ txn (.decision true) w =
        ⟨.idle (some (txn, reply)), vaild, links⟩ ∧ MapReply (clientMap answered) txn.split_message reply ∧
      clientMap (answered ++ [(txn, reply)]) = txn.apply (clientMap answered) ∧
      PlainStore (txn.apply (clientMap answered)) := by
  obtain ⟨op, fields, answer⟩ := faithful.inv.answerWrite trivial counted
  refine ⟨_, answer, ?_, clientMap_snoc answered txn ?_, faithful.plain.commit valid (faithful.filled txn rfl) fields⟩
  · constructor
    · intro key rest same
      rw [fields] at same
      cases op with
      | set => exact absurd (List.cons.inj same).1 SET_ne_GET
      | del => exact absurd (List.cons.inj same).1 DEL_ne_GET
    · intro key rest same
      rw [fields] at same
      cases op with
      | set => exact absurd (List.cons.inj same).1 SET_ne_DEL
      | del =>
        cases same
        rw [Op.reply, countDeleted_eq]
  · cases op with
    | set => exact (by decide : getClientOKMsg ≠ getClientERRORMsg)
    | del key keys =>
      intro equal
      have error : getClientERRORMsg.head? = some '-' := rfl
      rw [← equal, Op.reply, List.cons_append, List.head?_cons, Option.some.injEq] at error
      exact absurd error (by decide)

theorem Faithful.proceed (faithful : Faithful n s) (bound : a < n) (present : s.cluster.vaild a = true)
    (step : next n s.cluster .proceed = some c) : Faithful n ⟨c, s.answered ++ s.cluster.concludes c⟩ := by
  obtain ⟨cluster, answered⟩ := s
  have inv := faithful.inv.proceed step
  have onward := faithful.onward a bound present
  cases next_branch step with
  | nobody nobody => exact absurd nobody (faithful.inv.somebody bound present)
  | prepare => exact faithful.stays inv bound fun _ _ => ⟨rfl, rfl, id, fun _ _ => trivial⟩
  | @startWait t phase =>
    refine faithful.stays inv bound fun _ _ => ⟨rfl, rfl, id, fun _ here => ?_⟩
    cases phase with
    | prepare => trivial
    | decision => exact here
    | get => exact absurd rfl (faithful.inv.control.2.2.2.2.2 _)
  | decided done =>
    simp only [Cluster.decideAll, faithful.inv.agreed trivial bound present done, if_true] at inv ⊢
    exact faithful.stays inv bound fun _ _ => ⟨rfl, rfl, id, fun _ _ => rfl⟩
  | @finish t phase w vaild links done voted =>
    cases phase with
    | prepare => exact absurd rfl voted
    | decision commit =>
      obtain rfl : commit = true := onward
      have counted := faithful.inv.acknowledged bound present done
      obtain ⟨reply, answer, maps, store, plain⟩ := faithful.answerWrite counted faithful.inv.control.1
      rw [answer] at inv ⊢
      refine faithful.concluded rfl rfl ?_ ?_ maps
      · rw [store]
        exact inv
      · rw [store]
        exact plain
    | get todo =>
      obtain ⟨_, reads, known, _⟩ := faithful.inv.control
      by_cases counted : w.count = 0
      · have unanswered : ¬ 0 < w.commitResponse := by simp [Wait.commitResponse, counted]
        simp only [Cluster.finishAll, if_neg unanswered] at inv ⊢
        refine faithful.stays inv bound fun b small => ⟨rfl, rfl, id, fun _ here => ?_⟩
        -- everybody asked is gone, so `b` is still to come
        refine (here counted).resolve_right fun socket => ?_
        rw [known.settled done small] at socket
        cases socket
      · obtain ⟨reply, answer, maps⟩ := faithful.answerGet counted reads
        obtain ⟨key, rest, reads⟩ := reads
        rw [answer] at inv ⊢
        refine faithful.concluded rfl rfl ?_ ?_ maps
        · rw [clientMap_get answered reads]
          exact inv
        · rw [clientMap_get answered reads]
          exact faithful.plain
  | exhausted => cases onward

theorem Faithful.step (faithful : Faithful n s) (bound : a < n) (present : s.cluster.vaild a = true)
    (noticed : Noticed n s.cluster happening) (step : s.next n happening = some t) : Faithful n t := by
  cases happening with
  | revive i =>
    have gone : s.cluster.vaild i = false := noticed
    simp only [History.next] at step
    split at step
    · cases step
    · cases step
      have inv : Inv .late n (clientMap s.answered) (s.cluster.setLink i (s.cluster.links i).revive) := by
        refine faithful.inv.moves i fun _ vaild => ?_
        rw [gone] at vaild
        cases vaild
      exact ⟨inv, faithful.plain, faithful.filled, faithful.onward, faithful.answers⟩
  | step event =>
    obtain ⟨alive, apart, one, filled⟩ := noticed
    obtain ⟨c, moved, rfl⟩ := Option.map_eq_some_iff.mp step
    have inv := faithful.inv.step (apart.allowed one alive) alive moved
    cases event with
    | request data id => exact faithful.request inv filled moved
    | connect ok => exact faithful.stays inv bound fun _ _ => Stays.connect moved
    | send => exact faithful.stays inv bound fun _ _ => Stays.send moved
    | proceed => exact faithful.proceed bound present moved
    | select ready => exact faithful.stays inv bound fun _ _ => Stays.select moved
    | timeout => exact faithful.stays inv bound fun _ _ => Stays.timeout moved
    | reply k => exact faithful.stays inv bound fun _ _ => Stays.reply faithful.inv moved
    | hangup ok => exact faithful.stays inv bound fun _ _ => Stays.hangup moved
    | read i k =>
      obtain ⟨l', _, rfl⟩ := Option.map_eq_some_iff.mp moved
      exact faithful.apart inv
    | eof i =>
      obtain ⟨l', _, rfl⟩ := Option.map_eq_some_iff.mp moved
      exact faithful.apart inv
    | lose i k j =>
      cases moved
      exact faithful.apart inv
    | stop i =>
      cases moved
      exact faithful.apart inv
    | kill => exact absurd rfl alive

theorem Faithful.init (n : Nat) : Faithful n History.init where
  inv := Inv.init .late n
  plain := plainStore_empty
  filled := fun _ busy => nomatch busy
  onward := fun _ _ _ => trivial
  answers := .nil

theorem History.next_kept {db : Db} (inv : Inv .late n db s.cluster) (noticed : Noticed n s.cluster happening)
    (step : s.next n happening = some t) :
    (∃ db', Inv .late n db' t.cluster) ∧ (t.cluster.vaild a = true → s.cluster.vaild a = true) := by
  cases happening with
  | revive i =>
    have gone : s.cluster.vaild i = false := noticed
    simp only [History.next] at step
    split at step
    · cases step
    · cases step
      refine ⟨⟨db, inv.moves i fun _ vaild => ?_⟩, id⟩
      rw [gone] at vaild
      cases vaild
  | step event =>
    obtain ⟨alive, apart, one, _⟩ := noticed
    obtain ⟨c, moved, rfl⟩ := Option.map_eq_some_iff.mp step
    exact ⟨⟨_, inv.step (apart.allowed one alive) alive moved⟩, vaild_kept alive moved⟩

/-- As long as somebody is left, the run has been faithful. -/
theorem Faithful.run {happenings : List Happening}
    (run : Run (fun s happening t => s.next n happening = some t ∧ Noticed n s.cluster happening)
      History.init happenings s) :
    (∃ db, Inv .late n db s.cluster) ∧ (∀ a < n, s.cluster.vaild a = true → Faithful n s) := by
  refine run.invariant (fun s => (∃ db, Inv .late n db s.cluster) ∧
    ∀ a < n, s.cluster.vaild a = true → Faithful n s) ?_ ⟨⟨_, Inv.init .late n⟩, fun _ _ _ => Faithful.init n⟩
  rintro s happening t ⟨⟨db, inv⟩, faithful⟩ ⟨step, noticed⟩
  refine ⟨(History.next_kept (a := 0) inv noticed step).1, fun a bound left => ?_⟩
  have present := (History.next_kept inv noticed step).2 left
  exact (faithful a bound present).step bound present noticed step

end faithful

/-- While a participant is left that has never been given up, and every other one comes back
only after it has been given up, each GET and DEL is answered as one map would. -/
theorem answers_of_map (n : Nat) {happenings : List Happening} {s : History}
    (run : Run (fun s happening t => s.next n happening = some t ∧ Noticed n s.cluster happening)
      History.init happenings s)
    {a : Nat} (bound : a < n) (left : s.cluster.vaild a = true) : AnswersOfMap s.answered :=
  ((Faithful.run run).2 a bound left).answers

def getWord : Txn := { id := 1, split_message := [GET, DEL] }

def setAndStop : List Happening :=
  (wholeTransaction 2 setWord (getClusterDoneMsg 0 SET [])).map .step ++ [.step (.stop 0)]

def askedOf (i : Nat) (reply : Str) : List Happening :=
  [.step (.connect true), .step (.read i (requestMsg getWord).length), .step (.select [i]),
    .step (.reply reply.length), .step .proceed]

theorem answers_of_map_get : ∃ s : History,
    s.answered = [(setWord, getClientOKMsg), (getWord, respArray ["1".toList])] ∧ AnswersOfMap s.answered := by
  have result : (execute (fun s happening => if Noticed 2 s.cluster happening then s.next 2 happening else none)
      History.init (setAndStop ++ [.step (.request (respArray getWord.split_message) 1), .step (.connect false),
        .revive 0] ++ askedOf 1 (getClusterDoneMsg 1 GET "1".toList))).any (fun s =>
          decide (s.answered = [(setWord, getClientOKMsg), (getWord, respArray ["1".toList])] ∧
            s.cluster.vaild 1 = true)) = true := by
    decide +kernel
  obtain ⟨s, result, facts⟩ := (Option.any_eq_true _ _).mp result
  obtain ⟨answered, left⟩ := of_decide_eq_true facts
  exact ⟨s, answered, answers_of_map 2 (run_of_checked result) (by decide : 1 < 2) left⟩

theorem AnswersOfMap.last {answered : List (Txn × Str)} {t : Txn} {reply : Str}
    (answers : AnswersOfMap (answered ++ [(t, reply)])) : MapReply (clientMap answered) t.split_message reply := by
  generalize whole : answered ++ [(t, reply)] = all at answers
  cases answers with
  | nil => simp at whole
  | snoc _ maps =>
    obtain ⟨rfl, last⟩ := List.append_inj' whole rfl
    cases last
    exact maps

def Happening.hits (a : Nat) : Happening → Bool
  | .step (.stop i) | .step (.lose i _ _) | .revive i => decide (i = a)
  | _ => false

/-- A participant that is back before its absence is noticed is asked for a value, and has
lost it. -/
theorem answers_of_restarted : ¬ ∀ (n a : Nat) (happenings : List Happening) (s : History),
    Run (fun s happening t => s.next n happening = some t ∧
      ∀ event, happening = .step event → Plainly n s.cluster event) History.init happenings s →
    a < n → (∀ happening ∈ happenings, happening.hits a = false) → s.cluster.vaild a = true →
    AnswersOfMap s.answered := by
  intro claim
  let happenings : List Happening := setAndStop ++ [.revive 0, .step (.request (respArray getWord.split_message) 1)] ++
    askedOf 0 (getClusterDoneMsg 1 GET NIL)
  have result : (execute (fun s happening =>
        if (match happening with | .step event => decide (Plainly 2 s.cluster event) | .revive _ => true) then
          s.next 2 happening else none) History.init happenings).any (fun s =>
      decide (s.answered = [(setWord, getClientOKMsg), (getWord, respArray [NIL])] ∧ s.cluster.vaild 1 = true)) =
        true := by
    decide +kernel
  obtain ⟨s, result, facts⟩ := (Option.any_eq_true _ _).mp result
  obtain ⟨answered, left⟩ := of_decide_eq_true facts
  have run := (run_of_checked result).mono fun s happening t step =>
    (⟨step.1, fun event same => by subst same; exact of_decide_eq_true step.2⟩ :
      s.next 2 happening = some t ∧ ∀ event, happening = .step event → Plainly 2 s.cluster event)
  have answers := claim 2 1 happenings s run (by decide) (by decide) left
  rw [answered] at answers
  have maps := @AnswersOfMap.last [(setWord, getClientOKMsg)] getWord (respArray [NIL]) answers
  have value := maps.get DEL [] rfl
  revert value
  decide

end CloudLab.TwoPC
