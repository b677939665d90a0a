import CloudLab.TwoPC.Stage

/-! What the coordinator does to a link moves it from one stage to the next. -/

namespace CloudLab.TwoPC
open Text ByteStream

variable {mode : Mode} {db : Db} {t : Txn} {commit : Bool} {l l' : Link}

theorem Follows.change {S S' : Shape} (follows : Follows mode S l) (closed : l'.closed = l.closed)
    (site : l'.site = l.site) (said : S.said l.inbox → S'.said l'.inbox) (along : ∀ s, S.hold s → S'.hold s)
    (ahead : S.said l.inbox → ∀ s, S.ahead l s → S'.ahead l' s) : Follows mode S' l' := by
  refine ⟨said follows.1, ?_⟩
  rw [closed, site]
  exact follows.2.mono (fun s => Or.imp_right (along s)) fun s _ => ahead follows.1 s

def Quiet (mode : Mode) (db : Db) (l : Link) : Prop :=
  l.current = none ∧ Follows mode (apart (Settled mode.pend db)) l

theorem apart_ahead (Q : Site → Prop) (current : l.current = none) : (apart Q).ahead l = Q := by
  simp [Shape.ahead, current, apart]

def Waiting (mode : Mode) (db : Db) (t : Txn) (l : Link) : Prop :=
  l.current = none ∧ Follows mode (apart (Fresh mode.pend db t)) l

def Answered (t : Txn) (l : Link) : Prop :=
  (∃ seg ∈ l.inbox, seg.message ≠ preparedMsg t) → l.closed = [] ∧ l.current = none

def Finished (mode : Mode) (db : Db) (t : Txn) (commit : Bool) (l : Link) : Prop :=
  l.closed = [] ∧ l.current = none ∧ Decided mode.pend db t commit l.site

theorem not_prepared_of_not_all {inbox : List (Seg Char)} (not : ¬ AllPrepared t inbox) :
    ∃ seg ∈ inbox, seg.message ≠ preparedMsg t := by
  by_contra none
  apply not
  intro seg member
  by_contra other
  exact none ⟨seg, member, other⟩

/-! Nothing that happens to an unconnected link connects it. -/

theorem Link.read_none {k : Nat} (current : l.current = none) (step : l.read k = some l') :
    l.closed ≠ [] ∧ l'.current = none := by
  obtain ⟨positive, conn, turn⟩ := Link.read_turn step
  cases turn with
  | crash =>
    refine ⟨?_, rfl⟩
    intro closed
    simp [Link.read, closed, current] at step
  | closed conns handled site closed result kind =>
    refine ⟨by simp [closed], ?_⟩
    cases kind with
    | again => exact current
    | finish => exact current
    | shutdown _ same => rw [same, Link.stop]
  | current handled site closed here => simp [current] at here

theorem Link.eof_none (current : l.current = none) (step : l.eof = some l') :
    l.closed ≠ [] ∧ l'.current = none := by
  unfold Link.eof at step
  split at step
  · next closed =>
    cases step
    exact ⟨by simp [closed], current⟩
  · cases step

section events
variable {S : Shape}

/-- The events at a participant that the outlook has to survive. -/
inductive Link.Moves (mode : Mode) (l : Link) : Link → Prop
  | read (k : Nat) (l' : Link) : l.ReadsExactly k → (mode.calm → l'.running = true) →
      l.read k = some l' → Moves mode l l'
  | eof (l' : Link) : l.eof = some l' → Moves mode l l'
  | lose (k j : Nat) : ¬ mode.calm → Moves mode l (l.lose k j)
  | stop : ¬ mode.calm → Moves mode l l.stop

theorem Follows.moves (sound : S.Sound mode) (follows : Follows mode S l) (moves : l.Moves mode l') :
    Follows mode S l' := by
  cases moves with
  | read k _ exact lives step => exact follows.read sound exact lives step
  | eof _ step => exact follows.eof step
  | lose k j strict => exact follows.lose sound strict k j
  | stop strict => exact follows.stop sound strict

theorem Link.Moves.current_none (moves : l.Moves mode l') (current : l.current = none) :
    l'.current = none := by
  cases moves with
  | read k _ _ _ step => exact (Link.read_none current step).2
  | eof _ step => exact (Link.eof_none current step).2
  | lose => simp [Link.lose]
  | stop => rfl

theorem Link.Moves.still (moves : l.Moves mode l') (closed : l.closed = []) (current : l.current = none) :
    l'.closed = [] ∧ l'.current = none ∧ l'.site = l.site := by
  cases moves with
  | read k _ _ _ step => exact absurd closed (Link.read_none current step).1
  | eof _ step => exact absurd closed (Link.eof_none current step).1
  | lose k j => exact ⟨by simp [Link.lose, closed, current], rfl, rfl⟩
  | stop => exact ⟨by simp [Link.stop, closed, current], rfl, rfl⟩

theorem Quiet.moves (quiet : Quiet mode db l) (moves : l.Moves mode l') : Quiet mode db l' :=
  ⟨moves.current_none quiet.1, quiet.2.moves (apart_sound _) moves⟩

theorem Waiting.moves (waiting : Waiting mode db t l) (moves : l.Moves mode l') : Waiting mode db t l' :=
  ⟨moves.current_none waiting.1, waiting.2.moves (apart_sound _) moves⟩

theorem Finished.moves (finished : Finished mode db t commit l) (moves : l.Moves mode l') :
    Finished mode db t commit l' := by
  obtain ⟨closed, current, decided⟩ := finished
  obtain ⟨closed', current', site⟩ := moves.still closed current
  exact ⟨closed', current', by rw [site]; exact decided⟩

theorem Link.read_inbox {k : Nat} (step : l.read k = some l') :
    l'.inbox = l.inbox ∨ l'.closed = [] := by
  obtain ⟨_, conn, turn⟩ := Link.read_turn step
  cases turn with
  | crash => exact Or.inl rfl
  | closed conns handled site closed result kind =>
    cases kind with
    | again => exact Or.inl rfl
    | finish => exact Or.inl rfl
    | shutdown _ same => exact Or.inl (by rw [same, Link.stop])
  | current handled site closed current result kind =>
    cases kind with
    | again => exact Or.inr rfl
    | finish => exact Or.inr rfl
    | shutdown _ same => exact Or.inl (by rw [same, Link.stop])

theorem Link.eof_inbox (step : l.eof = some l') : l'.inbox = l.inbox := by
  unfold Link.eof at step
  split at step
  · cases step
    rfl
  · cases step

theorem Answered.moves (answered : Answered t l) (valid : t.Valid)
    (follows : Follows mode (decided mode db t commit) l) (moves : l.Moves mode l') : Answered t l' := by
  by_cases all : AllPrepared t l.inbox
  · have after := follows.moves (decided_sound valid) moves
    rintro ⟨seg, member, other⟩
    cases moves with
    | read k _ _ _ step =>
      rcases Link.read_inbox step with same | closed
      · exact absurd (all seg (same ▸ member)) other
      · cases current : l'.current with
        | none => exact ⟨closed, rfl⟩
        | some segs =>
          have cur : (decided mode db t commit).cur l'.inbox segs l'.site := by
            have through := after.2
            rw [closed] at through
            simpa [Shape.ahead, current] using through.2
          exact absurd (cur.1 seg member) other
    | eof _ step => exact absurd (all seg (Link.eof_inbox step ▸ member)) other
    | lose k j => exact absurd (all.keepBytes j seg member) other
    | stop => exact absurd (all seg member) other
  · obtain ⟨closed, current⟩ := answered (not_prepared_of_not_all all)
    obtain ⟨closed', current', _⟩ := moves.still closed current
    exact fun _ => ⟨closed', current'⟩

end events

/-! The coordinator's side. -/

section coordinator

theorem requestMsg_ne_nil (t : Txn) : requestMsg t ≠ [] := by
  rw [requestMsg, prepareRequest_wire]
  exact wire_ne_nil (by simp)

theorem decisionMsg_ne_nil (t : Txn) (commit : Bool) : decisionMsg t commit ≠ [] := by
  cases commit
  · rw [decisionMsg, if_neg (by decide), abort_wire]
    exact wire_ne_nil (by simp)
  · rw [decisionMsg, if_pos rfl, commit_wire]
    exact wire_ne_nil (by simp)

theorem Follows.send {S S' : Shape} (follows : Follows mode S l) {message : Str} (nonempty : message ≠ [])
    (said : S.said l.inbox → S'.said l.inbox) (along : ∀ s, S.hold s → S'.hold s)
    (served : S.said l.inbox → ∀ segs s, S.cur l.inbox segs s → S'.cur l.inbox (segs ++ [Seg.sent message]) s)
    (gone : S.said l.inbox → ∀ s, S.rest l.inbox s → S'.rest l.inbox s) : Follows mode S' (l.send message) := by
  refine follows.change rfl rfl said along ?_
  intro said s
  cases current : l.current with
  | none =>
    simp only [Shape.ahead, Link.send, current, Option.map_none]
    exact gone said s
  | some segs =>
    simp only [Shape.ahead, Link.send, current, Option.map_some, sendMessage, if_neg nonempty,
      List.map_cons, List.map_nil]
    exact served said segs s

theorem Follows.reconnect {S : Shape} (sound : S.Sound mode) (strict : ¬ mode.calm)
    (follows : Follows mode S l) {message : Str} (nonempty : message ≠ []) (said : S.said [])
    (served : ∀ s, S.rest l.inbox s → S.cur [] [Seg.sent message] s) :
    Follows mode S (l.close.connect.send message) := by
  have ahead : S.ahead (l.close.connect.send message) = S.cur [] [Seg.sent message] := by
    simp [Shape.ahead, Link.send, Link.connect, sendMessage, nonempty]
  refine ⟨said, ?_⟩
  rw [ahead]
  exact (follows.left (fun _ => id) (sound.closes strict l.inbox)).mono (fun _ => id) fun s _ => served s

theorem Waiting.connect (waiting : Waiting mode db t l) : Follows mode (unsent mode db t) l.connect := by
  obtain ⟨current, follows⟩ := waiting
  refine follows.change rfl rfl (fun _ => rfl) (fun _ => id) ?_
  intro _ s fresh
  rw [apart_ahead _ current] at fresh
  exact ⟨rfl, fresh⟩

theorem Follows.sendRequest (follows : Follows mode (unsent mode db t) l) :
    Follows mode (asked mode db t) (l.send (requestMsg t)) := by
  refine follows.send (requestMsg_ne_nil t) ?_ (fun _ => Or.inr) ?_ ?_
  · intro none
    have none : l.inbox = [] := none
    rw [none]
    exact ⟨fun _ member => absurd member (by simp), fun _ => by simp⟩
  · rintro none segs s ⟨rfl, fresh⟩
    have none : l.inbox = [] := none
    rw [none]
    exact ⟨by simp [AllRequests], Or.inr ⟨fresh, rfl, by simp⟩, fun _ => by simp⟩
  · rintro none s ⟨strict, fresh⟩
    exact ⟨strict, Or.inr ⟨fresh, none⟩⟩

theorem Follows.resendRequest (strict : ¬ mode.calm) (follows : Follows mode (asked mode db t) l) :
    Follows mode (asked mode db t) (l.send (requestMsg t)) := by
  refine follows.send (requestMsg_ne_nil t) id (fun _ => id) ?_ (fun _ _ => id)
  rintro _ segs s ⟨messages, stage, _⟩
  exact ⟨messages.snoc, stage.imp_right fun fresh => ⟨fresh.1, fresh.2.1, by simp⟩,
    fun calm => absurd calm strict⟩

theorem Follows.takePrepared (follows : Follows mode (asked mode db t) l) (some : l.inbox ≠ [])
    {inbox : List (Seg Char)} (fewer : ∀ seg ∈ inbox, ∃ other ∈ l.inbox, seg.message = other.message)
    (all : mode.calm → inbox = []) : Follows mode (ready mode db t) { l with inbox := inbox } := by
  refine follows.change rfl rfl ?_ (fun _ => id) ?_
  · rintro ⟨said, _⟩
    refine ⟨?_, all⟩
    intro seg member
    obtain ⟨other, inside, same⟩ := fewer seg member
    rw [same, said other inside]
  · intro _ s
    cases current : l.current with
    | none =>
      simp only [Shape.ahead, current]
      rintro ⟨strict, stage⟩
      exact ⟨strict, stage.resolve_right fun fresh => some fresh.2⟩
    | some segs =>
      simp only [Shape.ahead, current]
      rintro ⟨messages, stage, count⟩
      refine ⟨messages, stage.resolve_right fun fresh => some fresh.2.1, ?_⟩
      intro calm
      have one := count calm
      have positive := List.length_pos_iff.mpr some
      exact List.eq_nil_of_length_eq_zero (by omega)

theorem hasDecision_append {segs : List (Seg Char)} (messages : AllRequests t segs) :
    HasDecision t commit (segs ++ [Seg.sent (decisionMsg t commit)]) := by
  induction segs with
  | nil => exact Or.inr rfl
  | cons seg segs ih => exact Or.inl ⟨messages seg (by simp), ih messages.tail⟩

theorem HasDecision.append {segs : List (Seg Char)} (has : HasDecision t commit segs) (more : List (Seg Char)) :
    HasDecision t commit (segs ++ more) := by
  induction segs with
  | nil => exact has.elim
  | cons seg segs ih => exact has.imp_left fun head => ⟨head.1, ih head.2⟩

theorem Follows.sendDecision (follows : Follows mode (ready mode db t) l) :
    Follows mode (decided mode db t commit) (l.send (decisionMsg t commit)) ∧
      Answered t (l.send (decisionMsg t commit)) := by
  refine ⟨follows.send (decisionMsg_ne_nil t commit) ?_ (fun _ => Or.imp_right Or.inr) ?_ ?_, ?_⟩
  · rintro ⟨said, none⟩ seg member
    refine Or.inl ⟨fun calm => ?_, said seg member⟩
    rw [none calm] at member
    cases member
  · rintro ⟨said, _⟩ segs s ⟨messages, prepared, none⟩
    refine ⟨said, Or.inl ⟨prepared, hasDecision_append messages, ?_⟩⟩
    intro calm
    rw [none calm]
    simp
  · rintro ⟨said, _⟩ s ⟨strict, prepared⟩
    exact Or.inr ⟨strict, said, prepared⟩
  · rintro ⟨seg, member, other⟩
    exact absurd (follows.1.1 seg member) other

theorem Follows.resendDecision (strict : ¬ mode.calm) (follows : Follows mode (decided mode db t commit) l) :
    Follows mode (decided mode db t commit) (l.send (decisionMsg t commit)) := by
  refine follows.send (decisionMsg_ne_nil t commit) id (fun _ => id) ?_ (fun _ _ => id)
  rintro _ segs s ⟨said, ⟨prepared, has, _⟩ | ⟨finished, _, seg, rest, rfl, decision⟩⟩
  · exact ⟨said, Or.inl ⟨prepared, has.append _, fun calm => absurd calm strict⟩⟩
  · exact ⟨said, Or.inr ⟨finished, strict, seg, _, rfl, decision⟩⟩

theorem Answered.send (answered : Answered t l) (message : Str) : Answered t (l.send message) := by
  intro some
  obtain ⟨closed, current⟩ := answered some
  exact ⟨closed, by simp [Link.send, current]⟩

theorem Follows.reconnectRequest (strict : ¬ mode.calm) (valid : t.Valid) (writes : t.Writes)
    (follows : Follows mode (asked mode db t) l) :
    Follows mode (asked mode db t) (l.close.connect.send (requestMsg t)) := by
  refine follows.reconnect (asked_sound valid writes) strict (requestMsg_ne_nil t) ?_ ?_
  · exact ⟨fun _ member => absurd member (by simp), fun _ => by simp⟩
  · rintro s ⟨_, stage⟩
    exact ⟨by simp [AllRequests], stage.imp_right fun fresh => ⟨fresh.1, rfl, by simp⟩, fun _ => by simp⟩

theorem Follows.reconnectDecision (strict : ¬ mode.calm) (valid : t.Valid)
    (follows : Follows mode (decided mode db t commit) l) :
    Follows mode (decided mode db t commit) (l.close.connect.send (decisionMsg t commit)) ∧
      Answered t (l.close.connect.send (decisionMsg t commit)) := by
  refine ⟨follows.reconnect (decided_sound valid) strict (decisionMsg_ne_nil t commit) ?_ ?_, ?_⟩
  · exact fun _ member => absurd member (by simp)
  · have none : AllPrepared t [] := fun _ member => absurd member (by simp)
    rintro s (⟨finished, _⟩ | ⟨_, _, prepared⟩)
    · exact ⟨none, Or.inr ⟨finished, strict, _, [], rfl, rfl⟩⟩
    · exact ⟨none, Or.inl ⟨prepared, Or.inr rfl, fun calm => absurd calm strict⟩⟩
  · rintro ⟨_, member, _⟩
    cases member

/-- A participant whose answer to the decision is there has carried it out. -/
theorem Follows.finished (follows : Follows mode (decided mode db t commit) l) (answered : Answered t l)
    {seg : Seg Char} (member : seg ∈ l.inbox) (other : seg.message ≠ preparedMsg t) :
    Finished mode db t commit l ∧ DoneMsg db t commit seg.message := by
  obtain ⟨closed, current⟩ := answered ⟨seg, member, other⟩
  have through := follows.2
  rw [closed] at through
  have ahead : (decided mode db t commit).rest l.inbox l.site := by
    simpa [Shape.ahead, current] using through.2
  rcases ahead with ⟨finished, _⟩ | ⟨_, said, _⟩
  · exact ⟨⟨closed, current, finished⟩, (follows.1 seg member).resolve_left fun prepared => other prepared.2⟩
  · exact absurd (said seg member) other

theorem Finished.close (finished : Finished mode db t commit l) : Finished mode db t commit l.close := by
  obtain ⟨closed, current, decided⟩ := finished
  exact ⟨by simp [Link.close, closed, current], rfl, decided⟩

theorem Finished.quiet (finished : Finished mode db t commit l) :
    Quiet mode (if commit then t.apply db else db) l := by
  obtain ⟨closed, current, decided⟩ := finished
  refine ⟨current, trivial, ?_⟩
  have settled := decided.settled
  rw [closed, apart_ahead _ current]
  exact ⟨Or.inr settled, settled⟩

theorem Quiet.sendGet (quiet : Quiet mode db l) :
    Follows mode (asking mode db t) (l.connect.send (requestMsg t)) := by
  obtain ⟨current, follows⟩ := quiet
  refine follows.change rfl rfl (fun _ => ?_) (fun _ => id) ?_
  · exact ⟨fun _ member => absurd member (by simp [Link.send, Link.connect]),
      fun _ _ => by simp [Link.send, Link.connect]⟩
  · intro _ s settled
    rw [apart_ahead _ current] at settled
    have ahead : (asking mode db t).ahead (l.connect.send (requestMsg t)) =
        (asking mode db t).cur [] [Seg.sent (requestMsg t)] := by
      simp [Shape.ahead, Link.send, Link.connect, sendMessage, requestMsg_ne_nil t]
    rw [ahead]
    exact ⟨by simp [AllRequests], settled, fun _ _ => rfl⟩

theorem Follows.resendGet (strict : ¬ mode.calm) (follows : Follows mode (asking mode db t) l) :
    Follows mode (asking mode db t) (l.send (requestMsg t)) := by
  refine follows.send (requestMsg_ne_nil t) id (fun _ => id) ?_ (fun _ _ => id)
  rintro _ segs s ⟨messages, settled, _⟩
  exact ⟨messages.snoc, settled, fun calm => absurd calm strict⟩

theorem Follows.reconnectGet (strict : ¬ mode.calm) (valid : t.Valid) (gets : t.Reads)
    (follows : Follows mode (asking mode db t) l) :
    Follows mode (asking mode db t) (l.close.connect.send (requestMsg t)) := by
  refine follows.reconnect (asking_sound valid gets) strict (requestMsg_ne_nil t) ?_ ?_
  · exact ⟨fun _ member => absurd member (by simp), fun _ _ => by simp⟩
  · rintro s ⟨_, settled⟩
    exact ⟨by simp [AllRequests], settled, fun _ _ => rfl⟩

theorem Follows.closeGet (valid : t.Valid) (gets : t.Reads) (follows : Follows mode (asking mode db t) l) :
    Quiet mode db l.close := by
  have through := follows.left (fun _ rest => rest.2) fun segs s cur =>
    (reads_gets valid gets cur.1 cur.2.1).mono (fun _ => Or.inr) fun _ _ => id
  exact ⟨rfl, trivial, through⟩

theorem Quiet.close (quiet : Quiet mode db l) : Quiet mode db l.close := by
  obtain ⟨current, follows⟩ := quiet
  refine ⟨rfl, trivial, ?_⟩
  exact follows.left (fun _ => id) fun _ _ => False.elim

/-- Whatever stage a participant was left in by a coordinator that is gone, it has a store
to go back to. -/
theorem Follows.abandon {S : Shape} (pend : mode.pend) (follows : Follows mode S l)
    (rest : ∀ s, S.rest l.inbox s → Settled mode.pend db s)
    (cur : ∀ segs s, S.cur l.inbox segs s → Reads Site.serve (fun _ => True) (Settled mode.pend db) segs s) :
    Quiet mode db l.close := by
  have through := follows.left rest fun segs s here =>
    (cur segs s here).mono (fun _ _ => Or.inl pend) fun _ _ => id
  exact ⟨rfl, trivial, through.mono (fun _ _ => Or.inl pend) fun _ _ => id⟩

theorem Prepared.settled {s : Site} (pend : mode.pend) (prepared : Prepared mode.pend db t s) :
    Settled mode.pend db s :=
  Or.inr ⟨pend, prepared.consistent⟩

theorem Waiting.abandon (pend : mode.pend) (waiting : Waiting mode db t l) : Quiet mode db l.close :=
  waiting.2.abandon pend (fun _ fresh => fresh.1) fun _ _ => False.elim

theorem Follows.abandonUnsent (pend : mode.pend) (follows : Follows mode (unsent mode db t) l) :
    Quiet mode db l.close := by
  refine follows.abandon pend (fun _ rest => rest.2.1) ?_
  rintro segs s ⟨rfl, fresh⟩
  exact ⟨trivial, fresh.1⟩

theorem Follows.abandonAsked (pend : mode.pend) (valid : t.Valid) (writes : t.Writes)
    (follows : Follows mode (asked mode db t) l) : Quiet mode db l.close := by
  refine follows.abandon pend (fun s rest => rest.2.elim (Prepared.settled pend) fun fresh => fresh.1.1) ?_
  rintro segs s ⟨messages, stage, _⟩
  have start : Prepared mode.pend db t s ∨ (Fresh mode.pend db t s ∧ ([] : List (Seg Char)) = []) :=
    stage.imp_right fun fresh => ⟨fresh.1, rfl⟩
  exact (reads_requests valid writes [] messages start).mono (fun _ _ => trivial)
    fun _ _ stage => stage.elim (Prepared.settled pend) fun fresh => fresh.1.1

theorem Follows.abandonReady (pend : mode.pend) (valid : t.Valid) (follows : Follows mode (ready mode db t) l) :
    Quiet mode db l.close := by
  refine follows.abandon pend (fun s rest => rest.2.settled pend) ?_
  rintro segs s ⟨messages, prepared, _⟩
  exact (reads_copies valid messages prepared).mono (fun _ _ => trivial) fun _ _ => Prepared.settled pend

theorem Follows.abandonDecided (pend : mode.pend) (calm : mode.calm) (valid : t.Valid)
    (follows : Follows mode (decided mode db t commit) l) :
    Quiet mode (if commit then t.apply db else db) l.close := by
  refine follows.abandon pend ?_ ?_
  · rintro s (⟨finished, _⟩ | ⟨strict, _⟩)
    · exact finished.settled
    · exact absurd calm strict
  · rintro segs s ⟨_, ⟨prepared, has, _⟩ | ⟨_, strict, _⟩⟩
    · exact (reads_decision valid has prepared).mono (fun _ _ => trivial) fun _ _ => Decided.settled
    · exact absurd calm strict

end coordinator

end CloudLab.TwoPC
