import CloudLab.TwoPC.Transaction

/-! What a participant's unread connections will make of it, in each stage of a
transaction, and that no event at the participant changes the outlook. -/

namespace CloudLab.TwoPC
open Text ByteStream

/-- What a group of results assumes of the runs. `pend`: an earlier coordinator may have
left participants in phase 2. `calm`: every message arrives whole and in time. `whole`:
the coordinator reads the replies one by one. -/
structure Mode where
  pend : Prop
  calm : Prop
  whole : Prop
  calm_whole : calm → whole

/-- The outlook of a link. `hold` is true of the participant all the way; `rest` once it
has read its closed connections, when the coordinator's connection is lost or left; `cur`
then, with that connection still to read. Both know the replies not read yet, of which
`said` is true. -/
structure Shape where
  hold : Site → Prop
  said : List (Seg Char) → Prop
  rest : List (Seg Char) → Site → Prop
  cur : List (Seg Char) → List (Seg Char) → Site → Prop

/-- Nothing is asked on the way of a participant that an earlier coordinator may have left
pending. -/
def Along (mode : Mode) (S : Shape) (s : Site) : Prop := mode.pend ∨ S.hold s

def Shape.ahead (S : Shape) (l : Link) : Site → Prop :=
  match l.current with
  | none => S.rest l.inbox
  | some segs => S.cur l.inbox segs

/-- Reading on, the participant of the link will have the outlook. -/
def Follows (mode : Mode) (S : Shape) (l : Link) : Prop :=
  S.said l.inbox ∧ Through Site.serve (Along mode S) (S.ahead l) l.closed l.site

structure Shape.Sound (mode : Mode) (S : Shape) : Prop where
  closes : ¬ mode.calm → ∀ inbox segs s, S.cur inbox segs s →
    Reads Site.serve (Along mode S) (S.rest inbox) segs s
  loses : ¬ mode.calm → ∀ inbox j k segs s, S.cur inbox segs s →
    Reads Site.serve (Along mode S) (S.rest (keepBytes j inbox)) (keepBytes k segs) s
  forgets : ¬ mode.calm → ∀ inbox j s, S.rest inbox s → S.rest (keepBytes j inbox) s
  misses : ¬ mode.calm → ∀ inbox j, S.said inbox → S.said (keepBytes j inbox)
  turns : ∀ inbox seg segs s handled s', S.said inbox → S.cur inbox (seg :: segs) s →
    s.handle seg.message = some (handled, s') →
    match handled.next with
    | .again => S.said (inbox ++ handled.sent.map Seg.sent) ∧ Along mode S s' ∧
        S.cur (inbox ++ handled.sent.map Seg.sent) segs s'
    | .finish => S.said (inbox ++ handled.sent.map Seg.sent) ∧ Along mode S s' ∧
        S.rest (inbox ++ handled.sent.map Seg.sent) s'
    | .shutdown => False

def Link.ReadsExactly (l : Link) (k : Nat) : Prop :=
  match l.closed, l.current with
  | segs :: _, _ => Exact k segs
  | [], some segs => Exact k segs
  | [], none => True

instance (k : Nat) : (l : Link) → Decidable (l.ReadsExactly k)
  | ⟨_, _, segs :: _, _, _, _⟩ => inferInstanceAs (Decidable (Exact k segs))
  | ⟨_, _, [], some segs, _, _⟩ => inferInstanceAs (Decidable (Exact k segs))
  | ⟨_, _, [], none, _, _⟩ => isTrue trivial

section link
variable {mode : Mode} {S S' : Shape} {l l' : Link}

/-- What the participant will be once the coordinator's connection is closed too. -/
theorem Follows.left {Q : Site → Prop} (follows : Follows mode S l)
    (rest : ∀ s, S.rest l.inbox s → Q s)
    (cur : ∀ segs s, S.cur l.inbox segs s → Reads Site.serve (Along mode S) Q segs s) :
    Through Site.serve (Along mode S) Q (l.closed ++ l.current.toList) l.site := by
  have through := follows.2
  cases current : l.current with
  | none =>
    rw [Option.toList_none, List.append_nil]
    have ahead : S.ahead l = S.rest l.inbox := by simp [Shape.ahead, current]
    exact through.mono (fun _ => id) fun s _ there => rest s (ahead ▸ there)
  | some segs =>
    rw [Option.toList_some, through_snoc]
    have ahead : S.ahead l = S.cur l.inbox segs := by simp [Shape.ahead, current]
    exact through.mono (fun _ => id) fun s _ there => cur segs s (ahead ▸ there)

theorem Follows.stop (sound : S.Sound mode) (strict : ¬ mode.calm) (follows : Follows mode S l) :
    Follows mode S l.stop :=
  ⟨follows.1, follows.left (fun _ => id) (sound.closes strict l.inbox)⟩

theorem Follows.lose (sound : S.Sound mode) (strict : ¬ mode.calm) (follows : Follows mode S l) (k j : Nat) :
    Follows mode S (l.lose k j) := by
  obtain ⟨said, through⟩ := follows
  refine ⟨sound.misses strict l.inbox j said, ?_⟩
  show Through Site.serve (Along mode S) (S.rest (keepBytes j l.inbox))
    (l.closed ++ (l.current.map (keepBytes k)).toList) l.site
  cases current : l.current with
  | none =>
    have ahead : S.ahead l = S.rest l.inbox := by simp [Shape.ahead, current]
    rw [Option.map_none, Option.toList_none, List.append_nil]
    exact through.mono (fun _ => id) fun s _ rest => sound.forgets strict _ j s (ahead ▸ rest)
  | some segs =>
    have ahead : S.ahead l = S.cur l.inbox segs := by simp [Shape.ahead, current]
    rw [Option.map_some, Option.toList_some, through_snoc]
    exact through.mono (fun _ => id) fun s _ cur => sound.loses strict _ j k segs s (ahead ▸ cur)

theorem Follows.eof (follows : Follows mode S l) (step : l.eof = some l') : Follows mode S l' := by
  obtain ⟨said, through⟩ := follows
  match running : l.running, closed : l.closed with
  | true, [] :: rest =>
    simp only [Link.eof, running, closed, Option.some.injEq] at step
    subst step
    rw [closed] at through
    exact ⟨said, through.2⟩
  | true, [] => simp [Link.eof, running, closed] at step
  | true, (_ :: _) :: _ => simp [Link.eof, running, closed] at step
  | false, _ => simp [Link.eof, running] at step

theorem Follows.read (sound : S.Sound mode) (follows : Follows mode S l) {k : Nat}
    (exact : l.ReadsExactly k) (lives : mode.calm → l'.running = true) (step : l.read k = some l') :
    Follows mode S l' := by
  obtain ⟨positive, conn, turn⟩ := Link.read_turn step
  have whole : ∀ segs : List (Seg Char), Exact k segs → ∃ seg rest, segs = seg :: rest ∧ seg.Whole ∧
      readBytes k segs = (seg.message, rest) := by
    rintro _ ⟨seg, rest, rfl, whole, rfl⟩
    exact ⟨seg, rest, rfl, whole, readBytes_exact whole fun none => positive (by rw [none]; rfl)⟩
  obtain ⟨said, through⟩ := follows
  cases turn with
  | crash => exact Follows.stop sound (fun calm => Bool.false_ne_true (lives calm)) ⟨said, through⟩
  | closed conns handled site closed result kind =>
    obtain ⟨seg, rest, rfl, isWhole, taken⟩ := whole conn (by simpa [Link.ReadsExactly, closed] using exact)
    rw [closed] at through
    rw [taken] at result kind
    have served : l.site.serve seg.message = some (handled.next, site) := by
      rw [Site.serve, result]
      rfl
    have next := through.2 isWhole _ served
    cases kind with
    | again verdict =>
      simp only [verdict] at next
      exact ⟨said, next⟩
    | finish verdict =>
      simp only [verdict] at next
      exact ⟨said, next.2⟩
    | shutdown verdict => simp only [verdict] at next
  | current handled site closed current result kind =>
    obtain ⟨seg, rest, rfl, isWhole, taken⟩ :=
      whole conn (by simpa [Link.ReadsExactly, closed, current] using exact)
    have cur : S.cur l.inbox (seg :: rest) l.site := by
      rw [closed] at through
      simpa [Shape.ahead, current] using through.2
    rw [taken] at result kind
    have next := sound.turns l.inbox seg rest l.site handled site said cur result
    cases kind with
    | again verdict =>
      simp only [verdict] at next
      exact ⟨next.1, by simpa [Shape.ahead, Through] using next.2⟩
    | finish verdict =>
      simp only [verdict] at next
      exact ⟨next.1, by simpa [Shape.ahead, Through] using next.2⟩
    | shutdown verdict => simp only [verdict] at next

end link

/-! The shapes of a transaction. -/

def DoneMsg (db : Db) (t : Txn) (commit : Bool) (message : Str) : Prop :=
  ∃ op : Op, t.split_message = op.fields ∧ message = op.done db t.id commit

def GetReply (mode : Mode) (db : Db) (t : Txn) (message : Str) : Prop :=
  ¬ mode.pend → ∃ key, t.split_message[1]? = some key ∧
    message = getClusterDoneMsg t.id GET ((db key).getD NIL)

/-- Copies of the request, then a decision, then anything: it is not read. -/
def HasDecision (t : Txn) (commit : Bool) : List (Seg Char) → Prop
  | [] => False
  | seg :: rest =>
      (seg.message = requestMsg t ∧ HasDecision t commit rest) ∨ seg.message = decisionMsg t commit

def AllRequests (t : Txn) (segs : List (Seg Char)) : Prop := ∀ seg ∈ segs, seg.message = requestMsg t

def AllPrepared (t : Txn) (inbox : List (Seg Char)) : Prop := ∀ seg ∈ inbox, seg.message = preparedMsg t

section shapes
variable (mode : Mode) (db : Db) (t : Txn) (commit : Bool)

def apart (Q : Site → Prop) : Shape :=
  { hold := Q, said := fun _ => True, rest := fun _ => Q, cur := fun _ _ _ => False }

def unsent : Shape :=
  { hold := Fresh mode.pend db t
    said := fun inbox => inbox = []
    rest := fun _ s => ¬ mode.calm ∧ Fresh mode.pend db t s
    cur := fun _ segs s => segs = [] ∧ Fresh mode.pend db t s }

def asked : Shape :=
  { hold := fun s => Prepared mode.pend db t s ∨ Fresh mode.pend db t s
    said := fun inbox => AllPrepared t inbox ∧ (mode.calm → inbox.length ≤ 1)
    rest := fun inbox s => ¬ mode.calm ∧
      (Prepared mode.pend db t s ∨ (Fresh mode.pend db t s ∧ inbox = []))
    cur := fun inbox segs s => AllRequests t segs ∧
      (Prepared mode.pend db t s ∨ (Fresh mode.pend db t s ∧ inbox = [] ∧ segs ≠ [])) ∧
      (mode.calm → inbox.length + segs.length = 1) }

def ready : Shape :=
  { hold := fun s => Prepared mode.pend db t s ∨ Fresh mode.pend db t s
    said := fun inbox => AllPrepared t inbox ∧ (mode.calm → inbox = [])
    rest := fun _ s => ¬ mode.calm ∧ Prepared mode.pend db t s
    cur := fun _ segs s => AllRequests t segs ∧ Prepared mode.pend db t s ∧ (mode.calm → segs = []) }

/-- The decision has been sent: it is still to be read on the connection, or has been
carried out, or was lost with the connection. -/
def decided : Shape :=
  { hold := fun s => Prepared mode.pend db t s ∨ Decided mode.pend db t commit s ∨ Fresh mode.pend db t s
    said := fun inbox => ∀ seg ∈ inbox,
      (¬ mode.calm ∧ seg.message = preparedMsg t) ∨ DoneMsg db t commit seg.message
    rest := fun inbox s => (Decided mode.pend db t commit s ∧ (mode.calm → inbox ≠ [])) ∨
      (¬ mode.calm ∧ AllPrepared t inbox ∧ Prepared mode.pend db t s)
    cur := fun inbox segs s => AllPrepared t inbox ∧
      ((Prepared mode.pend db t s ∧ HasDecision t commit segs ∧ (mode.calm → segs.length ≤ 1)) ∨
        (Decided mode.pend db t commit s ∧ ¬ mode.calm ∧
          ∃ seg rest, segs = seg :: rest ∧ seg.message = decisionMsg t commit)) }

def asking : Shape :=
  { hold := Settled mode.pend db
    said := fun inbox => (∀ seg ∈ inbox, GetReply mode db t seg.message) ∧
      (mode.calm → ¬ mode.pend → inbox.length ≤ 1)
    rest := fun _ s => ¬ mode.calm ∧ Settled mode.pend db s
    cur := fun inbox segs s => AllRequests t segs ∧ Settled mode.pend db s ∧
      (mode.calm → ¬ mode.pend → inbox.length + segs.length = 1) }

end shapes

section sound
variable {mode : Mode} {db : Db} {t : Txn} {commit : Bool} {s : Site} {segs : List (Seg Char)}

theorem forall_inbox (M : Str → Prop) {inbox : List (Seg Char)} (all : ∀ seg ∈ inbox, M seg.message)
    {message : Str} (last : M message) : ∀ seg ∈ inbox ++ [message].map Seg.sent, M seg.message := by
  intro seg member
  rcases List.mem_append.mp member with early | late
  · exact all seg early
  · rw [List.map_singleton] at late
    rw [List.mem_singleton.mp late, Seg.sent_message]
    exact last

theorem AllPrepared.keepBytes {inbox : List (Seg Char)} (all : AllPrepared t inbox) (j : Nat) :
    AllPrepared t (keepBytes j inbox) :=
  forall_keepBytes (fun message => message = preparedMsg t) all j

theorem AllPrepared.snoc {inbox : List (Seg Char)} (all : AllPrepared t inbox) :
    AllPrepared t (inbox ++ [preparedMsg t].map Seg.sent) :=
  forall_inbox (fun message => message = preparedMsg t) all rfl

theorem AllRequests.keepBytes (all : AllRequests t segs) (k : Nat) : AllRequests t (keepBytes k segs) :=
  forall_keepBytes (fun message => message = requestMsg t) all k

theorem AllRequests.tail {seg : Seg Char} (all : AllRequests t (seg :: segs)) : AllRequests t segs :=
  fun other member => all other (List.mem_cons_of_mem _ member)

theorem AllRequests.snoc (all : AllRequests t segs) : AllRequests t (segs ++ [Seg.sent (requestMsg t)]) :=
  forall_inbox (fun message => message = requestMsg t) all rfl

theorem done_ne_prepared (id : Int) (method addition : Str) (t : Txn) :
    getClusterDoneMsg id method addition ≠ preparedMsg t := by
  have first : (getClusterDoneMsg id method addition).head? = some 'D' := by
    unfold getClusterDoneMsg
    split <;> rfl
  have other : (preparedMsg t).head? = some 'P' := rfl
  intro same
  rw [same, other] at first
  exact absurd first (by decide)

theorem DoneMsg.ne_prepared {message : Str} (done : DoneMsg db t commit message) :
    message ≠ preparedMsg t := by
  obtain ⟨op, _, rfl⟩ := done
  cases op with
  | set => exact done_ne_prepared _ _ _ t
  | del =>
    cases commit
    · exact done_ne_prepared _ _ _ t
    · exact done_ne_prepared _ _ _ t

theorem apart_sound (Q : Site → Prop) : (apart Q).Sound mode :=
  { closes := fun _ _ _ _ never => never.elim
    loses := fun _ _ _ _ _ _ never => never.elim
    forgets := fun _ _ _ _ rest => rest
    misses := fun _ _ _ _ => trivial
    turns := fun _ _ _ _ _ _ _ never => never.elim }

theorem unsent_sound : (unsent mode db t).Sound mode := by
  constructor
  · rintro strict inbox segs s ⟨rfl, fresh⟩
    exact ⟨Or.inr fresh, strict, fresh⟩
  · rintro strict inbox j k segs s ⟨rfl, fresh⟩
    exact ⟨Or.inr fresh, strict, fresh⟩
  · intro strict inbox j s rest
    exact rest
  · rintro strict inbox j rfl
    rfl
  · rintro inbox seg segs s handled s' _ ⟨none, _⟩
    cases none

theorem reads_requests (valid : t.Valid) (writes : t.Writes) (inbox : List (Seg Char))
    (messages : AllRequests t segs)
    (start : Prepared mode.pend db t s ∨ (Fresh mode.pend db t s ∧ inbox = [])) :
    Reads Site.serve (fun s => Prepared mode.pend db t s ∨ (Fresh mode.pend db t s ∧ inbox = []))
      (fun s => Prepared mode.pend db t s ∨ (Fresh mode.pend db t s ∧ inbox = [])) segs s := by
  refine Reads.of_invariant (fun message => message = requestMsg t) ?_ messages start
  rintro s message turn before rfl served
  obtain ⟨⟨handled, s'⟩, result, rfl⟩ := Option.map_eq_some_iff.mp served
  rcases before with prepared | ⟨fresh, _⟩
  · obtain ⟨verdict, _, rfl⟩ := prepared.request valid result
    exact ⟨by simp [verdict], Or.inl prepared⟩
  · obtain ⟨verdict, _, prepared⟩ := fresh.request valid writes result
    exact ⟨by simp [verdict], Or.inl prepared⟩

theorem asked_sound (valid : t.Valid) (writes : t.Writes) : (asked mode db t).Sound mode := by
  have along : ∀ (inbox : List (Seg Char)) s,
      (Prepared mode.pend db t s ∨ (Fresh mode.pend db t s ∧ inbox = [])) →
      Along mode (asked mode db t) s :=
    fun _ _ stage => Or.inr (stage.imp_right And.left)
  constructor
  · rintro strict inbox segs s ⟨messages, stage, _⟩
    have start : Prepared mode.pend db t s ∨ (Fresh mode.pend db t s ∧ inbox = []) :=
      stage.imp_right fun fresh => ⟨fresh.1, fresh.2.1⟩
    exact (reads_requests valid writes inbox messages start).mono (along inbox)
      fun _ _ stage => ⟨strict, stage⟩
  · rintro strict inbox j k segs s ⟨messages, stage, _⟩
    have start : Prepared mode.pend db t s ∨ (Fresh mode.pend db t s ∧ keepBytes j inbox = []) := by
      refine stage.imp_right ?_
      rintro ⟨fresh, rfl, _⟩
      exact ⟨fresh, rfl⟩
    exact (reads_requests valid writes _ (messages.keepBytes k) start).mono (along _)
      fun _ _ stage => ⟨strict, stage⟩
  · rintro strict inbox j s ⟨_, stage⟩
    refine ⟨strict, stage.imp_right ?_⟩
    rintro ⟨fresh, rfl⟩
    exact ⟨fresh, rfl⟩
  · rintro strict inbox j ⟨said, _⟩
    exact ⟨said.keepBytes j, fun calm => absurd calm strict⟩
  · rintro inbox seg segs s handled s' ⟨said, _⟩ ⟨messages, stage, count⟩ result
    rw [messages seg (by simp)] at result
    have outcome : handled.next = .again ∧ handled.sent = [preparedMsg t] ∧ Prepared mode.pend db t s' := by
      rcases stage with prepared | ⟨fresh, _⟩
      · obtain ⟨verdict, sent, rfl⟩ := prepared.request valid result
        exact ⟨verdict, sent, prepared⟩
      · exact fresh.request valid writes result
    obtain ⟨verdict, sent, prepared⟩ := outcome
    have counted : mode.calm → (inbox ++ [preparedMsg t].map Seg.sent).length + segs.length = 1 := by
      intro calm
      have before := count calm
      simp only [List.length_cons, List.length_append, List.length_map, List.length_nil] at before ⊢
      omega
    simp only [verdict, sent]
    exact ⟨⟨said.snoc, fun calm => by have := counted calm; omega⟩, Or.inr (Or.inl prepared),
      messages.tail, Or.inl prepared, counted⟩

theorem reads_copies (valid : t.Valid) (messages : AllRequests t segs) (start : Prepared mode.pend db t s) :
    Reads Site.serve (Prepared mode.pend db t) (Prepared mode.pend db t) segs s := by
  refine Reads.of_invariant (fun message => message = requestMsg t) ?_ messages start
  rintro s message turn before rfl served
  obtain ⟨⟨handled, s'⟩, result, rfl⟩ := Option.map_eq_some_iff.mp served
  obtain ⟨verdict, _, rfl⟩ := before.request valid result
  exact ⟨by simp [verdict], before⟩

theorem ready_sound (valid : t.Valid) : (ready mode db t).Sound mode := by
  constructor
  · rintro strict inbox segs s ⟨messages, prepared, _⟩
    exact (reads_copies valid messages prepared).mono (fun _ prepared => Or.inr (Or.inl prepared))
      fun _ _ prepared => ⟨strict, prepared⟩
  · rintro strict inbox j k segs s ⟨messages, prepared, _⟩
    exact (reads_copies valid (messages.keepBytes k) prepared).mono
      (fun _ prepared => Or.inr (Or.inl prepared)) fun _ _ prepared => ⟨strict, prepared⟩
  · intro strict inbox j s rest
    exact rest
  · rintro strict inbox j ⟨said, _⟩
    exact ⟨said.keepBytes j, fun calm => absurd calm strict⟩
  · rintro inbox seg segs s handled s' ⟨said, _⟩ ⟨messages, prepared, none⟩ result
    have strict : ¬ mode.calm := fun calm => absurd (none calm) (by simp)
    rw [messages seg (by simp)] at result
    obtain ⟨verdict, sent, rfl⟩ := prepared.request valid result
    simp only [verdict, sent]
    exact ⟨⟨said.snoc, fun calm => absurd calm strict⟩, Or.inr (Or.inl prepared), messages.tail, prepared,
      fun calm => absurd calm strict⟩

theorem reads_decision (valid : t.Valid) (has : HasDecision t commit segs)
    (prepared : Prepared mode.pend db t s) :
    Reads Site.serve (Along mode (decided mode db t commit)) (Decided mode.pend db t commit) segs s := by
  induction segs with
  | nil => exact has.elim
  | cons seg segs ih =>
    refine ⟨Or.inr (Or.inl prepared), ?_⟩
    intro _ turn served
    obtain ⟨⟨handled, s'⟩, result, rfl⟩ := Option.map_eq_some_iff.mp served
    rcases has with ⟨request, later⟩ | decision
    · rw [request] at result
      obtain ⟨verdict, _, rfl⟩ := prepared.request valid result
      simp only [verdict]
      exact ih later
    · rw [decision] at result
      obtain ⟨verdict, _, finished⟩ := prepared.decision result
      simp only [verdict]
      exact ⟨Or.inr (Or.inr (Or.inl finished)), finished⟩

theorem reads_decision_again (valid : t.Valid) {seg : Seg Char}
    (decision : seg.message = decisionMsg t commit) (finished : Decided mode.pend db t commit s) :
    Reads Site.serve (Along mode (decided mode db t commit)) (Decided mode.pend db t commit)
      (seg :: segs) s := by
  refine ⟨Or.inr (Or.inr (Or.inl finished)), ?_⟩
  intro _ turn served
  obtain ⟨⟨handled, s'⟩, result, rfl⟩ := Option.map_eq_some_iff.mp served
  rw [decision] at result
  obtain ⟨verdict, _, rfl⟩ := finished.decision valid result
  simp only [verdict]
  exact ⟨Or.inr (Or.inr (Or.inl finished)), finished⟩

theorem reads_cut_off (valid : t.Valid) (has : HasDecision t commit segs) (k : Nat)
    (prepared : Prepared mode.pend db t s) :
    Reads Site.serve (Along mode (decided mode db t commit))
      (fun s => Decided mode.pend db t commit s ∨ Prepared mode.pend db t s) (keepBytes k segs) s := by
  induction segs generalizing k with
  | nil => exact has.elim
  | cons seg segs ih =>
    -- the head is handled alike whether the cut falls behind it or inside it
    have head : ∀ (other : Seg Char) (rest : List (Seg Char)), other.message = seg.message →
        (HasDecision t commit segs → Reads Site.serve (Along mode (decided mode db t commit))
          (fun s => Decided mode.pend db t commit s ∨ Prepared mode.pend db t s) rest s) →
        Reads Site.serve (Along mode (decided mode db t commit))
          (fun s => Decided mode.pend db t commit s ∨ Prepared mode.pend db t s) (other :: rest) s := by
      intro other rest same onward
      refine ⟨Or.inr (Or.inl prepared), ?_⟩
      intro _ turn served
      obtain ⟨⟨handled, s'⟩, result, rfl⟩ := Option.map_eq_some_iff.mp served
      rw [same] at result
      rcases has with ⟨request, later⟩ | decision
      · rw [request] at result
        obtain ⟨verdict, _, rfl⟩ := prepared.request valid result
        simp only [verdict]
        exact onward later
      · rw [decision] at result
        obtain ⟨verdict, _, finished⟩ := prepared.decision result
        simp only [verdict]
        exact ⟨Or.inr (Or.inr (Or.inl finished)), Or.inl finished⟩
    rw [keepBytes]
    split
    · exact head seg _ rfl fun later => ih later _
    · split
      · exact ⟨Or.inr (Or.inl prepared), Or.inr prepared⟩
      · exact head _ [] rfl fun _ => ⟨Or.inr (Or.inl prepared), Or.inr prepared⟩

theorem decided_sound (valid : t.Valid) : (decided mode db t commit).Sound mode := by
  have done : ∀ (inbox : List (Seg Char)) s, ¬ mode.calm → Decided mode.pend db t commit s →
      (decided mode db t commit).rest inbox s :=
    fun _ _ strict finished => Or.inl ⟨finished, fun calm => absurd calm strict⟩
  constructor
  · rintro strict inbox segs s ⟨said, ⟨prepared, has, _⟩ | ⟨finished, _, seg, rest, rfl, decision⟩⟩
    · exact (reads_decision valid has prepared).mono (fun _ => id) fun s _ => done inbox s strict
    · exact (reads_decision_again valid decision finished).mono (fun _ => id) fun s _ => done inbox s strict
  · rintro strict inbox j k segs s ⟨said, ⟨prepared, has, _⟩ | ⟨finished, _, seg, rest, rfl, decision⟩⟩
    · refine (reads_cut_off valid has k prepared).mono (fun _ => id) ?_
      rintro s _ (finished | still)
      · exact done _ s strict finished
      · exact Or.inr ⟨strict, said.keepBytes j, still⟩
    · rw [keepBytes]
      split
      · exact (reads_decision_again valid decision finished).mono (fun _ => id) fun s _ => done _ s strict
      · split
        · exact ⟨Or.inr (Or.inr (Or.inl finished)), done _ s strict finished⟩
        · have fragment : ({ seg with unread := seg.unread.take k } : Seg Char).message = decisionMsg t commit :=
            decision
          have cut : Reads Site.serve (Along mode (decided mode db t commit)) (Decided mode.pend db t commit)
              [{ seg with unread := seg.unread.take k }] s := reads_decision_again valid fragment finished
          exact cut.mono (fun _ => id) fun s _ => done _ s strict
  · rintro strict inbox j s (⟨finished, _⟩ | ⟨_, said, prepared⟩)
    · exact done _ s strict finished
    · exact Or.inr ⟨strict, said.keepBytes j, prepared⟩
  · intro strict inbox j said
    exact forall_keepBytes (fun message => (¬ mode.calm ∧ message = preparedMsg t) ∨ DoneMsg db t commit message)
      said j
  · rintro inbox seg segs s handled s' said ⟨all, stage⟩ result
    have finish : handled.next = .finish ∧
        (∃ op : Op, t.split_message = op.fields ∧ handled.sent = [op.done db t.id commit]) ∧
        Decided mode.pend db t commit s' →
        match handled.next with
        | .again => (decided mode db t commit).said (inbox ++ handled.sent.map Seg.sent) ∧
            Along mode (decided mode db t commit) s' ∧
            (decided mode db t commit).cur (inbox ++ handled.sent.map Seg.sent) segs s'
        | .finish => (decided mode db t commit).said (inbox ++ handled.sent.map Seg.sent) ∧
            Along mode (decided mode db t commit) s' ∧
            (decided mode db t commit).rest (inbox ++ handled.sent.map Seg.sent) s'
        | .shutdown => False := by
      rintro ⟨verdict, ⟨op, fields, sent⟩, finished⟩
      simp only [verdict, sent]
      exact ⟨forall_inbox
          (fun message => (¬ mode.calm ∧ message = preparedMsg t) ∨ DoneMsg db t commit message) said
          (Or.inr ⟨op, fields, rfl⟩),
        Or.inr (Or.inr (Or.inl finished)), Or.inl ⟨finished, fun _ => by simp⟩⟩
    rcases stage with ⟨prepared, has, short⟩ | ⟨finished, strict, head, rest, same, decision⟩
    · rcases has with ⟨request, later⟩ | decision
      · have strict : ¬ mode.calm := by
          intro calm
          have none : segs = [] := List.eq_nil_of_length_eq_zero (by
            have := short calm
            rw [List.length_cons] at this
            omega)
          rw [none] at later
          exact later
        rw [request] at result
        obtain ⟨verdict, sent, rfl⟩ := prepared.request valid result
        simp only [verdict, sent]
        exact ⟨forall_inbox
            (fun message => (¬ mode.calm ∧ message = preparedMsg t) ∨ DoneMsg db t commit message) said
            (Or.inl ⟨strict, rfl⟩),
          Or.inr (Or.inl prepared), all.snoc, Or.inl ⟨prepared, later, fun calm => absurd calm strict⟩⟩
      · rw [decision] at result
        exact finish (prepared.decision result)
    · cases same
      rw [decision] at result
      obtain ⟨verdict, sent, rfl⟩ := finished.decision valid result
      exact finish ⟨verdict, sent, finished⟩

theorem reads_gets (valid : t.Valid) (gets : t.Reads) (messages : AllRequests t segs)
    (start : Settled mode.pend db s) :
    Reads Site.serve (Settled mode.pend db) (Settled mode.pend db) segs s := by
  refine Reads.of_invariant (fun message => message = requestMsg t) ?_ messages start
  rintro s message turn before rfl served
  obtain ⟨⟨handled, s'⟩, result, rfl⟩ := Option.map_eq_some_iff.mp served
  obtain ⟨verdict, settled, _⟩ := before.get valid gets result
  exact ⟨by simp [verdict], settled⟩

theorem asking_sound (valid : t.Valid) (gets : t.Reads) : (asking mode db t).Sound mode := by
  constructor
  · rintro strict inbox segs s ⟨messages, settled, _⟩
    exact (reads_gets valid gets messages settled).mono (fun _ => Or.inr) fun _ _ settled => ⟨strict, settled⟩
  · rintro strict inbox j k segs s ⟨messages, settled, _⟩
    exact (reads_gets valid gets (messages.keepBytes k) settled).mono (fun _ => Or.inr)
      fun _ _ settled => ⟨strict, settled⟩
  · intro strict inbox j s rest
    exact rest
  · rintro strict inbox j ⟨said, _⟩
    exact ⟨forall_keepBytes (GetReply mode db t) said j, fun calm => absurd calm strict⟩
  · rintro inbox seg segs s handled s' ⟨said, _⟩ ⟨messages, settled, count⟩ result
    rw [messages seg (by simp)] at result
    obtain ⟨verdict, next, _, sent⟩ := settled.get valid gets result
    have counted : mode.calm → ¬ mode.pend → (inbox ++ handled.sent.map Seg.sent).length + segs.length = 1 := by
      intro calm strict
      obtain ⟨_, _, reply⟩ := sent strict
      have before := count calm strict
      simp only [reply, List.length_cons, List.length_append, List.length_map, List.length_nil] at before ⊢
      omega
    simp only [verdict]
    refine ⟨⟨?_, fun calm strict => ?_⟩, Or.inr next, messages.tail, next, counted⟩
    · intro other member strict
      obtain ⟨key, field, reply⟩ := sent strict
      rw [reply] at member
      exact forall_inbox (GetReply mode db t) said (fun _ => ⟨key, field, rfl⟩) other member strict
    · have one := counted calm strict
      omega

end sound

end CloudLab.TwoPC
