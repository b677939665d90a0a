import CloudLab.TwoPC.Branch
import CloudLab.TwoPC.Invariant

/-! A request is taken, the participants are connected, and the messages of a phase are
sent: the steps before the coordinator waits. -/

namespace CloudLab.TwoPC
open Text ByteStream Tally

/-! What `parseClientMsg` accepts. -/

theorem popBack_some {s line : Str} (popped : popBack s = some line) : ∀ c ∈ line, c ∈ s := by
  unfold popBack at popped
  split at popped
  · cases popped
  · cases popped
    exact fun c member => List.dropLast_subset s member

theorem payloadLines_plain {lines kept : List Str} (plain : ∀ line ∈ lines, '\n' ∉ line)
    (parsed : payloadLines lines = some kept) : ∀ line ∈ kept, '\n' ∉ line := by
  induction lines generalizing kept with
  | nil =>
    cases parsed
    simp
  | cons temp rest ih =>
    have later : ∀ line ∈ rest, '\n' ∉ line := fun line member => plain line (List.mem_cons_of_mem _ member)
    rw [payloadLines] at parsed
    split at parsed
    · simp only [Option.bind_eq_bind, Option.bind_eq_some_iff, Option.some.injEq] at parsed
      obtain ⟨line, popped, lines, others, rfl⟩ := parsed
      intro other member
      rcases List.mem_cons.mp member with rfl | member
      · exact fun newline => plain temp (by simp) (popBack_some popped _ newline)
      · exact ih later others other member
    · exact ih later parsed

theorem joinWords_plain (words : List Str) {value : Str} (first : '\n' ∉ value)
    (plain : ∀ word ∈ words, '\n' ∉ word) :
    '\n' ∉ words.foldl (fun joined word => joined ++ ' ' :: word) value := by
  induction words generalizing value with
  | nil => exact first
  | cons word words ih =>
    apply ih
    · have head := plain word (by simp)
      simp [first, head]
    · exact fun other member => plain other (List.mem_cons_of_mem _ member)

/-- An accepted request is a GET with a key, a DEL with a key, or a SET with at most one
value. -/
theorem parseClientMsg_true {data : Str} {fields : List Str}
    (parsed : parseClientMsg data = some (true, fields)) :
    (∀ line ∈ fields, '\n' ∉ line) ∧ ∃ key rest,
      fields = GET :: key :: rest ∨ fields = DEL :: key :: rest ∨
        (fields = SET :: key :: rest ∧ rest.length ≤ 1) := by
  unfold parseClientMsg at parsed
  split at parsed
  · cases parsed
  · simp only [Option.bind_eq_bind, Option.bind_eq_some_iff] at parsed
    obtain ⟨lines, payload, accepted⟩ := parsed
    have plain := payloadLines_plain (newline_not_mem_getlines data) payload
    split at accepted
    · cases accepted
    · next good =>
      simp only [not_or, not_lt, not_and, ne_eq, not_not] at good
      obtain ⟨long, command⟩ := good
      match lines with
      | [] => simp at long
      | [_] => simp at long
      | head :: key :: rest =>
        simp only [List.head?_cons, Option.some.injEq] at command accepted
        have known : head = SET ∨ head = GET ∨ head = DEL := by
          by_cases set : head = SET
          · exact Or.inl set
          · by_cases get : head = GET
            · exact Or.inr (Or.inl get)
            · exact Or.inr (Or.inr (command set get))
        split at accepted
        · next joined =>
          obtain ⟨rfl, more⟩ := joined
          match rest with
          | [] => simp at more
          | value :: words =>
            simp only [joinValue, Option.some.injEq, Prod.mk.injEq, true_and] at accepted
            subst accepted
            refine ⟨?_, key, _, Or.inr (Or.inr ⟨rfl, by simp⟩)⟩
            intro line member
            simp only [List.mem_cons, List.not_mem_nil, or_false] at member
            rcases member with rfl | rfl | rfl
            · exact plain _ (by simp)
            · exact plain _ (by simp)
            · exact joinWords_plain words (plain _ (by simp)) fun word inside => plain word (by simp [inside])
        · next single =>
          simp only [Option.some.injEq, Prod.mk.injEq, true_and] at accepted
          subst accepted
          refine ⟨plain, key, rest, ?_⟩
          rcases known with rfl | rfl | rfl
          · refine Or.inr (Or.inr ⟨rfl, ?_⟩)
            simp only [true_and, not_lt, List.length_cons] at single
            omega
          · exact Or.inl rfl
          · exact Or.inr (Or.inl rfl)

section begin
variable {mode : Mode} {n : Nat} {db : Db} {t : Txn} {c c' : Cluster} {l : Link}

theorem Site.serve_eq (s : Site) (data : Str) :
    s.serve data = (handleData s.process data).map fun handled =>
      (handled.next, { process := handled.state,
                       commits := if executesCommit s.process data then s.process.id :: s.commits
                                  else s.commits }) := by
  simp only [Site.serve, Site.handle, Option.bind_eq_bind]
  cases handleData s.process data <;> rfl

theorem serve_cleared {strictly : Prop} {s s' : Site} (same : s'.process = s.process)
    (none : strictly → s'.commits = []) (clean : strictly → s.process.phase ≠ 2) {message : Str}
    {turn' : Next × Site} (served : s'.serve message = some turn') :
    ∃ turn, s.serve message = some turn ∧ turn.1 = turn'.1 ∧ turn'.2.process = turn.2.process ∧
      (strictly → turn'.2.commits = []) := by
  rw [Site.serve_eq, same] at served
  obtain ⟨handled, run, rfl⟩ := Option.map_eq_some_iff.mp served
  refine ⟨_, (Site.serve_eq s message).trans (congrArg (Option.map _) run), rfl, rfl, ?_⟩
  intro strict
  simp [executesCommit_clean (clean strict), none strict]

theorem Quiet.clear (quiet : Quiet mode db l) : Quiet mode db l.clear := by
  obtain ⟨current, _, through⟩ := quiet
  refine ⟨current, trivial, ?_⟩
  rw [apart_ahead _ current] at through
  rw [apart_ahead (l := l.clear) _ current]
  refine through.transfer (fun s s' => s'.process = s.process) ?_ ?_ ?_ rfl
  · intro s s' same along
    simpa only [Along, apart, Settled, same] using along
  · intro s s' message turn' same _ served
    obtain ⟨turn, run, verdict, next, _⟩ :=
      serve_cleared same (fun no : False => no.elim) False.elim served
    exact ⟨turn, run, verdict, next⟩
  · intro s s' same _ settled
    simpa only [Settled, same] using settled

theorem Quiet.begin (quiet : Quiet mode db l)
    (other : mode.pend → ∀ s, drain Site.serve l.closed l.site = some s → s.process.phase = 2 →
      s.process.id ≠ t.id) : Waiting mode db t l.clear := by
  obtain ⟨current, _, through⟩ := quiet
  refine ⟨current, trivial, ?_⟩
  rw [apart_ahead _ current] at through
  rw [apart_ahead (l := l.clear) _ current]
  have drained := through.drain (R := fun s => mode.pend → s.process.phase = 2 → s.process.id ≠ t.id)
    fun s end_ pend => other pend s end_
  refine drained.transfer (fun s s' => s'.process = s.process ∧ (¬ mode.pend → s'.commits = [])) ?_ ?_ ?_
    ⟨rfl, fun _ => rfl⟩
  · rintro s s' ⟨same, none⟩ (pend | settled)
    · exact Or.inl pend
    · by_cases pend : mode.pend
      · exact Or.inl pend
      · have settled : Settled mode.pend db s := settled
        have clean := settled.clean pend
        have settled' : Settled mode.pend db s' := by simpa only [Settled, same] using settled
        refine Or.inr ⟨settled', ?_, none⟩
        rw [same, clean.1]
        intro two
        exact absurd two (by decide)
  · rintro s s' message turn' ⟨same, none⟩ along served
    have clean : ¬ mode.pend → s.process.phase ≠ 2 := by
      intro strict
      rw [((along.resolve_left strict).clean strict).1]
      decide
    obtain ⟨turn, run, verdict, next, still⟩ := serve_cleared same none clean served
    exact ⟨turn, run, verdict, next, still⟩
  · rintro s s' ⟨same, none⟩ _ ⟨settled, others⟩
    have settled' : Settled mode.pend db s' := by simpa only [Settled, same] using settled
    refine ⟨settled', ?_, none⟩
    rw [same]
    intro two
    by_cases pend : mode.pend
    · exact others pend two
    · rw [(settled.clean pend).1] at two
      exact absurd two (by decide)

/-! The transaction that an accepted request begins. -/

theorem valid_of_parsed {data : Str} {id : Int} {fields : List Str} (range : 0 ≤ id ∧ id ≤ 9999)
    (parsed : parseClientMsg data = some (true, fields)) :
    ({ id := id, split_message := fields } : Txn).Valid := by
  obtain ⟨plain, key, rest, shape⟩ := parseClientMsg_true parsed
  exact { low := range.1
          high := range.2
          lines := plain
          nonempty := by rcases shape with rfl | rfl | ⟨rfl, _⟩ <;> simp }

theorem reads_of_parsed {data : Str} {id : Int} {fields : List Str}
    (parsed : parseClientMsg data = some (true, fields)) (get : fields[0]? = some GET) :
    ({ id := id, split_message := fields } : Txn).Reads := by
  obtain ⟨_, key, rest, shape⟩ := parseClientMsg_true parsed
  rcases shape with reads | rfl | ⟨rfl, _⟩
  · exact ⟨key, rest, reads⟩
  · exact absurd get (by simp)
  · exact absurd get (by simp)

theorem writes_of_parsed {data : Str} {id : Int} {fields : List Str}
    (parsed : parseClientMsg data = some (true, fields)) (notGet : fields[0]? ≠ some GET) :
    ({ id := id, split_message := fields } : Txn).Writes := by
  obtain ⟨_, key, rest, shape⟩ := parseClientMsg_true parsed
  rcases shape with rfl | rfl | ⟨rfl, short⟩
  · exact absurd rfl notGet
  · exact Or.inl ⟨.del key rest, rfl⟩
  · match rest with
    | [] => exact Or.inr ⟨key, rfl⟩
    | [value] => exact Or.inl ⟨.set key value, rfl⟩
    | _ :: _ :: _ => simp at short

theorem Inv.request (inv : Inv mode n db c) {data : Str} {id : Int}
    (allowed : Allowed mode n c (.request data id)) (step : next n c (.request data id) = some c') :
    Inv mode n db c' := by
  cases next_branch step with
  | refused range parsed =>
    refine ⟨trivial, ?_, inv.everyone⟩
    intro i bound alive
    refine ⟨(inv.links i bound alive).1.clear, ?_⟩
    rintro t reply same _
    simp only [Option.some.injEq, Prod.mk.injEq] at same
    obtain ⟨rfl, rfl⟩ := same
    exact ⟨fun ok => absurd rfl ok, fun _ _ _ => rfl⟩
  | get range parsed reads =>
    refine ⟨⟨valid_of_parsed range parsed, reads_of_parsed parsed reads, fun i => List.mem_range.mp⟩, ?_,
      inv.everyone⟩
    intro i bound alive
    exact (inv.links i bound alive).1.clear
  | write range parsed notGet =>
    refine ⟨⟨valid_of_parsed range parsed, writes_of_parsed parsed notGet, ?_, by simp, List.nodup_range, ?_⟩, ?_,
      inv.everyone⟩
    · intro i
      simp
    · exact fun i member => ⟨List.mem_range.mp member, rfl⟩
    · intro i bound alive
      refine ⟨fun _ => (inv.links i bound alive).1.begin fun pend => allowed pend i bound, ?_⟩
      exact fun outside => absurd (List.mem_range.mpr bound) outside

end begin

section connect
variable {mode : Mode} {n : Nat} {db : Db} {t : Txn} {vaild participantSocket : Nat → Bool}
  {links : Nat → Link} {i : Nat} {todo : List Nat} {alive : Int} {c c' : Cluster}

theorem Sockets.drop (sockets : Sockets n vaild participantSocket) (none : participantSocket i = false) :
    Sockets n (Function.update vaild i false) participantSocket := by
  intro j socket
  have other : j ≠ i := by
    rintro rfl
    rw [none] at socket
    cases socket
  rw [Function.update_of_ne other]
  exact sockets j socket

theorem Sockets.add (sockets : Sockets n vaild participantSocket) (bound : i < n) (alive : vaild i = true) :
    Sockets n vaild (Function.update participantSocket i true) := by
  intro j socket
  by_cases same : j = i
  · subst same
    exact ⟨bound, alive⟩
  · rw [Function.update_of_ne same] at socket
    exact sockets j socket

theorem Inv.connect_skip (inv : Inv mode n db ⟨.connectAll t participantSocket alive (i :: todo), vaild, links⟩)
    {vaild' : Nat → Bool} (fewer : ∀ j, vaild' j = true → j ≠ i ∧ vaild j = true)
    (sockets : Sockets n vaild' participantSocket) (everyone : mode.calm → ∀ j < n, vaild' j = true) :
    Inv mode n db ⟨.connectAll t participantSocket alive todo, vaild', links⟩ := by
  obtain ⟨valid, writes, _, counted, nodup, unconnected⟩ := inv.control
  refine ⟨⟨valid, writes, sockets, counted, (List.nodup_cons.mp nodup).2, ?_⟩, ?_, everyone⟩
  · exact fun j member => unconnected j (List.mem_cons_of_mem _ member)
  · intro j bound alive
    obtain ⟨other, before⟩ := fewer j alive
    have link := inv.links j bound before
    refine ⟨fun later => link.1 (List.mem_cons_of_mem _ later), fun done => link.2 ?_⟩
    intro member
    exact done ((List.mem_cons.mp member).resolve_left other)

theorem Inv.connect_done (inv : Inv mode n db ⟨.connectAll t participantSocket alive (i :: todo), vaild, links⟩)
    (present : vaild i = true) :
    Inv mode n db ⟨.connectAll t (Function.update participantSocket i true) (alive + 1) todo, vaild,
      Function.update links i (links i).connect⟩ := by
  obtain ⟨valid, writes, sockets, counted, nodup, unconnected⟩ := inv.control
  obtain ⟨notLater, nodup⟩ := List.nodup_cons.mp nodup
  obtain ⟨bound, closed⟩ := unconnected i (by simp)
  refine ⟨⟨valid, writes, sockets.add bound present, ?_, nodup, ?_⟩, ?_, inv.everyone⟩
  · rw [counted, tally_update_true bound closed]
    omega
  · intro j member
    have other : j ≠ i := fun same => notLater (same ▸ member)
    rw [Function.update_of_ne other]
    exact unconnected j (List.mem_cons_of_mem _ member)
  · intro j small before
    have link := inv.links j small before
    by_cases same : j = i
    · subst same
      refine ⟨fun later => absurd later notLater, fun _ => ?_⟩
      simp only [Function.update_self]
      exact ⟨trivial, (link.1 (by simp)).connect⟩
    · simp only [Function.update_of_ne same]
      refine ⟨fun later => link.1 (List.mem_cons_of_mem _ later), fun done => ?_⟩
      rw [Function.update_of_ne same]
      exact link.2 fun member => done ((List.mem_cons.mp member).resolve_left same)

theorem Inv.getNext_skip (inv : Inv mode n db ⟨.getNext t (i :: todo), vaild, links⟩) {vaild' : Nat → Bool}
    (fewer : ∀ j, vaild' j = true → vaild j = true) (everyone : mode.calm → ∀ j < n, vaild' j = true) :
    Inv mode n db ⟨.getNext t todo, vaild', links⟩ := by
  obtain ⟨valid, reads, small⟩ := inv.control
  exact ⟨⟨valid, reads, fun j member => small j (List.mem_cons_of_mem _ member)⟩,
    fun j bound alive => inv.links j bound (fewer j alive), everyone⟩

theorem Inv.getNext_ask (inv : Inv mode n db ⟨.getNext t (i :: todo), vaild, links⟩)
    (present : vaild i = true) :
    Inv mode n db ⟨.wait t (.get todo) (Wait.start (fun j => decide (j = i)) 1), vaild,
      Function.update links i ((links i).connect.send (Phase.message t (.get todo)))⟩ := by
  obtain ⟨valid, reads, small⟩ := inv.control
  have bound := small i (by simp)
  refine ⟨⟨valid, reads, ?_, fun j member => small j (List.mem_cons_of_mem _ member), ?_⟩, ?_, inv.everyone⟩
  · refine { sockets := ?_, monitored := fun _ => id, sorted := List.Pairwise.nil, ready := ?_, alive := ?_,
             positive := Int.le_refl 0, all := fun _ => id, first := fun some => absurd rfl some }
    · intro j socket
      have same : j = i := of_decide_eq_true socket
      subst same
      exact ⟨bound, present⟩
    · exact fun j member => absurd member (by simp [Wait.start])
    · simp only [Wait.start, tally_single bound]
      rfl
  · exact fun _ _ => ⟨i, bound, decide_eq_true rfl⟩
  · intro j small before
    have quiet : Quiet mode db (links j) := inv.links j small before
    by_cases same : j = i
    · subst same
      simp only [Function.update_self]
      exact ⟨fun _ => quiet.sendGet, fun gone => absurd gone (by simp [Wait.start])⟩
    · simp only [Function.update_of_ne same]
      exact ⟨fun socket => absurd socket (by simp [Wait.start, same]), fun _ => quiet⟩

theorem Inv.connect (inv : Inv mode n db c) {ok : Bool} (allowed : Allowed mode n c (.connect ok))
    (step : next n c (.connect ok) = some c') : Inv mode n db c' := by
  cases next_branch step with
  | connectGone gone =>
    obtain ⟨_, _, sockets, _⟩ := inv.control
    refine inv.connect_skip (fun j alive => ⟨?_, alive⟩) sockets inv.everyone
    rintro rfl
    rw [gone] at alive
    cases alive
  | connected present => exact inv.connect_done present
  | connectFailed =>
    obtain ⟨_, _, sockets, _, _, unconnected⟩ := inv.control
    exact inv.connect_skip (fun j => of_update_false) (sockets.drop (unconnected _ (by simp)).2)
      fun calm => absurd (allowed calm) Bool.false_ne_true
  | getGone => exact inv.getNext_skip (fun _ => id) inv.everyone
  | asked present => exact inv.getNext_ask present
  | getFailed =>
    exact inv.getNext_skip (fun j alive => (of_update_false alive).2)
      fun calm => absurd (allowed calm) Bool.false_ne_true

theorem SendLink.sent {phase : Phase} {l : Link} (notLater : i ∉ todo)
    (link : SendLink mode db t (i :: todo) i l phase) :
    SendLink mode db t todo i (l.send (phase.message t)) phase := by
  cases phase with
  | prepare => exact ⟨fun later => absurd later notLater, fun _ => (link.1 (by simp)).sendRequest⟩
  | decision commit => exact ⟨fun later => absurd later notLater, fun _ => (link.1 (by simp)).sendDecision⟩
  | get => exact link.elim

theorem SendLink.others {phase : Phase} {j : Nat} {l : Link} (other : j ≠ i)
    (link : SendLink mode db t (i :: todo) j l phase) : SendLink mode db t todo j l phase := by
  have fewer : j ∉ todo → j ∉ i :: todo := fun done member => done ((List.mem_cons.mp member).resolve_left other)
  cases phase with
  | prepare => exact ⟨fun later => link.1 (List.mem_cons_of_mem _ later), fun done => link.2 (fewer done)⟩
  | decision => exact ⟨fun later => link.1 (List.mem_cons_of_mem _ later), fun done => link.2 (fewer done)⟩
  | get => exact link.elim

theorem Inv.send (inv : Inv mode n db c) (step : next n c .send = some c') : Inv mode n db c' := by
  cases next_branch step with
  | @send t phase participantSocket alive i todo vaild links =>
    obtain ⟨valid, writes, sockets, counted, nodup, notGet⟩ := inv.control
    obtain ⟨notLater, nodup⟩ := List.nodup_cons.mp nodup
    refine ⟨⟨valid, writes, sockets, counted, nodup, notGet⟩, ?_, inv.everyone⟩
    intro j bound alive
    obtain ⟨socket, link⟩ := inv.links j bound alive
    refine ⟨socket, ?_⟩
    by_cases same : j = i
    · subst same
      simp only [if_pos socket, Function.update_self]
      exact link.sent notLater
    · split
      · simp only [Function.update_of_ne same]
        exact link.others same
      · exact link.others same

end connect

end CloudLab.TwoPC
