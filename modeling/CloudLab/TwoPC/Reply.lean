import CloudLab.TwoPC.Restart

/-! What the client's reply tells of the participants, when answers are read one by one
but may come at any time. -/

namespace CloudLab.TwoPC
open Text ByteStream

/-- The coordinator reads each answer separately. -/
def AnswersApart (c : Cluster) : Event → Prop
  | .reply k => c.ReadsExactly k
  | _ => True

instance (c : Cluster) : (event : Event) → Decidable (AnswersApart c event)
  | .reply k => inferInstanceAs (Decidable (c.ReadsExactly k))
  | .request _ _ | .connect _ | .send | .proceed | .select _ | .timeout | .hangup _ | .read _ _ | .eof _
  | .lose _ _ _ | .stop _ | .kill => isTrue trivial

def Mode.late : Mode := { pend := False, calm := False, whole := True, calm_whole := fun _ => trivial }

theorem AnswersApart.allowed {n : Nat} {c : Cluster} {event : Event} (apart : AnswersApart c event)
    (one : OneByOne n c event) (alive : event ≠ .kill) : Allowed .late n c event := by
  cases event with
  | reply k =>
    intro t phase w i ready control queue
    refine ⟨fun _ => ?_, (one.allowed alive t phase w i ready control queue).2⟩
    have exact : c.ReadsExactly k := apart
    simpa only [Cluster.ReadsExactly, control, queue] using exact
  | request => exact False.elim
  | connect => exact False.elim
  | read i k => exact fun bound vaild => ⟨one bound vaild, False.elim⟩
  | timeout => exact id
  | hangup => exact id
  | lose => exact id
  | stop => exact id
  | kill => exact absurd rfl alive
  | send => trivial
  | proceed => trivial
  | select => trivial
  | eof => trivial

/-- In a run where messages are read one by one, `+OK` and `:n` mean that every
participant left has committed, and `-ERROR` that none has. -/
theorem reply_outcome (n : Nat) {events : List Event} {c : Cluster}
    (run : Run (fun c event c' => next n c event = some c' ∧ event ≠ .kill ∧ AnswersApart c event ∧
      OneByOne n c event) Cluster.init events c)
    {t : Txn} {reply : Str} (answered : c.control = .idle (some (t, reply)))
    (writes : t.split_message[0]? = some SET ∨ t.split_message[0]? = some DEL) :
    (Succeeded t reply → ∀ i < n, c.vaild i = true → t.id ∈ (c.links i).site.commits) ∧
      (reply = getClientERRORMsg → ∀ i < n, c.vaild i = true → t.id ∉ (c.links i).site.commits) := by
  have inv : ∃ db, Inv .late n db c := by
    refine run.invariant (fun c => ∃ db, Inv .late n db c) ?_ ⟨_, Inv.init .late n⟩
    rintro c event c' inv ⟨step, alive, apart, one⟩
    exact Inv.next inv (apart.allowed one alive) step
  obtain ⟨db, inv⟩ := inv
  have notGet : t.split_message[0]? ≠ some GET := by
    rcases writes with set | del
    · simp [set]
    · simp [del]
  have outcome : ∀ i < n, c.vaild i = true → Outcome .late db t reply (c.links i) := by
    intro i bound vaild
    have link := inv.links i bound vaild
    rw [answered] at link
    exact link.2 t reply rfl notGet
  constructor
  · intro succeeded i bound vaild
    obtain ⟨_, _, _, _, committed⟩ := (outcome i bound vaild).done succeeded.ne_error.1
    exact committed id
  · intro error i bound vaild
    rw [(outcome i bound vaild).failed error id trivial]
    simp

theorem reply_outcome_set : ∃ c : Cluster, c.vaild 1 = true ∧ 0 ∈ (c.links 1).site.commits := by
  have result : (execute (fun c event =>
        if event ≠ .kill ∧ AnswersApart c event ∧ OneByOne 2 c event then next 2 c event else none) Cluster.init
      (sendRequests 2 setWord ++ readMessage 2 (requestMsg setWord) ++ takeReplies 2 (preparedMsg setWord) ++
        sendDecisions 2 ++ .timeout :: readMessage 2 (decisionMsg setWord true) ++
        takeReplies 2 (getClusterDoneMsg 0 SET []))).any (fun c =>
          c.replied setWord getClientOKMsg && c.vaild 1) = true := by
    decide +kernel
  obtain ⟨c, result, facts⟩ := (Option.any_eq_true _ _).mp result
  rw [Bool.and_eq_true] at facts
  obtain ⟨replied, vaild⟩ := facts
  have outcome := reply_outcome 2 (run_of_checked result) (c.replied_idle replied) (Or.inl rfl)
  exact ⟨c, vaild, outcome.1 (Or.inl ⟨rfl, rfl⟩) 1 (by decide) vaild⟩

/-- The request is sent twice and answered twice, and the second answer is taken for an
acknowledgement of the COMMIT. -/
def answeredTwice : List Event :=
  sendRequests 1 setWord ++ .timeout :: readMessage 1 (requestMsg setWord) ++ readMessage 1 (requestMsg setWord) ++
    takeReplies 1 (preparedMsg setWord) ++ sendDecisions 1 ++ takeReplies 1 (preparedMsg setWord)

/-- The client is told `+OK` while the participant has not seen the COMMIT. -/
theorem reply_answered_twice : ¬ ∀ (n : Nat) (events : List Event) (c : Cluster) (t : Txn) (reply : Str),
    Run (fun c event c' => next n c event = some c' ∧ event ≠ .kill ∧ AnswersApart c event)
      Cluster.init events c →
    c.control = .idle (some (t, reply)) → (t.split_message[0]? = some SET ∨ t.split_message[0]? = some DEL) →
    (Succeeded t reply → ∀ i < n, c.vaild i = true → t.id ∈ (c.links i).site.commits) ∧
      (reply = getClientERRORMsg → ∀ i < n, c.vaild i = true → t.id ∉ (c.links i).site.commits) := by
  intro claim
  have result : (execute (fun c event => if event ≠ .kill ∧ AnswersApart c event then next 1 c event else none)
      Cluster.init answeredTwice).any (fun c =>
        c.replied setWord getClientOKMsg && decide (c.vaild 0 = true ∧ (c.links 0).site.commits = [])) = true := by
    decide +kernel
  obtain ⟨c, result, facts⟩ := (Option.any_eq_true _ _).mp result
  rw [Bool.and_eq_true, decide_eq_true_eq] at facts
  obtain ⟨replied, vaild, none⟩ := facts
  have told := (claim 1 answeredTwice c _ _ (run_of_checked result) (c.replied_idle replied) (Or.inl rfl)).1
    (Or.inl ⟨rfl, rfl⟩) 0 (by decide) vaild
  rw [none] at told
  cases told

end CloudLab.TwoPC
