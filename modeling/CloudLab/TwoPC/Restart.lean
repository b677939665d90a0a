import CloudLab.TwoPC.Agreement

/-! Agreement when the coordinator may be killed and started again with nothing but its
configuration, and the participants and connections never fail. -/

namespace CloudLab.TwoPC
open Text ByteStream

def Cluster.ReadsExactly (c : Cluster) (k : Nat) : Prop :=
  match c.control with
  | .wait _ _ w =>
      match w.ready with
      | i :: _ => Exact k (c.links i).inbox
      | [] => True
  | _ => True

instance (k : Nat) : (c : Cluster) → Decidable (c.ReadsExactly k)
  | ⟨.wait _ _ ⟨_, _, _, _, _, _, _, i :: _⟩, _, links⟩ => inferInstanceAs (Decidable (Exact k (links i).inbox))
  | ⟨.wait _ _ ⟨_, _, _, _, _, _, _, []⟩, _, _⟩ => isTrue trivial
  | ⟨.idle _, _, _⟩ | ⟨.connectAll _ _ _ _, _, _⟩ | ⟨.sendAll _ _ _ _ _, _, _⟩ | ⟨.getNext _ _, _, _⟩ =>
    isTrue trivial

def Link.survives (l : Link) (k : Nat) : Bool := (l.read k).all Link.running

/-- Participants never fail, and connections deliver each message whole and in time. -/
def Dependable (n : Nat) (c : Cluster) : Event → Prop
  | .read i k => i < n → (c.links i).ReadsExactly k ∧ (c.links i).survives k = true
  | .reply k => c.ReadsExactly k
  | .connect ok => ok = true
  | .timeout | .hangup _ | .lose _ _ _ | .stop _ => False
  | _ => True

instance (n : Nat) (c : Cluster) : (event : Event) → Decidable (Dependable n c event)
  | .read i k => inferInstanceAs (Decidable (i < n → (c.links i).ReadsExactly k ∧ (c.links i).survives k = true))
  | .reply k => inferInstanceAs (Decidable (c.ReadsExactly k))
  | .connect ok => inferInstanceAs (Decidable (ok = true))
  | .timeout | .hangup _ | .lose _ _ _ | .stop _ => isFalse id
  | .request _ _ | .send | .proceed | .select _ | .eof _ | .kill => isTrue trivial

def Link.leftPending (l : Link) (id : Int) : Bool :=
  (drain Site.serve l.closed l.site).any fun s => decide (s.process.phase = 2 ∧ s.process.id = id)

instance (n : Nat) : (c : Cluster) → Decidable (c.InCommitLoop n)
  | ⟨.sendAll _ (.decision true) participantSocket _ todo, _, _⟩ =>
    inferInstanceAs (Decidable ((∃ i < n, participantSocket i = true ∧ i ∉ todo) ∧
      ∃ i ∈ todo, participantSocket i = true))
  | ⟨.sendAll _ (.decision false) _ _ _, _, _⟩ | ⟨.sendAll _ .prepare _ _ _, _, _⟩
  | ⟨.sendAll _ (.get _) _ _ _, _, _⟩ | ⟨.idle _, _, _⟩ | ⟨.connectAll _ _ _ _, _, _⟩ | ⟨.wait _ _ _, _, _⟩
  | ⟨.getNext _ _, _, _⟩ => isFalse id

/-- The coordinator is not killed between two sends of the COMMIT loop, and no request is
given the id of a transaction that a participant was left pending in. -/
def Undisturbed (n : Nat) (c : Cluster) : Event → Prop
  | .kill => ¬ c.InCommitLoop n
  | .request _ id => ∀ i < n, (c.links i).leftPending id = false
  | _ => True

instance (n : Nat) (c : Cluster) : (event : Event) → Decidable (Undisturbed n c event)
  | .kill => inferInstanceAs (Decidable (¬ c.InCommitLoop n))
  | .request _ id => inferInstanceAs (Decidable (∀ i < n, (c.links i).leftPending id = false))
  | .connect _ | .send | .proceed | .select _ | .timeout | .reply _ | .hangup _ | .read _ _ | .eof _
  | .lose _ _ _ | .stop _ => isTrue trivial

def Mode.restarting : Mode := { pend := True, calm := True, whole := True, calm_whole := id }

theorem Dependable.allowed {n : Nat} {c : Cluster} {event : Event} (dependable : Dependable n c event)
    (undisturbed : Undisturbed n c event) : Allowed .restarting n c event := by
  cases event with
  | request data id =>
    intro _ i bound s end_ pending same
    have free : (c.links i).leftPending id = false := undisturbed i bound
    simp [Link.leftPending, end_, pending, same] at free
  | connect ok => exact fun _ => dependable
  | reply k =>
    intro t phase w i ready control queue
    refine ⟨fun _ => ?_, fun strict => absurd trivial strict⟩
    have exact : c.ReadsExactly k := dependable
    simpa only [Cluster.ReadsExactly, control, queue] using exact
  | read i k =>
    intro bound _
    obtain ⟨exact, survives⟩ := dependable bound
    refine ⟨exact, fun _ l' step => ?_⟩
    simpa [Link.survives, step] using survives
  | timeout => exact absurd dependable id
  | hangup => exact absurd dependable id
  | lose => exact absurd dependable id
  | stop => exact absurd dependable id
  | kill => exact ⟨trivial, trivial, undisturbed⟩
  | send => trivial
  | proceed => trivial
  | select => trivial
  | eof => trivial

def Succeeded (t : Txn) (reply : Str) : Prop :=
  (t.split_message[0]? = some SET ∧ reply = getClientOKMsg) ∨
    (t.split_message[0]? = some DEL ∧ ∃ number, reply = ':' :: number ++ crlf)

theorem Succeeded.ne_error {t : Txn} {reply : Str} (succeeded : Succeeded t reply) :
    reply ≠ getClientERRORMsg ∧ t.split_message[0]? ≠ some GET := by
  rcases succeeded with ⟨set, rfl⟩ | ⟨del, number, rfl⟩
  · exact ⟨by decide, by simp [set]⟩
  · refine ⟨?_, by simp [del]⟩
    intro equal
    have error : getClientERRORMsg.head? = some '-' := rfl
    rw [← equal, List.cons_append, List.head?_cons, Option.some.injEq] at error
    exact absurd error (by decide)

/-- In a run without such a kill, all participants agree when a SET or DEL is answered. -/
theorem agreement_restart (n : Nat) {events : List Event} {c : Cluster}
    (run : Run (fun c event c' => next n c event = some c' ∧ Dependable n c event ∧ Undisturbed n c event)
      Cluster.init events c)
    {t : Txn} {reply : Str} (answered : c.control = .idle (some (t, reply))) (succeeded : Succeeded t reply) :
    ∀ i < n, ∀ j < n, (c.links i).site.process.db = (c.links j).site.process.db := by
  have inv : ∃ db, Inv .restarting n db c := by
    refine run.invariant (fun c => ∃ db, Inv .restarting n db c) ?_ ⟨_, Inv.init .restarting n⟩
    rintro c event c' inv ⟨step, dependable, undisturbed⟩
    exact Inv.next inv (dependable.allowed undisturbed) step
  obtain ⟨db, inv⟩ := inv
  obtain ⟨notError, notGet⟩ := succeeded.ne_error
  have holds : ∀ i < n, (c.links i).site.process.db = db := by
    intro i bound
    have link := inv.links i bound (inv.everyone trivial i bound)
    rw [answered] at link
    obtain ⟨_, _, _, store, _⟩ := (link.2 t reply rfl notGet).done notError
    exact store
  intro i small j bound
  rw [holds i small, holds j bound]

def delWord : Txn := { id := 2, split_message := [DEL, DEL] }

/-- The coordinator is killed when both participants are prepared to delete the word, and the next
transaction makes them roll back. -/
def killedPrepared : List Event :=
  wholeTransaction 2 setWord (getClusterDoneMsg 0 SET []) ++ sendRequests 2 delWord ++
    readMessage 2 (requestMsg delWord) ++ [.kill, .eof 0, .eof 1] ++ wholeTransaction 2 delOther doneNone

theorem agreement_restart_prepared : ∃ c : Cluster, (c.links 1).site.process.db DEL = some "1".toList ∧
    ∀ i < 2, ∀ j < 2, (c.links i).site.process.db = (c.links j).site.process.db := by
  have result : (execute (fun c event =>
        if Dependable 2 c event ∧ Undisturbed 2 c event then next 2 c event else none) Cluster.init
      killedPrepared).any (fun c => c.replied delOther (':' :: "0".toList ++ crlf) &&
        decide ((c.links 1).site.process.db DEL = some "1".toList)) = true := by
    decide +kernel
  obtain ⟨c, result, facts⟩ := (Option.any_eq_true _ _).mp result
  rw [Bool.and_eq_true, decide_eq_true_eq] at facts
  obtain ⟨replied, stored⟩ := facts
  exact ⟨c, stored, agreement_restart 2 (run_of_checked result) (c.replied_idle replied)
    (Or.inr ⟨rfl, _, rfl⟩)⟩

/-- The coordinator is killed when one participant has been sent COMMIT, and the next
transaction makes the other one roll back. -/
def killedBetween : List Event :=
  sendRequests 2 setWord ++ readMessage 2 (requestMsg setWord) ++ takeReplies 2 (preparedMsg setWord) ++
    [.send, .kill, .read 0 (decisionMsg setWord true).length, .eof 1] ++ wholeTransaction 2 delOther doneNone

/-- The participants disagree after it, though the last request has succeeded. -/
theorem agreement_killed_between : ¬ ∀ (n : Nat) (events : List Event) (c : Cluster) (t : Txn) (reply : Str),
    2 ≤ n → Run (fun c event c' => next n c event = some c' ∧ Dependable n c event) Cluster.init events c →
    c.control = .idle (some (t, reply)) → Succeeded t reply →
    ∀ i < n, ∀ j < n, (c.links i).site.process.db = (c.links j).site.process.db := by
  intro claim
  have result : (execute (fun c event => if Dependable 2 c event then next 2 c event else none)
      Cluster.init killedBetween).any (fun c =>
        c.replied delOther (':' :: "0".toList ++ crlf) && decide ((c.links 0).site.process.db DEL ≠ none ∧
          (c.links 1).site.process.db DEL = none)) = true := by
    decide +kernel
  obtain ⟨c, result, facts⟩ := (Option.any_eq_true _ _).mp result
  rw [Bool.and_eq_true, decide_eq_true_eq] at facts
  obtain ⟨replied, committed, rolledBack⟩ := facts
  have agree := claim 2 killedBetween c _ _ (Nat.le_refl 2) (run_of_checked result) (c.replied_idle replied)
    (Or.inr ⟨rfl, _, rfl⟩)
  rw [← agree 0 (by decide) 1 (by decide)] at rolledBack
  exact committed rolledBack

end CloudLab.TwoPC
