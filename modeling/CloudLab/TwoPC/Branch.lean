import CloudLab.TwoPC.Coordinator

/-! What a step of the system can be: one case for each branch of `next`, with the state that
it finds and the state that it leaves. -/

namespace CloudLab.TwoPC
open Text ByteStream

/-- The record of commits is emptied when a request is taken. -/
def Link.clear (l : Link) : Link := { l with site := { l.site with commits := [] } }

inductive Branch (n : Nat) : Cluster → Event → Cluster → Prop where
  | refused {last vaild links data id fields} (range : 0 ≤ id ∧ id ≤ 9999)
      (parsed : parseClientMsg data = some (false, fields)) :
      Branch n ⟨.idle last, vaild, links⟩ (.request data id)
        ⟨.idle (some (⟨id, fields⟩, getClientERRORMsg)), vaild, fun i => (links i).clear⟩
  | get {last vaild links data id fields} (range : 0 ≤ id ∧ id ≤ 9999)
      (parsed : parseClientMsg data = some (true, fields)) (reads : fields[0]? = some GET) :
      Branch n ⟨.idle last, vaild, links⟩ (.request data id)
        ⟨.getNext ⟨id, fields⟩ (List.range n), vaild, fun i => (links i).clear⟩
  | write {last vaild links data id fields} (range : 0 ≤ id ∧ id ≤ 9999)
      (parsed : parseClientMsg data = some (true, fields)) (writes : fields[0]? ≠ some GET) :
      Branch n ⟨.idle last, vaild, links⟩ (.request data id)
        ⟨.connectAll ⟨id, fields⟩ (fun _ => false) 0 (List.range n), vaild, fun i => (links i).clear⟩
  | connectGone {t participantSocket alive i todo vaild links ok} (gone : vaild i = false) :
      Branch n ⟨.connectAll t participantSocket alive (i :: todo), vaild, links⟩ (.connect ok)
        ⟨.connectAll t participantSocket alive todo, vaild, links⟩
  | connected {t participantSocket alive i todo vaild links} (present : vaild i = true)
      (running : (links i).running = true) :
      Branch n ⟨.connectAll t participantSocket alive (i :: todo), vaild, links⟩ (.connect true)
        ⟨.connectAll t (Function.update participantSocket i true) (alive + 1) todo, vaild,
          Function.update links i (links i).connect⟩
  | connectFailed {t participantSocket alive i todo vaild links} (present : vaild i = true) :
      Branch n ⟨.connectAll t participantSocket alive (i :: todo), vaild, links⟩ (.connect false)
        ⟨.connectAll t participantSocket alive todo, Function.update vaild i false, links⟩
  | getGone {t i todo vaild links ok} (gone : vaild i = false) :
      Branch n ⟨.getNext t (i :: todo), vaild, links⟩ (.connect ok) ⟨.getNext t todo, vaild, links⟩
  | asked {t i todo vaild links} (present : vaild i = true) (running : (links i).running = true) :
      Branch n ⟨.getNext t (i :: todo), vaild, links⟩ (.connect true)
        ⟨.wait t (.get todo) (Wait.start (fun j => decide (j = i)) 1), vaild,
          Function.update links i ((links i).connect.send (Phase.message t (.get todo)))⟩
  | getFailed {t i todo vaild links} (present : vaild i = true) :
      Branch n ⟨.getNext t (i :: todo), vaild, links⟩ (.connect false)
        ⟨.getNext t todo, Function.update vaild i false, links⟩
  | send {t phase participantSocket alive i todo vaild links} :
      Branch n ⟨.sendAll t phase participantSocket alive (i :: todo), vaild, links⟩ .send
        ⟨.sendAll t phase participantSocket alive todo, vaild,
          if participantSocket i then Function.update links i ((links i).send (phase.message t)) else links⟩
  | nobody {t participantSocket alive vaild links} (nobody : alive = 0) :
      Branch n ⟨.connectAll t participantSocket alive [], vaild, links⟩ .proceed
        ⟨.idle (some (t, getClientERRORMsg)), vaild, links⟩
  | prepare {t participantSocket alive vaild links} (somebody : alive ≠ 0) :
      Branch n ⟨.connectAll t participantSocket alive [], vaild, links⟩ .proceed
        ⟨.sendAll t .prepare participantSocket alive (List.range n), vaild, links⟩
  | startWait {t phase participantSocket alive vaild links} :
      Branch n ⟨.sendAll t phase participantSocket alive [], vaild, links⟩ .proceed
        ⟨.wait t phase (Wait.start participantSocket alive), vaild, links⟩
  | decided {t w vaild links} (done : ¬ w.GoesOn) :
      Branch n ⟨.wait t .prepare w, vaild, links⟩ .proceed
        (Cluster.decideAll n ⟨.wait t .prepare w, vaild, links⟩ t w)
  | finish {t phase w vaild links} (done : ¬ w.GoesOn) (voted : phase ≠ .prepare) :
      Branch n ⟨.wait t phase w, vaild, links⟩ .proceed
        (Cluster.finishAll ⟨.wait t phase w, vaild, links⟩ t phase w)
  | exhausted {t vaild links} :
      Branch n ⟨.getNext t [], vaild, links⟩ .proceed ⟨.idle (some (t, getClientERRORMsg)), vaild, links⟩
  | select {t phase w vaild links ready} (able : w.ready = [] ∧ w.GoesOn ∧ ready ≠ []) (sorted : ready.Pairwise (· < ·))
      (reported : ∀ i ∈ ready, i < n ∧ w.waitedFor i ∧ (links i).readable) :
      Branch n ⟨.wait t phase w, vaild, links⟩ (.select ready)
        ⟨.wait t phase { w with ready := ready, timeout := 0 }, vaild, links⟩
  | giveUp {t phase w vaild links} (queue : w.ready = []) (goes : w.GoesOn) (third : w.timeout = 3) :
      Branch n ⟨.wait t phase w, vaild, links⟩ .timeout
        ⟨.wait t phase (w.giveUp n), fun i => vaild i && decide (i ∉ (List.range n).filter w.waitedFor),
          fun i => if i ∈ (List.range n).filter w.waitedFor then (links i).close else links i⟩
  | resend {t phase w vaild links} (queue : w.ready = []) (goes : w.GoesOn) (early : w.timeout ≠ 3) :
      Branch n ⟨.wait t phase w, vaild, links⟩ .timeout
        ⟨.wait t phase { w with timeout := w.timeout + 1 }, vaild,
          fun i => if i < n ∧ w.waitedFor i then (links i).send (phase.message t) else links i⟩
  | prepared {t w w' vaild links i ready k} (queue : w.ready = i :: ready)
      (whole : ¬ (k = 0 ∨ size (links i).inbox < k))
      (recorded : Wait.recordPrepared { w with ready := ready } i (readBytes k (links i).inbox).1 = some w') :
      Branch n ⟨.wait t .prepare w, vaild, links⟩ (.reply k)
        ⟨.wait t .prepare w', vaild,
          Function.update links i { links i with inbox := (readBytes k (links i).inbox).2 }⟩
  | done {t phase w w' vaild links i ready k} (voted : phase ≠ .prepare) (queue : w.ready = i :: ready)
      (whole : ¬ (k = 0 ∨ size (links i).inbox < k))
      (recorded : Wait.recordDone { w with ready := ready } i (readBytes k (links i).inbox).1 = some w') :
      Branch n ⟨.wait t phase w, vaild, links⟩ (.reply k)
        ⟨.wait t phase w', vaild,
          Function.update links i { links i with inbox := (readBytes k (links i).inbox).2 }.close⟩
  | reconnected {t phase w vaild links i ready} (queue : w.ready = i :: ready) (hup : (links i).hup = true)
      (running : (links i).running = true) :
      Branch n ⟨.wait t phase w, vaild, links⟩ (.hangup true)
        ⟨.wait t phase { w with ready := ready, allFdSet := Function.update w.allFdSet i true }, vaild,
          Function.update links i ((links i).close.connect.send (phase.message t))⟩
  | removed {t phase w vaild links i ready} (queue : w.ready = i :: ready) (hup : (links i).hup = true) :
      Branch n ⟨.wait t phase w, vaild, links⟩ (.hangup false)
        ⟨.wait t phase (Wait.remove { w with ready := ready } i), Function.update vaild i false,
          Function.update links i (links i).close⟩
  | read {c i k l} (turn : (c.links i).read k = some l) : Branch n c (.read i k) (c.setLink i l)
  | eof {c i l} (ended : (c.links i).eof = some l) : Branch n c (.eof i) (c.setLink i l)
  | lose {c i k j} : Branch n c (.lose i k j) (c.setLink i ((c.links i).lose k j))
  | stop {c i} : Branch n c (.stop i) (c.setLink i (c.links i).stop)
  | kill {c} : Branch n c .kill c.restart

section branch
variable {n : Nat} {c c' : Cluster}

theorem request_branch {data : Str} {id : Int} (step : next n c (.request data id) = some c') :
    Branch n c (.request data id) c' := by
  obtain ⟨control, vaild, links⟩ := c
  cases control with
  | idle last =>
    simp only [next] at step
    split at step
    · next range =>
      obtain ⟨⟨ok, fields⟩, parsed, step⟩ := Option.bind_eq_some_iff.mp step
      cases ok with
      | false =>
        cases step
        exact .refused range parsed
      | true =>
        simp only [Bool.true_eq_false, if_false] at step
        split at step
        · next reads =>
          cases step
          exact .get range parsed reads
        · next writes =>
          cases step
          exact .write range parsed writes
    · cases step
  | _ => cases step

theorem connect_branch {ok : Bool} (step : next n c (.connect ok) = some c') :
    Branch n c (.connect ok) c' := by
  obtain ⟨control, vaild, links⟩ := c
  cases control with
  | connectAll t participantSocket alive todo =>
    cases todo with
    | nil => cases step
    | cons i todo =>
      simp only [next] at step
      cases present : vaild i with
      | false =>
        rw [if_pos present] at step
        cases step
        exact .connectGone present
      | true =>
        rw [if_neg (by simp [present])] at step
        cases ok with
        | false =>
          cases step
          exact .connectFailed present
        | true =>
          simp only [if_true] at step
          split at step
          · next running =>
            cases step
            exact .connected present running
          · cases step
  | getNext t todo =>
    cases todo with
    | nil => cases step
    | cons i todo =>
      simp only [next] at step
      cases present : vaild i with
      | false =>
        rw [if_pos present] at step
        cases step
        exact .getGone present
      | true =>
        rw [if_neg (by simp [present])] at step
        cases ok with
        | false =>
          cases step
          exact .getFailed present
        | true =>
          simp only [if_true] at step
          split at step
          · next running =>
            cases step
            exact .asked present running
          · cases step
  | _ => cases step

theorem send_branch (step : next n c .send = some c') : Branch n c .send c' := by
  obtain ⟨control, vaild, links⟩ := c
  cases control with
  | sendAll t phase participantSocket alive todo =>
    cases todo with
    | nil => cases step
    | cons i todo =>
      have sent : c' = ⟨.sendAll t phase participantSocket alive todo, vaild,
          if participantSocket i then Function.update links i ((links i).send (phase.message t))
          else links⟩ := by
        rw [← Option.some.inj step]
        split <;> rfl
      rw [sent]
      exact .send
  | _ => cases step

theorem proceed_branch (step : next n c .proceed = some c') : Branch n c .proceed c' := by
  obtain ⟨control, vaild, links⟩ := c
  cases control with
  | connectAll t participantSocket alive todo =>
    cases todo with
    | nil =>
      simp only [next] at step
      split at step
      · next nobody =>
        cases step
        exact .nobody nobody
      · next somebody =>
        cases step
        exact .prepare somebody
    | cons => cases step
  | sendAll t phase participantSocket alive todo =>
    cases todo with
    | nil =>
      cases step
      exact .startWait
    | cons => cases step
  | wait t phase w =>
    simp only [next] at step
    split at step
    · next ended =>
      split at step
      · next vote =>
        subst vote
        cases step
        exact .decided ended.2
      · next voted =>
        cases step
        exact .finish ended.2 voted
    · cases step
  | getNext t todo =>
    cases todo with
    | nil =>
      cases step
      exact .exhausted
    | cons => cases step
  | idle => cases step

theorem select_branch {ready : List Nat} (step : next n c (.select ready) = some c') :
    Branch n c (.select ready) c' := by
  obtain ⟨control, vaild, links⟩ := c
  cases control with
  | wait t phase w =>
    simp only [next] at step
    split at step
    · next able =>
      cases step
      exact .select ⟨able.1, able.2.1, able.2.2.1⟩ able.2.2.2.1 able.2.2.2.2
    · cases step
  | _ => cases step

theorem timeout_branch (step : next n c .timeout = some c') : Branch n c .timeout c' := by
  obtain ⟨control, vaild, links⟩ := c
  cases control with
  | wait t phase w =>
    simp only [next] at step
    split at step
    · next able =>
      simp only [Cluster.onTimeout] at step
      split at step
      · next third =>
        cases step
        exact .giveUp able.1 able.2 third
      · next early =>
        cases step
        exact .resend able.1 able.2 early
    · cases step
  | _ => cases step

theorem reply_branch {k : Nat} (step : next n c (.reply k) = some c') : Branch n c (.reply k) c' := by
  obtain ⟨control, vaild, links⟩ := c
  cases control with
  | wait t phase w =>
    simp only [next] at step
    split at step
    · next i ready queue =>
      simp only [Cluster.onReply] at step
      split at step
      · cases step
      · next whole =>
        cases phase with
        | prepare =>
          obtain ⟨w', recorded, step⟩ := Option.bind_eq_some_iff.mp step
          cases step
          exact .prepared queue whole recorded
        | decision =>
          obtain ⟨w', recorded, step⟩ := Option.bind_eq_some_iff.mp step
          cases step
          exact .done (by simp) queue whole recorded
        | get =>
          obtain ⟨w', recorded, step⟩ := Option.bind_eq_some_iff.mp step
          cases step
          exact .done (by simp) queue whole recorded
    · cases step
  | _ => cases step

theorem hangup_branch {ok : Bool} (step : next n c (.hangup ok) = some c') : Branch n c (.hangup ok) c' := by
  obtain ⟨control, vaild, links⟩ := c
  cases control with
  | wait t phase w =>
    simp only [next] at step
    split at step
    · next i ready queue =>
      split at step
      · next able =>
        cases step
        cases ok with
        | true => exact .reconnected queue able.1 (able.2 rfl)
        | false => exact .removed queue able.1
      · cases step
    · cases step
  | _ => cases step

theorem next_branch {event : Event} (step : next n c event = some c') : Branch n c event c' := by
  cases event with
  | request => exact request_branch step
  | connect => exact connect_branch step
  | send => exact send_branch step
  | proceed => exact proceed_branch step
  | select => exact select_branch step
  | timeout => exact timeout_branch step
  | reply => exact reply_branch step
  | hangup => exact hangup_branch step
  | read i k =>
    obtain ⟨l, turn, rfl⟩ := Option.map_eq_some_iff.mp step
    exact .read turn
  | eof i =>
    obtain ⟨l, ended, rfl⟩ := Option.map_eq_some_iff.mp step
    exact .eof ended
  | lose =>
    cases step
    exact .lose
  | stop =>
    cases step
    exact .stop
  | kill =>
    cases step
    exact .kill

end branch

end CloudLab.TwoPC
