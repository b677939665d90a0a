import CloudLab.Raft.Dispatch
import CloudLab.Raft.Replication

/-! What the leader does with a client request its parser rejects. The error is sent, but
the dispatch below it runs as if the request had been accepted. -/

namespace CloudLab.Raft
open Text

def answers (sent : List Sent) : List Str :=
  sent.filterMap fun
    | .reply data => some data
    | .toNode _ _ => none

def receive (cluster : Cluster) : Sent → Cluster
  | .reply _ => cluster
  | .toNode nodeid message =>
      match HandleSockfd (cluster nodeid) (fun _ => true) message with
      | some handled => Function.update cluster nodeid handled.1
      | none => cluster

/-- The client gets the error and nothing else, no index is out of range, nothing goes to
another node, and every store is as before once all messages are processed. -/
def ChangesNothing (leader : Nat) (cluster : Cluster) (reachable : Nat → Bool) (request : Str) : Prop :=
  ∃ after sent, handleClientRequest (cluster leader) reachable request = some (after, sent) ∧
    answers sent = [getClinetERROR] ∧
    (∀ nodeid message, Sent.toNode nodeid message ∉ sent) ∧
    ∀ i, (sent.foldl receive (Function.update cluster leader after) i).kvdb = (cluster i).kvdb

@[simp] theorem answers_nil : answers [] = [] := rfl

@[simp] theorem answers_reply (data : Str) (sent : List Sent) :
    answers (.reply data :: sent) = data :: answers sent := rfl

@[simp] theorem answers_append (first second : List Sent) :
    answers (first ++ second) = answers first ++ answers second :=
  List.filterMap_append

@[simp] theorem answers_sendToOthers (node : Node) (reachable : Nat → Bool) (message : Str) :
    answers (sendToOthers node reachable message) = [] := by
  unfold answers sendToOthers
  rw [List.filterMap_map]
  apply List.filterMap_eq_nil_iff.mpr
  intro nodeid _
  rfl

theorem rejected_answers {node after : Node} {request : Str} {reachable : Nat → Bool} {sent : List Sent}
    (leads : node.currentState = .Leader) (rejected : (parseClinetMessage request).1 = false)
    (result : handleClientRequest node reachable request = some (after, sent)) :
    ∃ second, answers sent = [getClinetERROR, second] := by
  have error : rejection request = [.reply getClinetERROR] := by
    unfold rejection
    rw [rejected]
    rfl
  cases handleClientRequest_cases result with
  | redirected follows => exact absurd leads follows
  | read key =>
    rw [error]
    exact ⟨_, rfl⟩
  | executed forwarded committed _ sending =>
    obtain ⟨message, _, built⟩ := Option.bind_eq_some_iff.mp sending
    cases built
    rw [error]
    exact ⟨committed.2, by simp⟩

/-- A rejected request never changes nothing: either an index of `parse_msg` is out of
range, or the client is answered twice. -/
theorem rejected_changes (n leader : Nat) (cluster : Cluster) (reachable : Nat → Bool) (request : Str)
    (leads : Leads n leader (cluster leader)) (_client : '$' ∈ request)
    (rejected : (parseClinetMessage request).1 = false) :
    ¬ ChangesNothing leader cluster reachable request := by
  intro nothing
  obtain ⟨after, sent, result, once, _⟩ := nothing
  obtain ⟨second, twice⟩ := rejected_answers leads.state rejected result
  rw [once] at twice
  cases twice

def holding : Cluster := fun i =>
  { pair i with kvdb := Function.update (pair i).kvdb "k".toList (some "v ".toList) }

theorem holding_leads : Leads 2 0 (holding 0) := ⟨by decide, rfl, rfl, rfl⟩

/-- `PING a k`: the follower deletes `k`. -/
theorem ping_changes :
    let ping := "*3\r\n$4\r\nPING\r\n$1\r\na\r\n$1\r\nk\r\n".toList
    '$' ∈ ping ∧ (parseClinetMessage ping).1 = false ∧
      ¬ ChangesNothing 0 holding (fun _ => true) ping := by
  intro ping
  refine ⟨by decide, by decide, ?_⟩
  intro nothing
  obtain ⟨after, sent, result, _, _, same⟩ := nothing
  have stored : (handleClientRequest (holding 0) (fun _ => true) ping).map (fun handled =>
      (handled.2.foldl receive (Function.update holding 0 handled.1) 1).kvdb "k".toList) =
        some none := by decide
  rw [result] at stored
  simp only [Option.map_some, Option.some.injEq] at stored
  rw [same 1] at stored
  exact absurd stored (by decide)

theorem rejected_changes_get :
    ¬ ChangesNothing 0 holding (fun _ => true) "*1\r\n$3\r\nGET\r\n".toList :=
  rejected_changes 2 0 holding (fun _ => true) "*1\r\n$3\r\nGET\r\n".toList holding_leads
    (by decide) (by decide)

end CloudLab.Raft
