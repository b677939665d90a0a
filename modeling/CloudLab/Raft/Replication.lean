import CloudLab.Library.Run
import CloudLab.Raft.Node

/-! Replication of the leader's writes: what the followers' stores become while the
leader serves requests, and which nodes a write reaches. -/

namespace CloudLab.Raft
open Text

abbrev Cluster := Nat → Node

def deliver (cluster : Cluster) : Sent → Cluster
  | .reply _ => cluster
  | .toNode nodeid message =>
      Function.update cluster nodeid
        { cluster nodeid with kvdb := handleCommitRequest (cluster nodeid).kvdb message }

/-- One client request at the leader, with every message delivered in order. -/
def replicate (leader : Nat) (cluster : Cluster) (request : Str) : Option Cluster := do
  let handled ← handleClientRequest (cluster leader) (fun _ => true) request
  some (handled.2.foldl deliver (Function.update cluster leader handled.1))

def InStep (n leader : Nat) (cluster : Cluster) : Prop :=
  ∀ i < n, (cluster i).kvdb = (cluster leader).kvdb

/-- The followers' effect: they never see the first token after the command. -/
def followerStore (kvdb : Kvdb) (command : Str) (rest : List Str) : Kvdb :=
  if command = SET then Function.update kvdb (rest.headD []) (some (spaced rest.tail))
  else rest.foldl (fun kvdb key => Function.update kvdb key none) kvdb

/-- Both effects coincide on this store: a SET writes a value that its key holds already
and its first value token names a key that already holds the other tokens, or the first
key of a DEL is absent or listed again. -/
def KeepsPace (kvdb : Kvdb) (parse_msg : List Str) : Prop :=
  match parse_msg with
  | command :: key :: rest =>
      if command = SET then
        kvdb key = some (spaced rest) ∧ kvdb (rest.headD []) = some (spaced rest.tail)
      else kvdb key = none ∨ key ∈ rest
  | _ => True

instance (kvdb : Kvdb) : (parse_msg : List Str) → Decidable (KeepsPace kvdb parse_msg)
  | command :: key :: rest =>
    inferInstanceAs (Decidable (if command = SET then kvdb key = some (spaced rest) ∧
      kvdb (rest.headD []) = some (spaced rest.tail) else kvdb key = none ∨ key ∈ rest))
  | [_] => .isTrue trivial
  | [] => .isTrue trivial

theorem foldl_erase (keys : List Str) (kvdb : Kvdb) (k : Str) :
    keys.foldl (fun kvdb key => Function.update kvdb key none) kvdb k =
      if k ∈ keys then none else kvdb k := by
  induction keys generalizing kvdb with
  | nil => simp
  | cons key keys ih =>
    rw [List.foldl_cons, ih]
    by_cases later : k ∈ keys
    · simp [later]
    · by_cases same : k = key
      · simp [same]
      · simp [later, same]

theorem foldl_deleteCounted (keys : List Str) (state : Kvdb × Nat) :
    (keys.foldl deleteCounted state).1 =
      keys.foldl (fun kvdb key => Function.update kvdb key none) state.1 := by
  induction keys generalizing state with
  | nil => rfl
  | cons key keys ih =>
    rw [List.foldl_cons, List.foldl_cons, ih]
    by_cases absent : state.1 key = none
    · have same : Function.update state.1 key none = state.1 := by
        rw [← absent]
        exact Function.update_eq_self key state.1
      simp only [deleteCounted, if_pos absent, same]
    · simp only [deleteCounted, if_neg absent]

theorem spaced_cons_ne (token : Str) (tokens : List Str) : spaced (token :: tokens) ≠ spaced tokens := by
  intro same
  have lengths := congrArg List.length same
  rw [spaced_cons, List.length_append, List.length_cons] at lengths
  omega

theorem stores_agree_iff {kvdb : Kvdb} {command first : Str} {rest : List Str}
    (tokens : ∀ token ∈ command :: first :: rest, Token token) :
    leaderStore kvdb command first rest = followerStore kvdb command rest ↔
      KeepsPace kvdb (command :: first :: rest) := by
  by_cases set : command = SET
  · simp only [leaderStore, followerStore, KeepsPace, if_pos set]
    have differs : first ≠ rest.headD [] ∨ spaced rest ≠ spaced rest.tail := by
      cases rest with
      | nil => exact Or.inl (tokens first (by simp)).1
      | cons value rest => exact Or.inr (spaced_cons_ne value rest)
    constructor
    · intro same
      have atFirst := congrFun same first
      have atHead := congrFun same (rest.headD [])
      by_cases key : first = rest.headD []
      · rw [← key, Function.update_self, Function.update_self, Option.some.injEq] at atFirst
        exact absurd atFirst (differs.resolve_left (fun other => other key))
      · rw [Function.update_self, Function.update_of_ne key] at atFirst
        rw [Function.update_self, Function.update_of_ne (Ne.symm key)] at atHead
        exact ⟨atFirst.symm, atHead⟩
    · intro held
      rw [← held.1, ← held.2, Function.update_eq_self, Function.update_eq_self]
  · simp only [leaderStore, followerStore, KeepsPace, if_neg set, foldl_deleteCounted]
    constructor
    · intro same
      have atFirst := congrFun same first
      rw [foldl_erase, foldl_erase, if_pos (by simp)] at atFirst
      by_cases again : first ∈ rest
      · exact Or.inr again
      · rw [if_neg again] at atFirst
        exact Or.inl atFirst.symm
    · intro unseen
      funext k
      rw [foldl_erase, foldl_erase]
      by_cases key : k = first
      · subst key
        by_cases again : k ∈ rest
        · simp [again]
        · simp [again, unseen.resolve_right again]
      · simp [key]

def commitAt (node : Node) (message : Str) : Node :=
  { node with kvdb := handleCommitRequest node.kvdb message }

theorem foldl_deliver (ids : List Nat) (distinct : ids.Nodup) (message : Str) (cluster : Cluster)
    (i : Nat) :
    (ids.map fun nodeid => Sent.toNode nodeid message).foldl deliver cluster i =
      if i ∈ ids then commitAt (cluster i) message else cluster i := by
  induction ids generalizing cluster with
  | nil => simp
  | cons nodeid ids ih =>
    obtain ⟨fresh, distinct⟩ := List.nodup_cons.mp distinct
    rw [List.map_cons, List.foldl_cons, ih distinct]
    by_cases same : i = nodeid
    · subst same
      simp [fresh, deliver, commitAt]
    · simp [same, deliver]

theorem replicate_write {n leader : Nat} {cluster : Cluster} {request command first : Str}
    {rest : List Str} (leads : Leads n leader (cluster leader)) (write : Write request)
    (shape : (parseClinetMessage request).2 = command :: first :: rest) :
    ∃ after, replicate leader cluster request = some after ∧ Leads n leader (after leader) ∧
      (after leader).kvdb = leaderStore (cluster leader).kvdb command first rest ∧
      ∀ i < n, i ≠ leader → (after i).kvdb = followerStore (cluster i).kvdb command rest := by
  obtain ⟨answer, handled, _⟩ := handleClientRequest_write leads write shape (fun _ => true)
  obtain ⟨_, _, _, same, _, payloadShape⟩ := parse_accepts write.1
  rw [shape] at same
  cases same
  have tokens : ∀ token ∈ command :: first :: rest, Token token := by
    rw [← payloadShape]
    exact fun token member => payload_token member
  let message := "COMMIT ".toList ++ spaced (command :: rest)
  let ids := (List.range n).filter fun nodeid => nodeid ≠ leader && true
  have distinct : ids.Nodup := List.Nodup.filter _ List.nodup_range
  have outside : leader ∉ ids := by simp [ids]
  let served : Cluster := Function.update cluster leader
    { cluster leader with kvdb := leaderStore (cluster leader).kvdb command first rest }
  let after : Cluster := fun i => if i ∈ ids then commitAt (served i) message else served i
  have sends : sendToOthers (cluster leader) (fun _ => true) message =
      ids.map fun nodeid => .toNode nodeid message := by
    simp only [sendToOthers, leads.count, leads.self, ids]
  have result : replicate leader cluster request = some after := by
    rw [replicate, handled]
    simp only [Option.bind_eq_bind, Option.bind_some, List.foldl_append, List.foldl_cons,
      List.foldl_nil, deliver]
    rw [sends]
    exact congrArg some (funext fun i => foldl_deliver ids distinct message served i)
  have atLeader : after leader =
      { cluster leader with kvdb := leaderStore (cluster leader).kvdb command first rest } := by
    simp only [after, if_neg outside, served, Function.update_self]
  refine ⟨after, result, ?_, by rw [atLeader], ?_⟩
  · exact ⟨leads.member, by rw [atLeader]; exact leads.count,
      by rw [atLeader]; exact leads.self, by rw [atLeader]; exact leads.state⟩
  · intro i bound follower
    have inside : i ∈ ids := by simp [ids, bound, follower]
    simp only [after, if_pos inside, commitAt, served, Function.update_of_ne follower,
      handleCommitRequest, message, (words_commitInfo tokens).2, followerStore,
      List.getElem?_cons_succ, List.getElem?_cons_zero, Option.getD_some, List.drop_succ_cons,
      List.drop_zero]

theorem inStep_write_iff {n leader : Nat} {cluster after : Cluster} {request : Str}
    (leads : Leads n leader (cluster leader)) (common : InStep n leader cluster) (write : Write request)
    (result : replicate leader cluster request = some after) :
    InStep n leader after ↔
      n = 1 ∨ KeepsPace (cluster leader).kvdb (parseClinetMessage request).2 := by
  obtain ⟨command, first, rest, shape, _, payloadShape⟩ := parse_accepts write.1
  obtain ⟨_, again, _, leaderAfter, followersAfter⟩ := replicate_write leads write shape
  rw [result] at again
  cases again
  have tokens : ∀ token ∈ command :: first :: rest, Token token := by
    rw [← payloadShape]
    exact fun token member => payload_token member
  have agree : leaderStore (cluster leader).kvdb command first rest =
      followerStore (cluster leader).kvdb command rest ↔
        KeepsPace (cluster leader).kvdb (command :: first :: rest) := stores_agree_iff tokens
  rw [shape, ← agree]
  have member := leads.member
  constructor
  · intro inStep
    by_cases alone : n = 1
    · exact Or.inl alone
    · obtain ⟨i, bound, follower⟩ : ∃ i < n, i ≠ leader := by
        by_cases zero : leader = 0
        · exact ⟨1, by omega, by omega⟩
        · exact ⟨0, by omega, fun same => zero same.symm⟩
      have same := inStep i bound
      rw [leaderAfter, followersAfter i bound follower, common i bound] at same
      exact Or.inr same.symm
  · intro either i bound
    by_cases follower : i = leader
    · rw [follower]
    · rcases either with alone | same
      · omega
      · rw [followersAfter i bound follower, common i bound, leaderAfter, same]

theorem execute_leads {n leader : Nat} {cluster : Cluster} (leads : Leads n leader (cluster leader))
    (requests : List Str) (writes : ∀ request ∈ requests, Write request) :
    ∃ after, execute (replicate leader) cluster requests = some after ∧ Leads n leader (after leader) := by
  induction requests generalizing cluster with
  | nil => exact ⟨cluster, rfl, leads⟩
  | cons request requests ih =>
    have write := writes request (by simp)
    obtain ⟨_, _, _, shape, _⟩ := parse_accepts write.1
    obtain ⟨middle, first, kept, _⟩ := replicate_write leads write shape
    obtain ⟨after, rest, served⟩ := ih kept (fun other member => writes other (by simp [member]))
    exact ⟨after, by rw [execute, first]; exact rest, served⟩

theorem execute_snoc {leader : Nat} {cluster before : Cluster} {processed : List Str} (request : Str)
    (result : execute (replicate leader) cluster processed = some before) :
    execute (replicate leader) cluster (processed ++ [request]) = replicate leader before request := by
  rw [execute_append, result]
  simp only [Option.bind_some, execute, Option.bind_fun_some]

def StaysInStep (n leader : Nat) (cluster : Cluster) (requests : List Str) : Prop :=
  ∀ processed, processed <+: requests →
    ∃ after, execute (replicate leader) cluster processed = some after ∧ InStep n leader after

/-- Each request finds the leader's store such that dropping its key makes no difference. -/
def EachKeepsPace (leader : Nat) (cluster : Cluster) (requests : List Str) : Prop :=
  ∀ processed request, processed ++ [request] <+: requests →
    ∃ before, execute (replicate leader) cluster processed = some before ∧
      KeepsPace (before leader).kvdb (parseClinetMessage request).2

theorem EachKeepsPace.cons {leader : Nat} {cluster after : Cluster} {request : Str} {requests : List Str}
    (keeps : KeepsPace (cluster leader).kvdb (parseClinetMessage request).2)
    (step : replicate leader cluster request = some after) (later : EachKeepsPace leader after requests) :
    EachKeepsPace leader cluster (request :: requests) := by
  intro processed last pre
  cases processed with
  | nil =>
    rw [List.nil_append, List.cons_prefix_cons] at pre
    exact ⟨cluster, rfl, pre.1 ▸ keeps⟩
  | cons first processed =>
    rw [List.cons_append, List.cons_prefix_cons] at pre
    obtain ⟨before, reached, still⟩ := later processed last pre.2
    refine ⟨before, ?_, still⟩
    rw [pre.1, execute, step]
    exact reached

theorem EachKeepsPace.nil (leader : Nat) (cluster : Cluster) : EachKeepsPace leader cluster [] := by
  intro processed last pre
  simpa using List.prefix_nil.mp pre

/-- Over every list of accepted writes, replication keeps the stores equal exactly when
no follower exists or every request is one on which the omitted token makes no difference. -/
theorem staysInStep_iff (n leader : Nat) (cluster : Cluster) (requests : List Str)
    (leads : Leads n leader (cluster leader)) (common : InStep n leader cluster)
    (writes : ∀ request ∈ requests, Write request) :
    StaysInStep n leader cluster requests ↔ n = 1 ∨ EachKeepsPace leader cluster requests := by
  have served : ∀ processed, processed <+: requests →
      ∃ after, execute (replicate leader) cluster processed = some after ∧ Leads n leader (after leader) :=
    fun processed pre => execute_leads leads processed
      (fun request member => writes request (pre.subset member))
  have lastWrite : ∀ processed request, processed ++ [request] <+: requests → Write request :=
    fun processed request pre => writes request (pre.subset (by simp))
  constructor
  · intro stays
    by_cases alone : n = 1
    · exact Or.inl alone
    · refine Or.inr ?_
      intro processed request pre
      have shorter : processed <+: requests := (List.prefix_append processed [request]).trans pre
      obtain ⟨before, done, inStep⟩ := stays processed shorter
      obtain ⟨_, again, serves⟩ := served processed shorter
      rw [done] at again
      cases again
      obtain ⟨after, result, stillIn⟩ := stays _ pre
      rw [execute_snoc request done] at result
      have write := lastWrite processed request pre
      exact ⟨before, done, ((inStep_write_iff serves inStep write result).mp stillIn).resolve_left alone⟩
  · intro either processed
    induction processed using List.reverseRecOn with
    | nil => exact fun _ => ⟨cluster, rfl, common⟩
    | append_singleton processed request ih =>
      intro pre
      have shorter : processed <+: requests := (List.prefix_append processed [request]).trans pre
      obtain ⟨before, done, inStep⟩ := ih shorter
      obtain ⟨_, again, serves⟩ := served processed shorter
      rw [done] at again
      cases again
      obtain ⟨after, result, _⟩ := served _ pre
      refine ⟨after, result, ?_⟩
      rw [execute_snoc request done] at result
      refine (inStep_write_iff serves inStep (lastWrite processed request pre) result).mpr ?_
      refine either.imp_right ?_
      intro paced
      obtain ⟨_, same, keeps⟩ := paced processed request pre
      rw [done] at same
      cases same
      exact keeps

def pair : Cluster := fun i =>
  Node.create 2 i (fun _ => "127.0.0.1".toList) (fun nodeid => 8001 + nodeid) 0

theorem pair_leads : Leads 2 0 (pair 0) := ⟨by decide, rfl, rfl, rfl⟩

/-- `SET k v`: the follower stores an empty value under `v`. -/
theorem set_not_staysInStep :
    let set := "*3\r\n$3\r\nSET\r\n$1\r\nk\r\n$1\r\nv\r\n".toList
    Leads 2 0 (pair 0) ∧ InStep 2 0 pair ∧ (∀ request ∈ [set], Write request) ∧
      ¬ StaysInStep 2 0 pair [set] := by
  intro set
  refine ⟨pair_leads, fun _ _ => rfl, ?_, ?_⟩
  · intro request member
    rw [List.mem_singleton.mp member]
    exact ⟨by decide, by decide⟩
  · intro stays
    obtain ⟨after, result, inStep⟩ := stays [set] (List.prefix_refl _)
    have stored : (execute (replicate 0) pair [set]).map
        (fun after => ((after 0).kvdb "k".toList, (after 1).kvdb "k".toList)) =
          some (some "v ".toList, none) := by decide
    rw [result] at stored
    have same := congrFun (inStep 1 (by decide)) "k".toList
    simp only [Option.map_some, Option.some.injEq, Prod.mk.injEq] at stored
    rw [stored.1, stored.2] at same
    cases same

/-- Both nodes hold `a` and the first token of its value. -/
def nested : Cluster := fun i =>
  let kvdb := Function.update (fun _ => none) "a".toList (some "b c ".toList)
  { pair i with kvdb := Function.update kvdb "b".toList (some "c ".toList) }

/-- `SET a b c` again, then `DEL z` and `DEL a b a`. -/
def harmless : List Str :=
  ["*4\r\n$3\r\nSET\r\n$1\r\na\r\n$1\r\nb\r\n$1\r\nc\r\n".toList,
    "*2\r\n$3\r\nDEL\r\n$1\r\nz\r\n".toList,
    "*4\r\n$3\r\nDEL\r\n$1\r\na\r\n$1\r\nb\r\n$1\r\na\r\n".toList]

theorem staysInStep_iff_harmless : StaysInStep 2 0 nested harmless := by
  have writes : ∀ request ∈ harmless, Write request := by
    simp only [Write]
    decide
  refine (staysInStep_iff 2 0 nested harmless ⟨by decide, rfl, rfl, rfl⟩ (fun _ _ => rfl) writes).mpr (Or.inr ?_)
  exact .cons (by decide) rfl (.cons (by decide) rfl (.cons (by decide) rfl (.nil _ _)))

end CloudLab.Raft
