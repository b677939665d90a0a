import CloudLab.Library.Checked
import CloudLab.Raft.SingleLeader

/-! The configuration file, and the numbers that it gives to the nodes: a node's number is its
port modulo 8001. -/

namespace CloudLab.Raft
open Checked Text

def parseConfigLine (str : Str) : Except Stop (Option (List Str)) :=
  if str = [] ∨ str.head? = some '!' then .ok none
  else do
    let split_data := words str
    let value ← index split_data 1
    let split_data := split_data ++ [behind ':' value]
    .ok (some (split_data.set 1 (upTo ':' value)))

def parseConfigFile (text : Str) : Except Stop (List (List Str)) := keep parseConfigLine (getlines text)

/-- One turn of the loop of the constructor, over tables of `numNodes` elements. -/
def setAddress (numNodes : Nat) (tables : (Nat → Str) × (Nat → Int)) (t : List Str) :
    Except Stop ((Nat → Str) × (Nat → Int)) := do
  let nodeport ← (index t 2).bind integer
  let nodeip ← index t 1
  let slot := nodeport.tmod 8001
  if 0 ≤ slot ∧ slot < numNodes then
    .ok (Function.update tables.1 slot.toNat nodeip, Function.update tables.2 slot.toNat nodeport)
  else .error .outOfRange

/-- The constructor. `nodeid` belongs to a line of `info`, so that the loop has failed when it
is negative. -/
def Node.ofConfig (numNodes : Nat) (nodeid : Int) (info : List (List Str)) (candidateVotenum : Int) :
    Except Stop Node := do
  let tables ← info.foldlM (setAddress numNodes) (fun _ => [], fun _ => 0)
  .ok (Node.create numNodes nodeid.toNat tables.1 tables.2 candidateVotenum)

def main (text : Str) (candidateVotenum : Int) : Except Stop Node := do
  let config_info ← parseConfigFile text
  let own ← index config_info 0
  let _ip ← index own 1
  let port ← (index own 2).bind integer
  Node.ofConfig config_info.length (port.tmod 8001) config_info candidateVotenum

def addressOf (t : List Str) : Option (Str × Int) := do
  let ip ← t[1]?
  let field ← t[2]?
  let port ← stoi field
  some (ip, port)

def octet (s : Str) : Option Nat :=
  let value := Nat.ofDigitChars 10 s 0
  if s ≠ [] ∧ s.all Char.isDigit = true ∧ (s.length = 1 ∨ s.head? ≠ some '0') ∧ value ≤ 255 then some value else none

def inet_pton (ip : Str) : Option Nat :=
  ((ip.takeWhile (· ≠ '\x00')).splitOn '.').mapM octet >>= fun octets =>
    if octets.length = 4 then some (octets.foldl (fun value octet => 256 * value + octet) 0) else none

def htons (port : Int) : Nat :=
  let low := (port % 2 ^ 16).toNat
  low % 256 * 256 + low / 256

abbrev SockAddr := Nat × Nat

/-- A text that is no address leaves the zeros of `memset`, and so does a port that is not positive. -/
def getSockAddr (ip : Str) (port : Int) : SockAddr := ((inet_pton ip).getD 0, if 0 < port then htons port else 0)

def contacts (node : Node) (sent : List Sent) : List SockAddr :=
  sent.filterMap fun
    | .toNode nodeid _ => some (getSockAddr (node.Nodeip nodeid) (node.Nodeport nodeid))
    | .reply _ => none

/-- Where `start` has the node of this address listen. None where the kernel chooses the port, or where the text is at
best one that `inet_addr` alone can read. -/
def listens (a : Str × Int) : Option SockAddr :=
  (inet_pton a.1).bind fun ip => if htons a.2 = 0 then none else some (ip, htons a.2)

/-- The loop connects to each of the other nodes once, and not to the node itself. -/
structure Reaches (addresses : List (Str × Int)) (node : Node) (sent : List Sent) : Prop where
  others : ((contacts node sent).map some).Perm (addresses.tail.map listens)
  once : (contacts node sent).Nodup
  self : ∀ own ∈ addresses.head?, ∃ address, listens own = some address ∧ address ∉ contacts node sent

/-- The ports number the nodes from 0, and every loop over the numbers reaches the others. -/
structure Numbered (text : Str) (candidateVotenum : Int) (addresses : List (Str × Int)) : Prop where
  ids : (addresses.map fun a => a.2.tmod 8001).Nodup
  range : ∀ a ∈ addresses, 0 ≤ a.2.tmod 8001 ∧ a.2.tmod 8001 < addresses.length
  node : ∃ node, main text candidateVotenum = .ok node ∧
    Reaches addresses node (SendHeartBeat node fun _ => true) ∧
    Reaches addresses node (sendRequestVote node fun _ => true) ∧
    ∀ parse_msg sent, sendCommitinfo node (fun _ => true) parse_msg = some sent → Reaches addresses node sent

structure Apart (addresses : List (Str × Int)) : Prop where
  listening : ∀ a ∈ addresses, (listens a).isSome = true
  different : (addresses.map listens).Nodup
  positive : ∀ a ∈ addresses.tail, 0 < a.2

section numbers
variable {addresses : List (Str × Int)} {a : Str × Int} {t : List Str} {config : List (List Str)} {n i : Nat} {p : Int}

theorem tmod_eq_iff (small : i < 8001) : p.tmod 8001 = i ↔ ∃ k : Int, p = 8001 * k + i ∧ (0 ≤ k ∨ i = 0) := by
  constructor
  · intro same
    have split := Int.mul_tdiv_add_tmod p 8001
    refine ⟨p.tdiv 8001, by omega, ?_⟩
    rcases Int.le_total 0 p with positive | negative
    · exact Or.inl (Int.tdiv_nonneg positive (by decide))
    · have bound := Int.tmod_nonneg 8001 (Int.neg_nonneg_of_nonpos negative)
      rw [Int.neg_tmod] at bound
      exact Or.inr (by omega)
  · rintro ⟨k, rfl, positive | rfl⟩
    · rw [Int.tmod_eq_emod_of_nonneg (by omega)]
      omega
    · simp

theorem perm_of_covers {α : Type} {l r : List α} (nodup : r.Nodup) (covers : ∀ x ∈ r, x ∈ l)
    (length : l.length = r.length) : l.Perm r :=
  ((List.subperm_of_subset nodup covers).perm_of_length_le (Nat.le_of_eq length)).symm

def slot (a : Str × Int) : Nat := (a.2.tmod 8001).toNat

theorem addressOf_eq_some (given : addressOf t = some a) :
    t[1]? = some a.1 ∧ ∃ field, t[2]? = some field ∧ stoi field = some a.2 := by
  simp only [addressOf, Option.bind_eq_bind, Option.bind_eq_some_iff, Option.some.injEq] at given
  obtain ⟨ip, first, field, second, port, taken, rfl⟩ := given
  exact ⟨first, field, second, taken⟩

theorem read_port (given : addressOf t = some a) : (index t 2).bind integer = .ok a.2 := by
  obtain ⟨_, field, second, taken⟩ := addressOf_eq_some given
  rw [index_some second]
  show integer field = .ok a.2
  rw [integer, taken]

theorem setAddress_inside (given : addressOf t = some a) (inside : 0 ≤ a.2.tmod 8001 ∧ a.2.tmod 8001 < n)
    (tables : (Nat → Str) × (Nat → Int)) :
    setAddress n tables t = .ok (Function.update tables.1 (slot a) a.1, Function.update tables.2 (slot a) a.2) := by
  rw [setAddress, read_port given, ok_bind, index_some (addressOf_eq_some given).1, ok_bind]
  exact if_pos inside

theorem setAddress_all (read : config.mapM addressOf = some addresses) (apart : (addresses.map slot).Nodup)
    (inside : ∀ a ∈ addresses, 0 ≤ a.2.tmod 8001 ∧ a.2.tmod 8001 < n) (tables : (Nat → Str) × (Nat → Int)) :
    ∃ tables', config.foldlM (setAddress n) tables = .ok tables' ∧
      (∀ a ∈ addresses, tables'.1 (slot a) = a.1 ∧ tables'.2 (slot a) = a.2) ∧
      ∀ j, j ∉ addresses.map slot → tables'.1 j = tables.1 j ∧ tables'.2 j = tables.2 j := by
  induction config generalizing addresses tables with
  | nil =>
    cases read
    exact ⟨tables, rfl, fun a none => absurd none List.not_mem_nil, fun j _ => ⟨rfl, rfl⟩⟩
  | cons t config ih =>
    simp only [List.mapM_cons, Option.bind_eq_bind, Option.bind_eq_some_iff] at read
    obtain ⟨a, given, later, read, result⟩ := read
    cases result
    rw [List.map_cons, List.nodup_cons] at apart
    obtain ⟨tables', ran, kept, others⟩ := ih read apart.2 (fun b member => inside b (List.mem_cons_of_mem _ member))
      (Function.update tables.1 (slot a) a.1, Function.update tables.2 (slot a) a.2)
    refine ⟨tables', ?_, ?_, ?_⟩
    · rw [List.foldlM_cons, setAddress_inside given (inside a List.mem_cons_self), ok_bind]
      exact ran
    · intro b member
      rcases List.mem_cons.mp member with rfl | member
      · obtain ⟨ip, port⟩ := others (slot b) apart.1
        exact ⟨ip.trans (Function.update_self ..), port.trans (Function.update_self ..)⟩
      · exact kept b member
    · intro j absent
      rw [List.map_cons, List.mem_cons, not_or] at absent
      obtain ⟨ip, port⟩ := others j absent.2
      exact ⟨ip.trans (Function.update_of_ne absent.1 ..), port.trans (Function.update_of_ne absent.1 ..)⟩

theorem length_mapM (read : config.mapM addressOf = some addresses) : addresses.length = config.length := by
  induction config generalizing addresses with
  | nil =>
    cases read
    rfl
  | cons t config ih =>
    simp only [List.mapM_cons, Option.bind_eq_bind, Option.bind_eq_some_iff] at read
    obtain ⟨a, -, later, read, result⟩ := read
    cases result
    rw [List.length_cons, List.length_cons, ih read]

structure Knows (own : Str × Int) (others : List (Str × Int)) (node : Node) : Prop where
  number : node.numNodes = (own :: others).length
  self : node.myNodeId = slot own
  tables : ∀ a ∈ own :: others, node.Nodeip (slot a) = a.1 ∧ node.Nodeport (slot a) = a.2

theorem main_knows {text : Str} {own : Str × Int} {others : List (Str × Int)} (candidateVotenum : Int)
    (accepted : parseConfigFile text = .ok config) (read : config.mapM addressOf = some (own :: others))
    (apart : ((own :: others).map slot).Nodup)
    (inside : ∀ a ∈ own :: others, 0 ≤ a.2.tmod 8001 ∧ a.2.tmod 8001 < (own :: others).length) :
    ∃ node, main text candidateVotenum = .ok node ∧ Knows own others node := by
  have length := length_mapM read
  obtain ⟨tables, ran, kept, _⟩ := setAddress_all read apart inside (fun _ => [], fun _ => 0)
  cases config with
  | nil => cases length
  | cons t config =>
    have given : addressOf t = some own := by
      simp only [List.mapM_cons, Option.bind_eq_bind, Option.bind_eq_some_iff] at read
      obtain ⟨a, given, later, -, result⟩ := read
      cases result
      exact given
    have first : index (t :: config) 0 = .ok t := rfl
    rw [length] at ran
    refine ⟨Node.create (t :: config).length (slot own) tables.1 tables.2 candidateVotenum, ?_, length.symm, rfl, kept⟩
    rw [main, accepted, ok_bind, first, ok_bind, index_some (addressOf_eq_some given).1, ok_bind, read_port given,
      ok_bind, Node.ofConfig, ran, ok_bind]
    rfl

theorem Knows.connects {own : Str × Int} {others : List (Str × Int)} {node : Node} (knows : Knows own others node)
    (all : ((own :: others).map slot).Perm (List.range (own :: others).length)) (message : Str) :
    (contacts node (sendToOthers node (fun _ => true) message)).Perm (others.map fun a => getSockAddr a.1 a.2) := by
  have shape : contacts node (sendToOthers node (fun _ => true) message) =
      ((List.range node.numNodes).filter fun nodeid => nodeid ≠ node.myNodeId).map
        fun nodeid => getSockAddr (node.Nodeip nodeid) (node.Nodeport nodeid) := by
    rw [contacts, sendToOthers, List.filterMap_map]
    simp only [Bool.and_true]
    exact congrFun List.filterMap_eq_map' _
  have numbers : ((own :: others).map slot).filter (fun nodeid => nodeid ≠ slot own) = others.map slot := by
    have apart := (all.nodup_iff.mpr List.nodup_range)
    rw [List.map_cons, List.nodup_cons] at apart
    rw [List.map_cons, List.filter_cons_of_neg (by simp), List.filter_eq_self]
    intro nodeid member
    exact decide_eq_true fun same => apart.1 (same ▸ member)
  have found : (others.map slot).map (fun nodeid => getSockAddr (node.Nodeip nodeid) (node.Nodeport nodeid)) =
      others.map fun a => getSockAddr a.1 a.2 := by
    rw [List.map_map]
    refine List.map_congr_left fun a member => ?_
    obtain ⟨ip, port⟩ := knows.tables a (List.mem_cons_of_mem _ member)
    rw [Function.comp_apply, ip, port]
  rw [shape, knows.number, knows.self]
  calc
    List.Perm _ ((((own :: others).map slot).filter fun nodeid => nodeid ≠ slot own).map
        fun nodeid => getSockAddr (node.Nodeip nodeid) (node.Nodeport nodeid)) := (all.symm.filter _).map _
    _ = (others.map slot).map fun nodeid => getSockAddr (node.Nodeip nodeid) (node.Nodeport nodeid) := by rw [numbers]
    _ = others.map fun a => getSockAddr a.1 a.2 := found

theorem getSockAddr_listens (listening : (listens a).isSome = true) (positive : 0 < a.2) :
    listens a = some (getSockAddr a.1 a.2) := by
  obtain ⟨address, bound⟩ := Option.isSome_iff_exists.mp listening
  obtain ⟨ip, read, given⟩ := Option.bind_eq_some_iff.mp bound
  split_ifs at given with zero
  cases given
  rw [bound, getSockAddr, read, if_pos positive]
  rfl

theorem listens_port {address : SockAddr} (listening : listens a = some address) : address.2 ≠ 0 := by
  obtain ⟨ip, _, bound⟩ := Option.bind_eq_some_iff.mp listening
  split_ifs at bound with zero
  cases bound
  exact zero

theorem getSockAddr_positive (bound : (getSockAddr a.1 a.2).2 ≠ 0) : 0 < a.2 := by
  by_contra low
  exact bound (if_neg low)

/-- A node that knows all the addresses reaches the others exactly when these are apart. -/
theorem Knows.reaches_iff {own : Str × Int} {others : List (Str × Int)} {node : Node} (knows : Knows own others node)
    (all : ((own :: others).map slot).Perm (List.range (own :: others).length)) (message : Str) :
    Reaches (own :: others) node (sendToOthers node (fun _ => true) message) ↔ Apart (own :: others) := by
  have connects := knows.connects all message
  constructor
  · intro reaches
    have same : (others.map fun a => some (getSockAddr a.1 a.2)).Perm (others.map listens) := by
      have mapped := connects.symm.map some
      rw [List.map_map] at mapped
      exact mapped.trans reaches.others
    have listening : ∀ a ∈ others, (listens a).isSome = true := by
      intro a member
      obtain ⟨b, _, found⟩ := List.mem_map.mp (same.mem_iff.mpr (List.mem_map_of_mem member))
      rw [← found]
      rfl
    obtain ⟨address, bound, away⟩ := reaches.self own rfl
    refine ⟨List.forall_mem_cons.mpr ⟨by rw [bound]; rfl, listening⟩, ?_, ?_⟩
    · rw [List.map_cons, List.nodup_cons]
      constructor
      · intro member
        rw [bound] at member
        obtain ⟨other, found, same⟩ := List.mem_map.mp (reaches.others.mem_iff.mpr member)
        cases same
        exact away found
      · exact reaches.others.nodup_iff.mp (reaches.once.map (Option.some_injective _))
    · intro a member
      obtain ⟨b, _, found⟩ := List.mem_map.mp (same.mem_iff.mp (List.mem_map_of_mem member))
      exact getSockAddr_positive (listens_port found)
  · intro apart
    obtain ⟨first, listening⟩ := List.forall_mem_cons.mp apart.listening
    have same : others.map listens = (others.map fun a => getSockAddr a.1 a.2).map some := by
      rw [List.map_map]
      exact List.map_congr_left fun a member => getSockAddr_listens (listening a member) (apart.positive a member)
    have different := apart.different
    rw [List.map_cons, List.nodup_cons, same] at different
    have mapped := connects.map some
    refine ⟨?_, connects.nodup_iff.mpr (List.Nodup.of_map _ different.2), ?_⟩
    · rw [List.tail_cons, same]
      exact mapped
    · rintro _ ⟨rfl⟩
      obtain ⟨address, bound⟩ := Option.isSome_iff_exists.mp first
      refine ⟨address, bound, fun member => different.1 ?_⟩
      rw [bound]
      exact mapped.mem_iff.mp (List.mem_map_of_mem member)

def numbers (n : Nat) : List Int := (List.range n).map fun i : Nat => (i : Int)

theorem mem_numbers {id : Int} : id ∈ numbers n ↔ 0 ≤ id ∧ id < n := by
  rw [numbers, List.mem_map]
  constructor
  · rintro ⟨i, member, rfl⟩
    have bound := List.mem_range.mp member
    omega
  · rintro ⟨low, high⟩
    exact ⟨id.toNat, List.mem_range.mpr (by omega), by omega⟩

theorem nodup_numbers (n : Nat) : (numbers n).Nodup := by
  refine List.Nodup.map ?_ List.nodup_range
  intro i j same
  exact Int.ofNat.inj same

theorem length_numbers (n : Nat) : (numbers n).length = n := by rw [numbers, List.length_map, List.length_range]

theorem ids_perm_iff : ((addresses.map fun a => a.2.tmod 8001).Nodup ∧
      ∀ a ∈ addresses, 0 ≤ a.2.tmod 8001 ∧ a.2.tmod 8001 < addresses.length) ↔
    (addresses.map fun a => a.2.tmod 8001).Perm (numbers addresses.length) := by
  constructor
  · rintro ⟨apart, inside⟩
    refine (perm_of_covers apart ?_ ?_).symm
    · intro id member
      obtain ⟨a, among, rfl⟩ := List.mem_map.mp member
      exact mem_numbers.mpr (inside a among)
    · rw [length_numbers, List.length_map]
  · intro perm
    refine ⟨perm.nodup_iff.mpr (nodup_numbers _), fun a member => ?_⟩
    exact mem_numbers.mp (perm.mem_iff.mp (List.mem_map_of_mem member))

theorem perm_iff_covers : (addresses.map fun a => a.2.tmod 8001).Perm (numbers addresses.length) ↔
    addresses.length ≤ 8001 ∧
      ∀ i < addresses.length, ∃ a ∈ addresses, ∃ k : Int, a.2 = 8001 * k + i ∧ (0 ≤ k ∨ i = 0) := by
  have covered : ∀ i : Nat,
      (i : Int) ∈ (addresses.map fun a => a.2.tmod 8001) ↔ ∃ a ∈ addresses, a.2.tmod 8001 = i := by
    intro i
    rw [List.mem_map]
  constructor
  · intro perm
    have hit : ∀ i < addresses.length, ∃ a ∈ addresses, a.2.tmod 8001 = i := fun i small =>
      (covered i).mp (perm.mem_iff.mpr (mem_numbers.mpr ⟨by omega, by omega⟩))
    have few : addresses.length ≤ 8001 := by
      by_contra many
      obtain ⟨a, -, same⟩ := hit 8001 (by omega)
      have bound := Int.tmod_lt_of_pos a.2 (show (0 : Int) < 8001 by decide)
      omega
    refine ⟨few, fun i small => ?_⟩
    obtain ⟨a, member, same⟩ := hit i small
    exact ⟨a, member, (tmod_eq_iff (by omega)).mp same⟩
  · rintro ⟨few, hit⟩
    refine perm_of_covers (nodup_numbers _) ?_ ?_
    · intro id member
      obtain ⟨low, high⟩ := mem_numbers.mp member
      obtain ⟨i, rfl⟩ := Int.eq_ofNat_of_zero_le low
      obtain ⟨a, among, split⟩ := hit i (by omega)
      exact (covered i).mpr ⟨a, among, (tmod_eq_iff (by omega)).mpr split⟩
    · rw [length_numbers, List.length_map]

theorem slots_perm (perm : (addresses.map fun a => a.2.tmod 8001).Perm (numbers addresses.length)) :
    (addresses.map slot).Perm (List.range addresses.length) := by
  have back : (numbers addresses.length).map Int.toNat = List.range addresses.length := by
    rw [numbers, List.map_map]
    exact (List.map_congr_left fun i _ => Int.toNat_natCast i).trans (List.map_id' _)
  calc
    addresses.map slot = (addresses.map fun a => a.2.tmod 8001).map Int.toNat := by rw [List.map_map]; rfl
    List.Perm _ ((numbers addresses.length).map Int.toNat) := perm.map Int.toNat
    _ = List.range addresses.length := back

end numbers

/-- For every configuration: the ports modulo 8001 number the nodes, and every node is reached by the loops over the
numbers, exactly when there are at most 8001 nodes, for every number below that of the nodes some port is that much above
a multiple of 8001, and the sixteen bits of the ports that a socket takes still tell the nodes apart. -/
theorem numbered_iff (text : Str) (config : List (List Str)) (accepted : parseConfigFile text = .ok config)
    (addresses : List (Str × Int)) (read : config.mapM addressOf = some addresses) (candidateVotenum : Int) :
    Numbered text candidateVotenum addresses ↔ 1 ≤ addresses.length ∧ addresses.length ≤ 8001 ∧
      (∀ i < addresses.length, ∃ a ∈ addresses, ∃ k : Int, a.2 = 8001 * k + i ∧ (0 ≤ k ∨ i = 0)) ∧ Apart addresses := by
  rw [← and_assoc, ← and_assoc, and_assoc (a := 1 ≤ addresses.length), ← perm_iff_covers]
  constructor
  · rintro ⟨distinct, inside, node, ran, heartbeat, _⟩
    have perm := ids_perm_iff.mp ⟨distinct, inside⟩
    have some_ : 1 ≤ addresses.length := by
      by_contra none
      have empty : config = [] := List.eq_nil_of_length_eq_zero (by rw [← length_mapM read]; omega)
      rw [main, accepted, empty] at ran
      cases ran
    refine ⟨⟨some_, perm⟩, ?_⟩
    have slots := slots_perm perm
    obtain ⟨own, others, rfl⟩ := List.exists_cons_of_length_pos some_
    obtain ⟨node', ran', knows⟩ := main_knows candidateVotenum accepted read (slots.nodup_iff.mpr List.nodup_range) inside
    rw [ran] at ran'
    cases ran'
    exact (knows.reaches_iff slots _).mp heartbeat
  · rintro ⟨⟨some_, perm⟩, apart⟩
    obtain ⟨distinct, inside⟩ := ids_perm_iff.mpr perm
    have slots := slots_perm perm
    obtain ⟨own, others, rfl⟩ := List.exists_cons_of_length_pos some_
    obtain ⟨node, ran, knows⟩ :=
      main_knows candidateVotenum accepted read (slots.nodup_iff.mpr List.nodup_range) inside
    have reaches (message : Str) := (knows.reaches_iff slots message).mpr apart
    refine ⟨distinct, inside, node, ran, reaches _, reaches _, ?_⟩
    intro parse_msg sent loop
    obtain ⟨message, -, same⟩ := Option.bind_eq_some_iff.mp loop
    cases same
    exact reaches message

theorem numbered_iff_three :
    Numbered "follower_info 127.0.0.1:8001\n!\nfollower_info 127.0.0.1:8002\nfollower_info 127.0.0.1:8003\n".toList 0
      [("127.0.0.1".toList, 8001), ("127.0.0.1".toList, 8002), ("127.0.0.1".toList, 8003)] := by
  refine (numbered_iff _ [["follower_info".toList, "127.0.0.1".toList, "8001".toList],
    ["follower_info".toList, "127.0.0.1".toList, "8002".toList],
    ["follower_info".toList, "127.0.0.1".toList, "8003".toList]] (by decide) _ (by decide) 0).mpr ?_
  refine ⟨by decide, by decide, fun i small => ?_, by decide, by decide, by decide⟩
  have small : i < 3 := small
  obtain rfl | rfl | rfl : i = 0 ∨ i = 1 ∨ i = 2 := by omega
  · exact ⟨_, List.mem_cons_self, 1, by decide, Or.inr rfl⟩
  · exact ⟨_, List.mem_cons_of_mem _ List.mem_cons_self, 1, by decide, Or.inl (by decide)⟩
  · exact ⟨_, List.mem_cons_of_mem _ (List.mem_cons_of_mem _ List.mem_cons_self), 1, by decide, Or.inl (by decide)⟩

/-- Two nodes on the ports from 9001: the first address is put into the element 1000 of a table
of two. With 8001 and a port that is the same in sixteen bits, the first node is told to connect to itself. -/
theorem ports_from_9001 :
    parseConfigFile "follower_info 127.0.0.1:9001\nfollower_info 127.0.0.1:9002\n".toList =
        .ok [["follower_info".toList, "127.0.0.1".toList, "9001".toList],
          ["follower_info".toList, "127.0.0.1".toList, "9002".toList]] ∧
      main "follower_info 127.0.0.1:9001\nfollower_info 127.0.0.1:9002\n".toList 0 = .error .outOfRange ∧
      (¬ Numbered "follower_info 127.0.0.1:9001\nfollower_info 127.0.0.1:9002\n".toList 0
        [("127.0.0.1".toList, 9001), ("127.0.0.1".toList, 9002)]) ∧
      (293412673 : Int).tmod 8001 = 1 ∧
      getSockAddr "127.0.0.1".toList 293412673 = getSockAddr "127.0.0.1".toList 8001 := by
  have stops : main "follower_info 127.0.0.1:9001\nfollower_info 127.0.0.1:9002\n".toList 0 = .error .outOfRange := by
    rfl
  refine ⟨by decide, stops, fun numbered => ?_, by decide, by decide⟩
  have bound := (numbered.range _ List.mem_cons_self).2
  revert bound
  decide

end CloudLab.Raft
