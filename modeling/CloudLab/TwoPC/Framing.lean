import CloudLab.Library.ShortReads
import CloudLab.TwoPC.Coordinator

/-! `getMessage` over a connection that delivers bytes in any pieces. Both servers have the
same loop and the same buffer: a read that does not fill the buffer ends the message. -/

namespace CloudLab.TwoPC
open Text ShortReads

inductive Recv where
  | bytes (buf : Str)
  | closed
  | error

/-- The loop of `getMessage`: its return value, what `data` holds, and the results of `recv`
that are left. `none`: it waits in `recv` and nothing comes. -/
def recvLoop (MAX_BUF_SIZE : Nat) (data : Str) : List Recv → Option (Int × Str × List Recv)
  | [] => none
  | .error :: rest => some (-1, data, rest)
  | .closed :: rest => some (0, data, rest)
  | .bytes buf :: rest =>
      if buf.length = MAX_BUF_SIZE then recvLoop MAX_BUF_SIZE (data ++ buf) rest
      else some (1, data ++ buf, rest)

def Coordinator.MAX_BUF_SIZE : Nat := 512

def Participant.MAX_BUF_SIZE : Nat := 512

def Coordinator.getMessage (data : Str) (recvs : List Recv) : Option (Int × Str × List Recv) :=
  recvLoop Coordinator.MAX_BUF_SIZE data recvs

def Participant.getMessage (data : Str) (recvs : List Recv) : Option (Int × Str × List Recv) :=
  recvLoop Participant.MAX_BUF_SIZE data recvs

/-- The results of `recv` when a message is there as a whole and nothing comes after it. -/
def delivered (MAX_BUF_SIZE : Nat) (message : Str) : List Recv := (pieces MAX_BUF_SIZE message).map .bytes

def Coordinator.Receives (message : Str) : Prop :=
  Coordinator.getMessage [] (delivered Coordinator.MAX_BUF_SIZE message) = some (1, message, [])

def Participant.Receives (message : Str) : Prop :=
  Participant.getMessage [] (delivered Participant.MAX_BUF_SIZE message) = some (1, message, [])

def successive (getMessage : Str → List Recv → Option (Int × Str × List Recv)) :
    Nat → List Recv → Option (List Str × List Recv)
  | 0, recvs => some ([], recvs)
  | calls + 1, recvs => do
      let first ← getMessage [] recvs
      if first.1 = 1 then
        let later ← successive getMessage calls first.2.2
        some (first.2.1 :: later.1, later.2)
      else none

/-- The calls return exactly the messages, each by the last byte of its own. -/
def Frames (getMessage : Str → List Recv → Option (Int × Str × List Recv)) (messages reads : List Str) :
    Prop :=
  successive getMessage messages.length (reads.map .bytes) = some (messages, [])

/-- No message fills its last read, and each message comes in reads of its own, every one
but the last full. -/
def Apart (limit : Nat) (messages reads : List Str) : Prop :=
  (∀ message ∈ messages, message.length % limit ≠ 0) ∧
    reads.map List.length = messages.flatMap (sizes limit)

theorem recvLoop_bytes (limit : Nat) (reads : List Str) (data : Str) :
    recvLoop limit data (reads.map .bytes) =
      (gather limit reads).map fun first => (1, data ++ first.1, first.2.map .bytes) := by
  induction reads generalizing data with
  | nil => rfl
  | cons read reads ih =>
    rw [List.map_cons, recvLoop, gather]
    split
    · rw [ih, Option.map_map]
      congr 1
      funext first
      simp [Function.comp]
    · rfl

theorem recvLoop_delivered {limit : Nat} (positive : 0 < limit) (message : Str) :
    recvLoop limit [] (delivered limit message) =
      if message.length % limit = 0 then none else some (1, message, []) := by
  rw [delivered, recvLoop_bytes, gather_pieces positive]
  split <;> rfl

theorem recvLoop_receives {limit : Nat} (positive : 0 < limit) (message : Str) :
    recvLoop limit [] (delivered limit message) = some (1, message, []) ↔ message.length % limit ≠ 0 := by
  rw [recvLoop_delivered positive]
  split
  · next filled => simp [filled]
  · next short => simp [short]

theorem Coordinator.receives_iff {message : Str} : Coordinator.Receives message ↔ message.length % 512 ≠ 0 :=
  recvLoop_receives (by decide) message

theorem Participant.receives_iff {message : Str} : Participant.Receives message ↔ message.length % 512 ≠ 0 :=
  recvLoop_receives (by decide) message

instance (message : Str) : Decidable (Coordinator.Receives message) :=
  decidable_of_iff _ Coordinator.receives_iff.symm

instance (message : Str) : Decidable (Participant.Receives message) :=
  decidable_of_iff _ Participant.receives_iff.symm

theorem successive_bytes (limit calls : Nat) (reads : List Str) :
    successive (recvLoop limit) calls (reads.map .bytes) =
      (gatherAll limit calls reads).map fun all => (all.1, all.2.map .bytes) := by
  induction calls generalizing reads with
  | zero => rfl
  | succ calls ih =>
    rw [successive, gatherAll, recvLoop_bytes]
    cases taken : gather limit reads with
    | none => rfl
    | some first =>
      simp only [Option.map_some, Option.bind_eq_bind, Option.bind_some, if_true, ih, List.nil_append]
      cases gatherAll limit calls first.2 <;> rfl

theorem frames_iff {limit : Nat} (positive : 0 < limit) {messages reads : List Str}
    (cut : Cut limit messages reads) : Frames (recvLoop limit) messages reads ↔ Apart limit messages reads := by
  unfold Frames Apart
  rw [← gatherAll_iff positive messages reads cut, successive_bytes]
  cases gatherAll limit messages.length reads with
  | none => simp
  | some all =>
    rw [Option.map_some, Option.some.injEq, Option.some.injEq, Prod.ext_iff, Prod.ext_iff]
    simp

/-- For either server, however the messages are cut into reads of 1 to 512 bytes: the calls
return each message, and none waits after its last byte, exactly when no message is a
multiple of 512 bytes long and no read is shorter than it could be or holds two messages. -/
theorem getMessage_frames_iff (messages reads : List Str) (cut : Cut 512 messages reads) :
    (Frames Coordinator.getMessage messages reads ↔ Apart 512 messages reads) ∧
      (Frames Participant.getMessage messages reads ↔ Apart 512 messages reads) :=
  ⟨frames_iff (by decide) cut, frames_iff (by decide) cut⟩

/-- A message of exactly 512 bytes, read at once: the call waits for more. -/
theorem full_buffer_waits :
    let message : Str := List.replicate 512 'a'
    Cut 512 [message] [message] ∧ Coordinator.getMessage [] [.bytes message] = none ∧
      Participant.getMessage [] [.bytes message] = none ∧
      ¬ Frames Coordinator.getMessage [message] [message] ∧
      ¬ Frames Participant.getMessage [message] [message] := by
  intro message
  have long : message.length = 512 := List.length_replicate
  have cut : Cut 512 [message] [message] := by
    constructor
    · rfl
    · intro read member
      rw [List.mem_singleton.mp member]
      exact List.ne_nil_of_length_pos (by omega)
    · intro read member
      rw [List.mem_singleton.mp member]
      omega
  have waits : recvLoop 512 [] [.bytes message] = none := by
    rw [recvLoop, if_pos long]
    rfl
  have never : ¬ Frames (recvLoop 512) [message] [message] := by
    intro frames
    have first : successive (recvLoop 512) 1 [.bytes message] = none := by
      rw [successive, waits]
      rfl
    change successive (recvLoop 512) 1 [.bytes message] = _ at frames
    rw [first] at frames
    cases frames
  exact ⟨cut, waits, waits, never, never⟩

theorem getMessage_frames_iff_two :
    Frames Coordinator.getMessage ["ab".toList, "c".toList] ["ab".toList, "c".toList] := by
  have cut : Cut 512 ["ab".toList, "c".toList] ["ab".toList, "c".toList] :=
    ⟨rfl, by decide, by decide⟩
  exact (getMessage_frames_iff _ _ cut).1.mpr ⟨by decide, by decide⟩

end CloudLab.TwoPC
