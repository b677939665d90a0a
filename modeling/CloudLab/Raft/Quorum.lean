import CloudLab.Library.Run
import CloudLab.Raft.Dispatch

/-! Which nodes have received a write when the leader acknowledges it. -/

namespace CloudLab.Raft
open Text

/-- A request the leader has served: which nodes could be reached, and what was sent. -/
structure Served where
  request : Str
  reachable : Nat → Bool
  sent : List Sent

/-- No token that a commit of the request carries has a dollar sign, which would make it a client's request. -/
def Served.Unmarked (served : Served) : Prop := (Message.commit (parseClinetMessage served.request).2).Unmarked

instance (served : Served) : Decidable served.Unmarked :=
  inferInstanceAs (Decidable (∀ token ∈ (parseClinetMessage served.request).2.drop 2, '$' ∉ token))

end CloudLab.Raft
