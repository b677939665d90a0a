import Mathlib

/-! Values written one behind the other, and a reader that takes the first of them off what it is given. -/

namespace CloudLab

/-- What can be written, and what the reader makes of it, whatever follows. -/
structure Codec (α β : Type*) where
  Valid : α → Prop
  encode : α → List β
  decode : List β → Option (α × List β)
  encode_ne_nil : ∀ {a}, Valid a → encode a ≠ []
  decode_encode : ∀ {a} (rest), Valid a → decode (encode a ++ rest) = some (a, rest)

def takeValues {α β : Type*} (decode : List β → Option (α × List β)) : Nat → List β → Option (List α × List β)
  | 0, s => some ([], s)
  | count + 1, s =>
      (decode s).bind fun first => (takeValues decode count first.2).map fun later => (first.1 :: later.1, later.2)

namespace Codec

variable {α β : Type*} (codec : Codec α β) {a b : α} {as bs : List α} {left right : List β}

theorem takeValues_encode (valid : ∀ a ∈ as, codec.Valid a) (rest : List β) :
    takeValues codec.decode as.length (as.flatMap codec.encode ++ rest) = some (as, rest) := by
  induction as with
  | nil => rfl
  | cons a as ih =>
    obtain ⟨first, others⟩ := List.forall_mem_cons.mp valid
    rw [List.flatMap_cons, List.append_assoc, List.length_cons, takeValues, codec.decode_encode _ first, Option.bind_some,
      ih others]
    rfl

end Codec

end CloudLab
