import ObjectModel.Protocol.Assignment

/-!
# Appending and removing at the end

`push` and `pop` work on whatever has a length. Each reads the length once, at the start, and goes by it
to the end, also if script code has changed the length meanwhile.
-/

namespace ObjectModel.Protocol

open ObjectModel.Action

variable {σ : Type} (run : Callback σ)

/-- Appends a value and answers the new length. -/
def push (id : ObjectId) (value : Value) : Action σ Nat := do
  let length ← inspect fun h => (h.get id).length
  if h : length < maxLength then
    put run id (.index ⟨length, h⟩) value true
    put run id .length (.ofNat (length + 1)) true
    pure (length + 1)
  else
    throw .lengthExhausted

/-- Removes the last element and answers its value. -/
def pop (id : ObjectId) : Action σ Value := do
  let length ← inspect fun h => (h.get id).length
  if length = 0 then
    put run id .length (.ofNat 0) true
    pure .undefined
  else
    let key := Key.ofWord (length - 1)
    let element ← get run id key
    discard (delete id key true)
    put run id .length (.ofNat (length - 1)) true
    pure element

end ObjectModel.Protocol
