/-!
# Spans

The positions that a repeated step or a range of writes visits.
-/

namespace ObjectModel.Script

/-- The positions `first`, `first + stride`, … below `bound`, in this order or reversed. -/
structure Span where
  first : Nat
  bound : Nat
  stride : Nat := 1
  descending : Bool := false

/-- The positions of a span in the order in which they are visited. -/
def Span.positions (s : Span) : List Nat :=
  let ascending := List.range' s.first ((s.bound - s.first + s.stride - 1) / s.stride) s.stride
  if s.descending then ascending.reverse else ascending

end ObjectModel.Script
