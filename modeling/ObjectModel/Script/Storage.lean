import ObjectModel.Inspection
import ObjectModel.Script.Span

/-!
# Storage scripts

A list of commands to one element storage, each with what the storage replies and what it looks like
afterwards.
-/

namespace ObjectModel.Script

/-- A command to an element storage. -/
inductive Command where
  | write (i : Nat) (p : Property)
  /-- Writes at every position of a span a value that is the position. -/
  | writeSpan (span : Span)
  | read (i : Nat)
  | contains (i : Nat)
  | delete (i : Nat)
  /-- Deletes at every position of a span, and counts the entries that were there. -/
  | deleteSpan (span : Span)
  | ensureCapacity (capacity : Nat)
  | indices
  | limits
  /-- Writes to a copy, and looks at the copy. -/
  | writeCopy (i : Nat) (p : Property)

/-- What a storage replies to a command. -/
inductive CommandReply where
  | done
  | flag (b : Bool)
  | property (p : Option Property)
  | count (n : Nat)
  | indices (is : List Nat)
  | limits (l : Limits)
  | copy (s : ElementsSummary)

/-- The property that a storage is filled with: the position as a value, with every attribute. -/
def positionProperty (i : Nat) : Property := .data (.ofNat i) .all

/-- Carries a command out. -/
def Command.apply (e : Elements Property) : Command → CommandReply × Elements Property
  | write i p => (.done, e.write i p)
  | writeSpan span =>
    (.done, span.positions.foldl (fun e i => e.write i (positionProperty i)) e)
  | read i => (.property (e.read i), e)
  | contains i => (.flag (e.contains i), e)
  | delete i =>
    let (present, e) := e.delete i
    (.flag present, e)
  | deleteSpan span =>
    let (n, e) := span.positions.foldl (fun (n, e) i =>
      let (present, e) := Elements.delete e i
      (if present then n + 1 else n, e)) (0, e)
    (.count n, e)
  | ensureCapacity capacity => (.done, e.ensureCapacity capacity)
  | indices => (.indices e.indices, e)
  | limits => (.limits e.limits, e)
  | writeCopy i p => (.copy (e.write i p).summary, e)

/-- Carries commands out one after the other: the replies, each with the storage in brief after it, and
the storage that is left. -/
def runStorage (e : Elements Property) :
    List Command → List (CommandReply × ElementsSummary) × Elements Property
  | [] => ([], e)
  | command :: rest =>
    let (reply, e) := command.apply e
    let summary := e.summary
    let (replies, e) := runStorage e rest
    ((reply, summary) :: replies, e)

end ObjectModel.Script
