import ObjectModel.Proofs.Run.Chronicle
import Mathlib.Data.List.Nodup

/-!
# Enumerations under way

An enumeration goes by the keys that the object had when it began. Between two of its turns anything may be
done to the object. A turn passes over the keys that are absent at that moment and answers the first that
is present, with the property stored then; the keys that it has passed over or answered are those that it
has *reached*.

What a whole enumeration does is said in `Enumerates`: its turns reach the keys from the beginning one by
one, each once, and a key is answered exactly if it is present when it is reached. Every enumeration of
every run is so, however its turns are spread over the run (`Host.enumerates`).
-/

namespace ObjectModel

variable {σ α : Type}

/-! ## Turns -/

/-- A turn of an enumeration: the heap at that moment, the enumeration before, what was answered, and the
enumeration after. -/
structure Turn where
  heap : Heap
  cursor : Cursor
  answer : Option (Key × Property)
  left : Cursor

namespace Turn

/-- The key that was answered. -/
def key? (t : Turn) : Option Key := t.answer.map Prod.fst

/-- The keys that were reached: those that were pending before and are not any more. -/
def reached (t : Turn) : List Key :=
  t.cursor.pending.take (t.cursor.pending.length - t.left.pending.length)

/-- What precedes the keys that are left is what was reached. -/
theorem reached_eq {t : Turn} {keys : List Key} (h : t.cursor.pending = keys ++ t.left.pending) :
    t.reached = keys := by
  rw [reached, h, List.length_append, Nat.add_sub_cancel, List.take_left]

/-- Each turn goes on where the one before has stopped. -/
def Linked : Cursor → List Turn → Prop
  | _, [] => True
  | c, t :: rest => t.cursor = c ∧ Linked t.left rest

instance Linked.instDecidable : (c : Cursor) → (turns : List Turn) → Decidable (Linked c turns)
  | _, [] => .isTrue trivial
  | _, t :: rest => @instDecidableAnd _ _ _ (instDecidable t.left rest)

end Turn

namespace Event

/-- The enumeration that an event began: of which object, and the enumeration itself. -/
def begun? (e : Event) : Option (ObjectId × Cursor) :=
  match e.happening with
  | .performed (.enumerate id) (.ok c) => some (id, c)
  | _ => none

/-- The turn that was taken at an event. -/
def turn? (e : Event) : Option Turn :=
  match e.happening with
  | .performed (.next cursor) (.ok (answer, left)) => some ⟨e.heap, cursor, answer, left⟩
  | _ => none

/-- The events before and after the one that began an enumeration. -/
theorem eq_append_of_begun {log : List Event} {n : Nat} {id : ObjectId} {c : Cursor}
    (begun : (log.drop n).head?.bind begun? = some (id, c)) :
    ∃ e, log = log.take n ++ e :: log.drop (n + 1) ∧ e.begun? = some (id, c) := by
  obtain ⟨e, hhead, hbegun⟩ := Option.bind_eq_some_iff.1 begun
  obtain ⟨later, hlater⟩ := List.head?_eq_some_iff.1 hhead
  have htail : later = log.drop (n + 1) := by rw [← List.tail_drop, hlater, List.tail_cons]
  exact ⟨e, by rw [← htail, ← hlater, List.take_append_drop], hbegun⟩

end Event

/-- What an enumeration of an object does in its turns, by the keys that the object had when it began. -/
structure Enumerates (id : ObjectId) (snapshot : List Key) (turns : List Turn) : Prop where
  nodup : snapshot.Nodup
  /-- The keys answered are some of those of the snapshot, in the same order; so each at most once. -/
  answered : (turns.filterMap Turn.key?).Sublist snapshot
  /-- The keys of the snapshot are reached from the first on. -/
  reached : turns.flatMap Turn.reached <+: snapshot
  /-- None of them is reached in two turns. -/
  once : turns.Pairwise fun t t' => ∀ key ∈ t.reached, key ∉ t'.reached
  /-- A key that is reached is answered if it is present at that moment, and only then. -/
  present : ∀ t ∈ turns, ∀ key ∈ t.reached,
    t.key? = some key ↔ ((t.heap.get id).find? key).isSome = true
  /-- A key that is answered is reached, and it is answered with the property stored at that moment. -/
  stored : ∀ t ∈ turns, ∀ key p, t.answer = some (key, p) →
    key ∈ t.reached ∧ (t.heap.get id).find? key = some p
  /-- When nothing is answered, all keys have been reached. -/
  exhausted : (∃ t ∈ turns, t.answer = none) → turns.flatMap Turn.reached = snapshot
  /-- From then on nothing is answered any more. -/
  finished : turns.Pairwise fun t t' => t.answer = none → t'.answer = none

/-! ## One turn -/

/-- The keys before the first that is present are absent, and those after it are left. -/
theorem Object.nextProperty_spec (o : Object) (pending : List Key) :
    ∃ skipped, (∀ key ∈ skipped, o.find? key = none)
      ∧ (pending = skipped ∧ o.nextProperty pending = (none, [])
        ∨ ∃ key p rest, pending = skipped ++ key :: rest ∧ o.find? key = some p
          ∧ o.nextProperty pending = (some (key, p), rest)) := by
  induction pending with
  | nil => exact ⟨[], by simp, .inl ⟨rfl, rfl⟩⟩
  | cons key rest ih =>
    rw [nextProperty]
    cases hfind : o.find? key with
    | some p => exact ⟨[], by simp, .inr ⟨key, p, rest, rfl, hfind, rfl⟩⟩
    | none =>
      obtain ⟨skipped, habsent, hend⟩ := ih
      refine ⟨key :: skipped, List.forall_mem_cons.2 ⟨hfind, habsent⟩, ?_⟩
      rcases hend with ⟨rfl, hnext⟩ | ⟨key', p, rest', rfl, hfound, hnext⟩
      · exact .inl ⟨rfl, hnext⟩
      · exact .inr ⟨key', p, rest', rfl, hfound, hnext⟩

namespace Turn

/-- The turn was taken of the enumeration of an object, and had the answer that the heap gives. -/
structure Taken (id : ObjectId) (t : Turn) : Prop where
  owner : t.cursor.owner = id
  next : t.heap.next t.cursor = (t.answer, t.left)

namespace Taken

variable {id : ObjectId} {t : Turn}

/-- A turn ends with the keys it has passed over, or with one that is present. -/
theorem cases (taken : t.Taken id) :
    (∀ key ∈ t.reached, (t.heap.get id).find? key = none)
        ∧ t.answer = none ∧ t.left.pending = [] ∧ t.cursor.pending = t.reached
      ∨ ∃ skipped key p, (∀ key ∈ skipped, (t.heap.get id).find? key = none)
        ∧ (t.heap.get id).find? key = some p ∧ t.answer = some (key, p)
        ∧ t.reached = skipped ++ [key] ∧ t.cursor.pending = t.reached ++ t.left.pending := by
  have hnext : (((t.heap.get id).nextProperty t.cursor.pending).1,
      { t.cursor with pending := ((t.heap.get id).nextProperty t.cursor.pending).2 })
      = (t.answer, t.left) := taken.owner ▸ taken.next
  obtain ⟨hanswer, hleft⟩ := Prod.mk.inj hnext
  replace hleft : ((t.heap.get id).nextProperty t.cursor.pending).2 = t.left.pending :=
    congrArg Cursor.pending hleft
  obtain ⟨skipped, habsent, hend⟩ := (t.heap.get id).nextProperty_spec t.cursor.pending
  rcases hend with ⟨hpending, hlast⟩ | ⟨key, p, rest, hpending, hfound, hfirst⟩
  · rw [hlast] at hanswer hleft
    have hreached : t.reached = skipped := reached_eq (by rw [hpending, ← hleft, List.append_nil])
    exact .inl ⟨hreached ▸ habsent, hanswer.symm, hleft.symm, hpending.trans hreached.symm⟩
  · rw [hfirst] at hanswer hleft
    have hleft : rest = t.left.pending := hleft
    rw [List.append_cons, hleft] at hpending
    have hreached : t.reached = skipped ++ [key] := reached_eq hpending
    exact .inr ⟨skipped, key, p, habsent, hfound, hanswer.symm, hreached, hreached ▸ hpending⟩

/-- A turn takes what it reaches off the keys that are pending. -/
theorem pending_eq (taken : t.Taken id) : t.cursor.pending = t.reached ++ t.left.pending := by
  rcases taken.cases with ⟨-, -, hleft, hpending⟩ | ⟨-, -, -, -, -, -, -, hpending⟩
  · rw [hleft, List.append_nil, hpending]
  · exact hpending

/-- A turn that answers nothing leaves nothing. -/
theorem left_of_none (taken : t.Taken id) (none : t.answer = none) : t.left.pending = [] := by
  rcases taken.cases with ⟨-, -, hleft, -⟩ | ⟨_, _, _, -, -, hanswer, -⟩
  · exact hleft
  · rw [none] at hanswer
    cases hanswer

/-- If no key is pending, nothing is answered. -/
theorem answer_of_nil (taken : t.Taken id) (done : t.cursor.pending = []) : t.answer = none := by
  rcases taken.cases with ⟨-, hanswer, -⟩ | ⟨skipped, key, _, -, -, -, hreached, hpending⟩
  · exact hanswer
  · rw [done, hreached] at hpending
    simp at hpending

/-- A key that is reached is answered exactly if it is present. -/
theorem present (taken : t.Taken id) {key : Key} (mem : key ∈ t.reached) :
    t.key? = some key ↔ ((t.heap.get id).find? key).isSome = true := by
  rw [key?]
  rcases taken.cases with ⟨habsent, hanswer, -⟩ | ⟨skipped, key', p, habsent, hfound, hanswer, hreached, -⟩
  · rw [hanswer, habsent key mem]
    exact iff_of_false nofun nofun
  · rw [hanswer, Option.map_some, Option.some.injEq]
    rw [hreached, List.mem_append, List.mem_singleton] at mem
    rcases mem with mem | rfl
    · -- the key was passed over, so it is not the one that is present
      refine iff_of_false (fun hsame => ?_) (by rw [habsent key mem]; exact nofun)
      obtain rfl : key' = key := hsame
      rw [habsent key' mem] at hfound
      cases hfound
    · exact iff_of_true rfl (Option.isSome_of_mem hfound)

/-- A key that is answered is reached, and stands with its property. -/
theorem stored (taken : t.Taken id) {key : Key} {p : Property} (answer : t.answer = some (key, p)) :
    key ∈ t.reached ∧ (t.heap.get id).find? key = some p := by
  rcases taken.cases with ⟨-, hanswer, -⟩ | ⟨skipped, key', p', -, hfound, hanswer, hreached, -⟩
  · rw [answer] at hanswer
    cases hanswer
  · rw [answer] at hanswer
    cases hanswer
    exact ⟨hreached ▸ List.mem_append_right _ (List.mem_singleton_self _), hfound⟩

/-- What is answered is among what is reached. -/
theorem key?_sublist (taken : t.Taken id) : t.key?.toList.Sublist t.reached := by
  rw [key?]
  cases hanswer : t.answer with
  | none => exact List.nil_sublist _
  | some entry => exact List.singleton_sublist.2 (taken.stored hanswer).1

end Taken

/-! ## All turns -/

variable {id : ObjectId} {c : Cursor} {turns : List Turn}

/-- The turns take what they reach off the keys that are pending at the beginning. Nothing is left if one
of them answers nothing. -/
theorem Linked.pending_eq (linked : Linked c turns) (taken : ∀ t ∈ turns, t.Taken id) :
    ∃ rest, c.pending = turns.flatMap reached ++ rest
      ∧ ((∃ t ∈ turns, t.answer = none) → rest = []) := by
  induction turns generalizing c with
  | nil => exact ⟨c.pending, rfl, fun ⟨t, ht, _⟩ => by cases ht⟩
  | cons t later ih =>
    obtain ⟨rfl, hlinked⟩ := linked
    obtain ⟨htaken, hlater⟩ := List.forall_mem_cons.1 taken
    obtain ⟨rest, hpending, hrest⟩ := ih hlinked hlater
    refine ⟨rest, ?_, ?_⟩
    · rw [htaken.pending_eq, hpending, List.flatMap_cons, List.append_assoc]
    · rintro ⟨t', ht', hnone⟩
      rcases List.mem_cons.1 ht' with rfl | ht'
      · rw [htaken.left_of_none hnone] at hpending
        exact (List.append_eq_nil_iff.1 hpending.symm).2
      · exact hrest ⟨t', ht', hnone⟩

/-- If no key is pending, nothing is answered from there on. -/
theorem Linked.answer_of_nil (linked : Linked c turns) (taken : ∀ t ∈ turns, t.Taken id)
    (done : c.pending = []) : ∀ t ∈ turns, t.answer = none := by
  induction turns generalizing c with
  | nil => exact fun t ht => by cases ht
  | cons t later ih =>
    obtain ⟨rfl, hlinked⟩ := linked
    obtain ⟨htaken, hlater⟩ := List.forall_mem_cons.1 taken
    have hnone := htaken.answer_of_nil done
    exact List.forall_mem_cons.2 ⟨hnone, ih hlinked hlater (htaken.left_of_none hnone)⟩

/-- Once nothing is answered, nothing is answered any more. -/
theorem Linked.finished (linked : Linked c turns) (taken : ∀ t ∈ turns, t.Taken id) :
    turns.Pairwise fun t t' => t.answer = none → t'.answer = none := by
  induction turns generalizing c with
  | nil => exact .nil
  | cons t later ih =>
    obtain ⟨rfl, hlinked⟩ := linked
    obtain ⟨htaken, hlater⟩ := List.forall_mem_cons.1 taken
    refine .cons (fun t' ht' hnone => ?_) (ih hlinked hlater)
    exact hlinked.answer_of_nil hlater (htaken.left_of_none hnone) t' ht'

/-- The keys that turns answer are among those that they reach. -/
theorem answered_sublist (taken : ∀ t ∈ turns, t.Taken id) :
    (turns.filterMap key?).Sublist (turns.flatMap reached) := by
  induction turns with
  | nil => exact .slnil
  | cons t later ih =>
    obtain ⟨htaken, hlater⟩ := List.forall_mem_cons.1 taken
    have happend : (t :: later).filterMap key? = t.key?.toList ++ later.filterMap key? := by
      rw [List.filterMap_cons]
      cases t.key? <;> rfl
    rw [happend, List.flatMap_cons]
    exact htaken.key?_sublist.append (ih hlater)

/-- Turns that go on from one another enumerate the keys that are pending at the beginning. -/
theorem Linked.enumerates_pending (linked : Linked c turns) (taken : ∀ t ∈ turns, t.Taken id)
    (nodup : c.pending.Nodup) : Enumerates id c.pending turns := by
  obtain ⟨rest, hpending, hrest⟩ := linked.pending_eq taken
  have hprefix : turns.flatMap reached <+: c.pending := ⟨rest, hpending.symm⟩
  have hnodup : (turns.flatMap reached).Nodup := hprefix.sublist.nodup nodup
  exact {
    nodup
    answered := (answered_sublist taken).trans hprefix.sublist
    reached := hprefix
    once := (List.nodup_flatMap.1 hnodup).2.imp fun disjoint _ hkey hkey' => disjoint hkey hkey'
    present := fun t ht _ mem => (taken t ht).present mem
    stored := fun t ht _ _ answer => (taken t ht).stored answer
    exhausted := fun none => by rw [hpending, hrest none, List.append_nil]
    finished := linked.finished taken }

end Turn

/-! ## Enumerations in a run -/

namespace Chronicle

variable {start heap : Heap} {past : List Heap} {log : List Event} {e : Event}

/-- An enumeration begins with the keys that the object has. -/
theorem begun (chronicle : Chronicle start past log heap) (mem : e ∈ log) {id : ObjectId} {c : Cursor}
    (begun : e.begun? = some (id, c)) : c = ⟨id, (e.heap.get id).keys⟩ := by
  obtain ⟨happening, h⟩ := e
  rw [Event.begun?] at begun
  split at begun
  · next id' c' hhappening =>
    cases begun
    cases hhappening
    exact Except.ok.inj (chronicle.result_of_reading rfl mem)
  · cases begun

/-- A turn has the answer that the heap gives. -/
theorem turn (chronicle : Chronicle start past log heap) (mem : e ∈ log) {t : Turn}
    (turn : e.turn? = some t) : t.heap.next t.cursor = (t.answer, t.left) := by
  obtain ⟨happening, h⟩ := e
  rw [Event.turn?] at turn
  split at turn
  · next cursor answer left hhappening =>
    cases turn
    cases hhappening
    exact (Except.ok.inj (chronicle.result_of_reading rfl mem)).symm
  · cases turn

end Chronicle

/-- Turns that go on from an enumeration of an object are turns of that enumeration. -/
theorem Turn.Linked.taken {id : ObjectId} {c : Cursor} {turns : List Turn} (linked : Linked c turns)
    (owner : c.owner = id) (next : ∀ t ∈ turns, t.heap.next t.cursor = (t.answer, t.left)) :
    ∀ t ∈ turns, t.Taken id := by
  induction turns generalizing c with
  | nil => exact fun t ht => by cases ht
  | cons t later ih =>
    obtain ⟨rfl, hlinked⟩ := linked
    obtain ⟨hnext, hlater⟩ := List.forall_mem_cons.1 next
    have howner : t.left.owner = id := by
      rw [← (Prod.mk.inj hnext).2]
      exact owner
    exact List.forall_mem_cons.2 ⟨⟨owner, hnext⟩, ih hlinked howner hlater⟩

namespace Host

/-- Whatever happens between its turns, an enumeration that a run begins goes by the keys that the object
has at that moment: the turns taken later that go on from it, and from one another, enumerate them. -/
theorem enumerates (host : Host σ) (depth : Nat) (r : Routine σ α) (s : σ) {before later : List Event}
    {e : Event} (log : host.trace depth r ⟨{}, s⟩ = before ++ e :: later) {id : ObjectId} {c : Cursor}
    (begun : e.begun? = some (id, c)) {turns : List Turn}
    (among : turns.Sublist (later.filterMap Event.turn?)) (linked : Turn.Linked c turns) :
    Enumerates id (e.heap.get id).keys turns := by
  obtain ⟨past, chronicle⟩ := host.chronicle depth r ⟨{}, s⟩
  have hmem : e ∈ host.trace depth r ⟨{}, s⟩ := log ▸ List.mem_append_right _ List.mem_cons_self
  have wellFormed := chronicle.wellFormed e.heap (chronicle.heap_mem hmem) id
  obtain rfl := chronicle.begun hmem begun
  refine linked.enumerates_pending (linked.taken rfl fun t ht => ?_) wellFormed.nodup_keys
  obtain ⟨e', he', hturn⟩ := List.mem_filterMap.1 (among.subset ht)
  refine chronicle.turn ?_ hturn
  rw [log]
  exact List.mem_append_right _ (List.mem_cons_of_mem _ he')

/-- Begins an enumeration of four properties and takes a turn, deletes the second and the third property,
makes the third again and a fifth, and takes four more turns. -/
def shifting : Routine Unit Unit :=
  .perform (.newObject none) fun _ =>
    assign "a" <| assign "b" <| assign "c" <| assign "d" <|
      .perform (.enumerate ⟨0⟩) fun
        | .error _ => .finish ()
        | .ok cursor =>
          turn cursor fun cursor =>
            delete "b" <| delete "c" <| assign "c" <| assign "e" <|
              turn cursor fun cursor => turn cursor fun cursor => turn cursor fun cursor =>
                turn cursor fun _ => .finish ()
where
  assign (text : String) (rest : Routine Unit Unit) : Routine Unit Unit :=
    .perform (.put ⟨0⟩ (.ofText text) .null true) fun _ => rest
  delete (text : String) (rest : Routine Unit Unit) : Routine Unit Unit :=
    .perform (.delete ⟨0⟩ (.ofText text) true) fun _ => rest
  turn (cursor : Cursor) (rest : Cursor → Routine Unit Unit) : Routine Unit Unit :=
    .perform (.next cursor) fun
      | .ok (_, cursor) => rest cursor
      | .error _ => .finish ()

/-- The key deleted for good is passed over, the one made again is answered at its old place, and the new
one is not seen. -/
theorem enumerates_shifting :
    ∃ before e later c, idle.trace 1 shifting ⟨{}, ()⟩ = before ++ e :: later
      ∧ e.begun? = some (⟨0⟩, c) ∧ Turn.Linked c (later.filterMap Event.turn?)
      ∧ (later.filterMap Event.turn?).map Turn.key?
        = [some (.ofText "a"), some (.ofText "c"), some (.ofText "d"), none, none]
      ∧ Enumerates ⟨0⟩ (e.heap.get ⟨0⟩).keys (later.filterMap Event.turn?) := by
  let c : Cursor := ⟨⟨0⟩, [.ofText "a", .ofText "b", .ofText "c", .ofText "d"]⟩
  have hbegun : ((idle.trace 1 shifting ⟨{}, ()⟩).drop 5).head?.bind Event.begun? = some (⟨0⟩, c) := by
    decide +kernel
  have linked : Turn.Linked c (((idle.trace 1 shifting ⟨{}, ()⟩).drop 6).filterMap Event.turn?) := by
    decide +kernel
  have keys : (((idle.trace 1 shifting ⟨{}, ()⟩).drop 6).filterMap Event.turn?).map Turn.key?
      = [some (.ofText "a"), some (.ofText "c"), some (.ofText "d"), none, none] := by decide +kernel
  obtain ⟨e, log, begun⟩ := Event.eq_append_of_begun hbegun
  exact ⟨_, e, _, c, log, begun, linked, keys, enumerates idle 1 shifting () log begun (.refl _) linked⟩

end Host

end ObjectModel
