import ObjectModel.Operation
import ObjectModel.Proofs.Heap.View
import ObjectModel.Proofs.Protocol.Outcome

/-!
# Two runs of one operation

An operation is run twice, from two worlds and with two hosts. `Agree R` says that both runs give the
same answer or the same error, and leave worlds that are in relation `R`.

The relations of interest are `Stable`: worlds in relation hold alike heaps, and stay in relation when
both are edited by the same ruled edit or given objects that are alike. `perform_agree` then says that
every operation agrees, whatever it does in between, as long as the calls of functions agree. It is
proved once, by following the protocol from action to action, and used with several relations:

* heaps that are alike, for arrays that differ in their representation;
* equal heaps under hosts with different states, for a host that also keeps a record;
* a world and itself, if some property holds of it, for what every operation preserves.
-/

namespace ObjectModel

open ObjectModel.Action

variable {σ τ α β : Type}

/-! ## Agreement -/

/-- Two actions, each from its own world, have the same answer or the same error and leave worlds in a
relation. -/
def Agree (R : World σ → World τ → Prop) (act : Action σ α) (act' : Action τ α) (w : World σ)
    (w' : World τ) : Prop :=
  (act.outcome w).1 = (act'.outcome w').1 ∧ R (act.outcome w).2 (act'.outcome w').2

namespace Agree

variable {R : World σ → World τ → Prop} {w : World σ} {w' : World τ}

/-- Answers known already agree. -/
theorem pure (h : R w w') (a : α) : Agree R (Pure.pure a) (Pure.pure a) w w' := ⟨rfl, h⟩

/-- Errors known already agree. -/
theorem throw (h : R w w') (e : Error) :
    Agree R (throw e : Action σ α) (MonadExcept.throw e) w w' := ⟨rfl, h⟩

/-- Actions that agree may be followed by actions that agree. -/
theorem bind {act : Action σ α} {act' : Action τ α} {k : α → Action σ β} {k' : α → Action τ β}
    (first : Agree R act act' w w') (next : ∀ a v v', R v v' → Agree R (k a) (k' a) v v') :
    Agree R (act >>= k) (act' >>= k') w w' := by
  rw [Agree, outcome_bind, outcome_bind]
  obtain ⟨hanswer, hworlds⟩ := first
  generalize act.outcome w = r at hanswer hworlds ⊢
  generalize act'.outcome w' = r' at hanswer hworlds ⊢
  obtain ⟨answer, v⟩ := r
  obtain ⟨answer', v'⟩ := r'
  obtain rfl : answer = answer' := hanswer
  cases answer with
  | ok a => exact next a v v' hworlds
  | error e => exact ⟨rfl, hworlds⟩

/-- What follows a reading of two heaps that read the same may use that reading. -/
theorem inspect_bind {f : Heap → α} {k : α → Action σ β} {k' : α → Action τ β}
    (same : f w.heap = f w'.heap) (next : Agree R (k (f w.heap)) (k' (f w.heap)) w w') :
    Agree R (inspect f >>= k) (inspect f >>= k') w w' := by
  rw [Agree, outcome_bind, outcome_bind, outcome_inspect, outcome_inspect, ← same]
  exact next

/-- A reading of two heaps that read the same agrees. -/
theorem inspect {f : Heap → α} (h : R w w') (same : f w.heap = f w'.heap) :
    Agree R (Action.inspect f) (Action.inspect f) w w' :=
  ⟨congrArg Except.ok same, h⟩

/-- The answers of actions that agree may be changed alike. -/
theorem map (f : α → β) {act : Action σ α} {act' : Action τ α} (first : Agree R act act' w w') :
    Agree R (f <$> act) (f <$> act') w w' := by
  rw [Agree, outcome_map, outcome_map, first.1]
  exact ⟨rfl, first.2⟩

/-- The answers of actions that agree may be given up. -/
theorem discard {act : Action σ α} {act' : Action τ α} (first : Agree R act act' w w') :
    Agree R (Functor.discard act) (Functor.discard act') w w' :=
  first.map _

/-- Reporting a verdict agrees. -/
theorem report (h : R w w') (strict : Bool) (verdict : Verdict) :
    Agree R (report strict verdict) (Action.report strict verdict) w w' := by
  cases verdict with
  | accepted => exact .pure h _
  | refused r =>
    rw [Action.report, Action.report]
    split
    · exact .throw h _
    · exact .pure h _

/-- An edit of alike objects agrees. -/
theorem alter {id : ObjectId} {e : Edit} (alike : (w.heap.get id).Alike (w'.heap.get id))
    (after : R (w.edit id e) (w'.edit id e)) :
    Agree R (Action.alter id e.act) (Action.alter id e.act) w w' := by
  rw [Agree, outcome_alter, outcome_alter, (alike.act e).1]
  exact ⟨rfl, after⟩

end Agree

/-! ## Stable relations -/

/-- A relation of worlds with alike heaps that no ruled edit breaks. -/
structure EditStable (R : World σ → World τ → Prop) : Prop where
  alike : ∀ {w w'}, R w w' → w.heap.Alike w'.heap
  edit : ∀ {w w'} (id : ObjectId) (e : Edit), R w w' → e.Ruled (w.heap.get id) →
    R (w.edit id e) (w'.edit id e)

/-- A relation of worlds with alike heaps that no ruled edit and no new object breaks. -/
structure Stable (R : World σ → World τ → Prop) : Prop extends EditStable R where
  allocate : ∀ {w w'} {o : Object}, R w w' → o.Fresh → R (w.allocate o) (w'.allocate o)

namespace Protocol

variable {R : World σ → World τ → Prop} {run : Callback σ} {run' : Callback τ}
variable {w : World σ} {w' : World τ}

/-- Calls of functions that agree, from all worlds in a relation. -/
def CallsAgree (R : World σ → World τ → Prop) (run : Callback σ) (run' : Callback τ) : Prop :=
  ∀ f this arguments w w', R w w' → Agree R (run f this arguments) (run' f this arguments) w w'

section

variable (stable : EditStable R)
include stable

/-- A ruled edit agrees. -/
theorem alter_agree {id : ObjectId} {e : Edit} (h : R w w') (ruled : e.Ruled (w.heap.get id)) :
    Agree R (alter id e.act) (alter id e.act) w w' :=
  .alter ((stable.alike h).objects id) (stable.edit id e h ruled)

/-- A ruled edit that may be refused agrees. -/
theorem attempt_agree {id : ObjectId} {e : Edit} (verdict : e.Answer → Verdict) (h : R w w')
    (ruled : e.Ruled (w.heap.get id)) (strict : Bool) :
    Agree R (alter id e.act >>= fun a => report strict (verdict a))
      (alter id e.act >>= fun a => report strict (verdict a)) w w' :=
  (alter_agree stable h ruled).bind fun _ _ _ h => .report h strict _

/-- The deletion of a property agrees. -/
theorem delete_agree (h : R w w') (id : ObjectId) (key : Key) (strict : Bool) :
    Agree R (delete id key strict) (delete id key strict) w w' :=
  attempt_agree stable (e := .delete key) (fun a => a) h trivial strict

variable (calls : CallsAgree R run run')
include calls

/-- The call of a value agrees. -/
theorem call_agree (h : R w w') (callee this : Value) (arguments : List Value) :
    Agree R (call run callee this arguments) (call run' callee this arguments) w w' := by
  cases callee with
  | object f =>
    refine .inspect_bind ((stable.alike h).classOf f) ?_
    split
    · exact calls f this arguments w w' h
    · exact .throw h _
  | undefined | null | boolean _ | number _ | string _ => exact .throw h _

/-- Reading a value agrees. -/
theorem get_agree (h : R w w') (id : ObjectId) (key : Key) :
    Agree R (get run id key) (get run' id key) w w' := by
  rw [get, get]
  refine .inspect_bind ((stable.alike h).property? id key) ?_
  split
  · exact .pure h _
  · exact .pure h _
  · split
    · exact call_agree stable calls h _ _ _
    · exact .pure h _

/-- Reading a value, if there is one, agrees. -/
theorem tryGet_agree (h : R w w') (id : ObjectId) (i : Nat) :
    Agree R (tryGet run id i) (tryGet run' id i) w w' := by
  rw [tryGet, tryGet]
  refine .inspect_bind ((stable.alike h).property? id _) ?_
  split
  · exact .pure h _
  · exact .pure h _
  · split
    · exact (call_agree stable calls h _ _ _).bind fun _ _ _ h => .pure h _
    · exact .pure h _

/-- Trying conversion methods agrees. -/
theorem firstPrimitive_agree (h : R w w') (id : ObjectId) (methods : List Key) :
    Agree R (firstPrimitive run id methods) (firstPrimitive run' id methods) w w' := by
  induction methods generalizing w w' with
  | nil => exact .throw h _
  | cons method rest ih =>
    rw [firstPrimitive, firstPrimitive]
    refine (get_agree stable calls h id method).bind fun f v v' h => ?_
    have hcallable : f.isCallable v.heap.classOf = f.isCallable v'.heap.classOf := by
      rw [funext (stable.alike h).classOf]
    refine .inspect_bind hcallable ?_
    split
    · refine (call_agree stable calls h _ _ _).bind fun primitive _ _ h => ?_
      split
      · exact .pure h _
      · exact ih h
    · exact ih h

/-- The conversion to a primitive value agrees. -/
theorem toPrimitive_agree (h : R w w') (hint : Hint) (v : Value) :
    Agree R (toPrimitive run hint v) (toPrimitive run' hint v) w w' := by
  cases v with
  | object id => exact firstPrimitive_agree stable calls h id hint.methods
  | undefined | null | boolean _ | number _ | string _ => exact .pure h _

/-- The conversion to a number agrees. -/
theorem toNumber_agree (h : R w w') (v : Value) :
    Agree R (toNumber run v) (toNumber run' v) w w' :=
  (toPrimitive_agree stable calls h .number v).bind fun _ _ _ h => .pure h _

/-- The conversion to a word agrees. -/
theorem toUint32_agree (h : R w w') (v : Value) :
    Agree R (toUint32 run v) (toUint32 run' v) w w' :=
  (toNumber_agree stable calls h v).bind fun _ _ _ h => .pure h _

/-- The definition of an array's length agrees. -/
theorem defineLength_agree (h : R w w') (id : ObjectId) (d : Descriptor) (value : Value)
    (strict : Bool) :
    Agree R (defineLength run id d value strict) (defineLength run' id d value strict) w w' := by
  rw [defineLength, defineLength]
  refine (toNumber_agree stable calls h value).bind fun x v v' h => ?_
  split
  · exact attempt_agree stable (e := .defineLength x.toUint32 d) (fun a => a) h x.toUint32_lt strict
  · exact .throw h _

/-- The definition of a property agrees. -/
theorem define_agree (h : R w w') (id : ObjectId) (key : Key) (d : Descriptor) (strict : Bool) :
    Agree R (define run id key d strict) (define run' id key d strict) w w' := by
  rw [define, define]
  refine .inspect_bind ((stable.alike h).objects id).isArray ?_
  -- the case of a length with a value goes another way, which is why the definition is a ruled one
  have plain (ruled : (Edit.define key d).Ruled (w.heap.get id)) :
      Agree R (attempt strict id (·.define key d)) (attempt strict id (·.define key d)) w w' :=
    attempt_agree stable (e := .define key d) (fun a => a) h ruled strict
  split
  · split
    · exact defineLength_agree stable calls h id d _ strict
    · next hvalue => exact plain fun _ _ => hvalue
  · next hlength => exact plain fun harray hkey => absurd (by simp [harray, hkey]) hlength

/-- The end of an assignment agrees. -/
theorem putInherited_agree (h : R w w') (id : ObjectId) (key : Key) (value : Value)
    (strict : Bool) :
    Agree R (putInherited run id key value strict) (putInherited run' id key value strict) w w' := by
  rw [putInherited, putInherited]
  refine .inspect_bind ((stable.alike h).property? id key) ?_
  split
  · split
    · exact (call_agree stable calls h _ _ _).discard
    · exact .pure h _
  · exact (define_agree stable calls h id key _ strict).discard

omit calls stable in
/-- Refusing an assignment agrees. -/
theorem rejectPut_agree (h : R w w') (key : Key) (strict : Bool) :
    Agree R (rejectPut key strict) (rejectPut key strict) w w' := by
  rw [rejectPut, rejectPut]
  split
  · exact .throw h _
  · exact .pure h _

/-- The assignment to a property of an array agrees. -/
theorem putOnArray_agree (h : R w w') (id : ObjectId) (key : Key) (value : Value) (strict : Bool) :
    Agree R (putOnArray run id key value strict) (putOnArray run' id key value strict) w w' := by
  rw [putOnArray, putOnArray]
  refine .inspect_bind ((stable.alike h).canPut id key) ?_
  split
  · refine .inspect_bind (((stable.alike h).objects id).find? key) ?_
    split
    · exact (define_agree stable calls h id key _ strict).discard
    · exact putInherited_agree stable calls h id key value strict
  · exact rejectPut_agree h key strict

/-- The assignment to a property agrees. -/
theorem put_agree (h : R w w') (id : ObjectId) (key : Key) (value : Value) (strict : Bool) :
    Agree R (put run id key value strict) (put run' id key value strict) w w' := by
  rw [put, put]
  refine .inspect_bind ((stable.alike h).objects id).isArray ?_
  split
  · exact putOnArray_agree stable calls h id key value strict
  · next hother =>
    have ruled : (Edit.overwrite value key).Ruled (w.heap.get id) := Bool.eq_false_of_not_eq_true hother
    refine (alter_agree stable (e := .overwrite value key) h ruled).bind fun overwritten v v' h => ?_
    split
    · exact .pure h _
    · refine .inspect_bind ((stable.alike h).canPut id key) ?_
      split
      · exact putInherited_agree stable calls h id key value strict
      · exact rejectPut_agree h key strict

/-- The assignment under a word agrees. -/
theorem setIndex_agree (h : R w w') (id : ObjectId) (i : Nat) (value : Value) (strict : Bool) :
    Agree R (setIndex run id i value strict) (setIndex run' id i value strict) w w' := by
  rw [setIndex, setIndex]
  refine (alter_agree stable (e := .overwriteElement value i) h trivial).bind
    fun overwritten v v' h => ?_
  split
  · exact .pure h _
  · exact put_agree stable calls h id _ value strict

/-- Appending agrees. -/
theorem push_agree (h : R w w') (id : ObjectId) (value : Value) :
    Agree R (push run id value) (push run' id value) w w' := by
  rw [push, push]
  -- the length read here is used to the end, whatever is called in between
  refine .inspect_bind ((stable.alike h).objects id).length ?_
  split
  · refine (put_agree stable calls h id _ value true).bind fun _ _ _ h => ?_
    exact (put_agree stable calls h id _ _ true).bind fun _ _ _ h => .pure h _
  · exact .throw h _

/-- Removing the last element agrees. -/
theorem pop_agree (h : R w w') (id : ObjectId) : Agree R (pop run id) (pop run' id) w w' := by
  rw [pop, pop]
  refine .inspect_bind ((stable.alike h).objects id).length ?_
  split
  · exact (put_agree stable calls h id _ _ true).bind fun _ _ _ h => .pure h _
  · refine (get_agree stable calls h id _).bind fun element v v' h => ?_
    refine (delete_agree stable h id _ true).discard.bind fun _ _ _ h => ?_
    exact (put_agree stable calls h id _ _ true).bind fun _ _ _ h => .pure h _

end

end Protocol

namespace Operation

/-- The edit of an operation that bypasses the rules of the protocol: an ordinary definition, or a
removal that asks nothing. -/
def unruledEdit? : Operation → Option (ObjectId × Edit)
  | ordinaryDefine id key d _ => some (id, .ordinaryDefine key d)
  | remove id key => some (id, .erase key)
  | _ => none

/-- What an operation that makes an object makes: the prototype that the object is made for, and the
object as a function of its ancestors. -/
def making? : Operation → Option (Option ObjectId × (List ObjectId → Object))
  | newObject parent => some (parent, Object.ordinary)
  | newArray parent capacity limits => some (parent, (Object.array · capacity limits))
  | newArrayOf values => some (none, fun _ => Object.arrayOf values)
  | newFunction => some (none, fun _ => Object.function)
  | _ => none

/-- What an operation makes is as new objects are. -/
theorem fresh_of_making {op : Operation} {parent : Option ObjectId} {make : List ObjectId → Object}
    (making : op.making? = some (parent, make)) (ancestors : List ObjectId) : (make ancestors).Fresh := by
  cases op <;> cases making
  · exact .ordinary ancestors
  · exact .array ancestors _ _
  · exact .arrayOf _
  · exact .function

variable {R : World σ → World τ → Prop} {run : Callback σ} {run' : Callback τ}
variable {w : World σ} {w' : World τ}

/-- The making of an object agrees. -/
theorem allocate_agree (stable : Stable R) (h : R w w') (parent : Option ObjectId)
    {make : List ObjectId → Object} (fresh : ∀ ancestors, (make ancestors).Fresh) :
    Agree R (allocate parent make) (allocate parent make) w w' := by
  have hchain : parent.map w.heap.chain = parent.map w'.heap.chain := by
    cases parent with
    | none => rfl
    | some id => exact congrArg some ((stable.alike h).chain id)
  rw [Agree, outcome_allocate, outcome_allocate, hchain]
  exact ⟨congrArg Except.ok ((stable.alike h).fst_allocate _ _), stable.allocate h (fresh _)⟩

/-- Every operation by the rules that makes no object agrees, whatever it does on the way. -/
theorem perform_agree_of_making (stable : EditStable R) (calls : Protocol.CallsAgree R run run')
    (op : Operation) (ruled : op.unruledEdit? = none) (plain : op.making? = none) (h : R w w') :
    Agree R (op.perform run) (op.perform run') w w' := by
  have alike := stable.alike h
  cases op with
  | newObject | newArray | newArrayOf | newFunction => cases plain
  | define id key d strict => exact Protocol.define_agree stable calls h id key d strict
  | ordinaryDefine => cases ruled
  | delete id key strict => exact Protocol.delete_agree stable h id key strict
  | remove => cases ruled
  | preventExtensions id => exact Protocol.alter_agree stable (e := .preventExtensions) h trivial
  | get id key => exact Protocol.get_agree stable calls h id key
  | tryGet id i => exact Protocol.tryGet_agree stable calls h id i
  | put id key value strict => exact Protocol.put_agree stable calls h id key value strict
  | setIndex id i value strict => exact Protocol.setIndex_agree stable calls h id i value strict
  | push id value => exact Protocol.push_agree stable calls h id value
  | pop id => exact Protocol.pop_agree stable calls h id
  | getOwn id key =>
    exact .inspect (f := fun g => (g.get id).find? key) h ((alike.objects id).find? key)
  | getProperty id key => exact .inspect (f := (·.property? id key)) h (alike.property? id key)
  | hasOwn id key =>
    exact .inspect (f := fun g => (g.get id).has key) h ((alike.objects id).has key)
  | has id key =>
    exact .inspect (f := fun g => (g.property? id key).isSome) h
      (congrArg Option.isSome (alike.property? id key))
  | canPut id key => exact .inspect (f := (·.canPut id key)) h (alike.canPut id key)
  | classOf id => exact .inspect (f := (·.classOf id)) h (alike.classOf id)
  | prototype id =>
    exact .inspect (f := fun g => (g.get id).prototype?) h
      (congrArg List.head? (alike.objects id).ancestors)
  | length id => exact .inspect (f := fun g => (g.get id).length) h (alike.objects id).length
  | isExtensible id =>
    exact .inspect (f := fun g => (g.get id).extensible) h (alike.objects id).extensible
  | keys id => exact .inspect (f := fun g => (g.get id).keys) h (alike.objects id).keys
  | properties id =>
    exact .inspect (f := fun g => (g.get id).properties) h (alike.objects id).properties
  | enumerate id =>
    exact .inspect (f := fun g => (⟨id, (g.get id).keys⟩ : Cursor)) h
      (congrArg (Cursor.mk id) (alike.objects id).keys)
  | next cursor => exact .inspect (f := (·.next cursor)) h (alike.next cursor)
  | toPrimitive hint v => exact Protocol.toPrimitive_agree stable calls h hint v
  | toNumber v => exact Protocol.toNumber_agree stable calls h v
  | toUint32 v => exact Protocol.toUint32_agree stable calls h v
  | call callee this arguments => exact Protocol.call_agree stable calls h callee this arguments

/-- Every operation by the rules agrees, whatever it does on the way. -/
theorem perform_agree (stable : Stable R) (calls : Protocol.CallsAgree R run run') (op : Operation)
    (ruled : op.unruledEdit? = none) (h : R w w') :
    Agree R (op.perform run) (op.perform run') w w' := by
  cases plain : op.making? with
  | none => exact perform_agree_of_making stable.toEditStable calls op ruled plain h
  | some making =>
    cases op with
    | newObject parent => exact allocate_agree stable h parent .ordinary
    | newArray parent capacity limits =>
      exact allocate_agree stable h parent (.array · capacity limits)
    | newArrayOf values => exact allocate_agree stable h none fun _ => .arrayOf values
    | newFunction => exact allocate_agree stable h none fun _ => .function
    | _ => cases plain

/-- An operation that bypasses the rules makes one edit and nothing else. So it agrees for any relation
that this edit leads to. -/
theorem perform_agree_of_unruled {id : ObjectId} {e : Edit} (op : Operation)
    (unruled : op.unruledEdit? = some (id, e)) (alike : w.heap.Alike w'.heap)
    (after : R (w.edit id e) (w'.edit id e)) :
    Agree R (op.perform run) (op.perform run') w w' := by
  cases op <;> cases unruled
  · next key d strict =>
    exact (Agree.alter (e := .ordinaryDefine key d) (alike.objects id) after).bind
      fun _ _ _ h => .report h strict _
  · next key => exact .alter (e := .erase key) (alike.objects id) after

end Operation

end ObjectModel
