import ObjectModel.Proofs.Protocol.Put
import ObjectModel.Proofs.Run.Trace

/-!
# Strict and lenient operations

An operation that may be refused is told whether a refusal is an error. This is all that it is told: a
strict and a lenient run of the same operation call the same functions and leave the same world, and their
answers differ only where the lenient one is a refusal (`Host.strictness`).

A refusal can be told from an error that came out of script code, also if that code raised a refusal of its
own. Script code has its turn in a definition when the value for an array's length is converted, and in an
assignment also when a setter is called.
-/

namespace ObjectModel

open ObjectModel.Action

variable {σ : Type}

/-! ## Operations that may be refused -/

/-- An operation that answers whether it was accepted. -/
inductive Request where
  | define (id : ObjectId) (key : Key) (d : Descriptor)
  | ordinaryDefine (id : ObjectId) (key : Key) (d : Descriptor)
  | delete (id : ObjectId) (key : Key)

/-- An operation that changes a value, if it is allowed to. -/
inductive Assignment where
  | put (id : ObjectId) (key : Key) (value : Value)
  | setIndex (id : ObjectId) (i : Nat) (value : Value)

/-- The conversion of the value that a definition names for an array's length fails. -/
def Protocol.ConversionFails (run : Callback σ) (id : ObjectId) (key : Key) (d : Descriptor)
    (w : World σ) (e : Error) : Prop :=
  ∃ value, converts w.heap id key d = some value ∧ ((toNumber run value).outcome w).1 = .error e

/-- The call of the setter that is the nearest property on the chain fails. -/
def Protocol.SetterFails (run : Callback σ) (id : ObjectId) (key : Key) (value : Value) (w : World σ)
    (e : Error) : Prop :=
  ∃ g f a, w.heap.property? id key = some (.accessor g (some f) a)
    ∧ ((call run f (.object id) [value]).outcome w).1 = .error e

/-- What an assignment asks of script code fails: a setter, or the conversion of an array's length. -/
def Protocol.PutFails (run : Callback σ) (id : ObjectId) (key : Key) (value : Value) (w : World σ)
    (e : Error) : Prop :=
  SetterFails run id key value w e ∨ ConversionFails run id key (.ofValue value) w e

namespace Request

/-- The operation, strict or not. -/
def operation (strict : Bool) : Request → Operation
  | define id key d => .define id key d strict
  | ordinaryDefine id key d => .ordinaryDefine id key d strict
  | delete id key => .delete id key strict

/-- Carries the operation out. -/
def perform (run : Callback σ) (strict : Bool) : Request → Action σ Bool
  | define id key d => Protocol.define run id key d strict
  | ordinaryDefine id key d => Protocol.ordinaryDefine id key d strict
  | delete id key => Protocol.delete id key strict

/-- What the operation asks of script code fails. -/
def ScriptFails (run : Callback σ) (w : World σ) (r : Request) (e : Error) : Prop :=
  match r with
  | define id key d => Protocol.ConversionFails run id key d w e
  | ordinaryDefine .. | delete .. => False

end Request

namespace Assignment

/-- The operation, strict or not. -/
def operation (strict : Bool) : Assignment → Operation
  | put id key value => .put id key value strict
  | setIndex id i value => .setIndex id i value strict

/-- Carries the operation out. -/
def perform (run : Callback σ) (strict : Bool) : Assignment → Action σ Unit
  | put id key value => Protocol.put run id key value strict
  | setIndex id i value => Protocol.setIndex run id i value strict

/-- What the operation asks of script code fails. -/
def ScriptFails (run : Callback σ) (w : World σ) (a : Assignment) (e : Error) : Prop :=
  match a with
  | put id key value => Protocol.PutFails run id key value w e
  | setIndex id i value => Protocol.PutFails run id (.ofWord i) value w e

end Assignment

/-! ## Answers -/

/-- How the lenient and the strict answer to one request are related, where `fails` are the errors that
script code may have raised on the way. -/
structure DualAnswers (fails : Error → Prop) (lenient strict : Except Error Bool) : Prop where
  ne_false : strict ≠ .ok false
  accepted : lenient = .ok true ↔ strict = .ok true
  refused : lenient = .ok false
    ↔ ∃ r, strict = .error (.refused r) ∧ (Error.refused r).kind = .typeError ∧ ¬ fails (.refused r)
  error : ∀ e, lenient = .error e → strict = .error e ∧ ((∃ x, e = .invalidLength x) ∨ fails e)

/-- How the outcomes of one assignment are related, lenient and strict. -/
structure DualEnds (fails : Error → Prop) (lenient strict : Except Error Unit) : Prop where
  error : ∀ e, lenient = .error e → strict = .error e ∧ ((∃ x, e = .invalidLength x) ∨ fails e)
  further : ∀ e, strict = .error e → lenient ≠ .error e → e.kind = .typeError

variable {fails : Error → Prop}

/-- The answers to a request that calls nothing are reports of one verdict. -/
theorem Verdict.dual (verdict : Verdict) (nothing : ∀ e, ¬ fails e) :
    DualAnswers fails (verdict.answer false) (verdict.answer true) := by
  cases verdict with
  | accepted =>
    refine ⟨nofun, Iff.rfl, ⟨nofun, ?_⟩, nofun⟩
    rintro ⟨r, hr, -⟩
    cases hr
  | refused r => exact ⟨nofun, ⟨nofun, nofun⟩, ⟨fun _ => ⟨r, rfl, rfl, nothing _⟩, fun _ => rfl⟩, nofun⟩

namespace DualAnswers

/-- An error that is no refusal is an error for every caller. -/
theorem of_error {e : Error} (other : (∃ x, e = .invalidLength x) ∨ fails e) :
    DualAnswers fails (.error e) (.error e) := by
  refine ⟨nofun, ⟨nofun, nofun⟩, ⟨nofun, ?_⟩, ?_⟩
  · rintro ⟨r, hr, -, unfailing⟩
    cases hr
    rcases other with ⟨x, hx⟩ | hfails
    · cases hx
    · exact absurd hfails unfailing
  · rintro _ ⟨⟩
    exact ⟨rfl, other⟩

/-- An assignment that ends in a request gives its answer up. -/
theorem discard {lenient strict : Except Error Bool} (h : DualAnswers fails lenient strict) :
    DualEnds fails (lenient.map fun _ => ()) (strict.map fun _ => ()) := by
  constructor
  · intro e he
    cases lenient with
    | ok b => cases he
    | error e' =>
      cases he
      obtain ⟨hstrict, hwhy⟩ := h.error e rfl
      rw [hstrict]
      exact ⟨rfl, hwhy⟩
  · intro e he hne
    cases strict with
    | ok b => cases he
    | error e' =>
      cases he
      cases lenient with
      | error e'' => cases (h.error e'' rfl).1; exact absurd rfl hne
      | ok b =>
        cases b with
        | true => cases h.accepted.1 rfl
        | false =>
          obtain ⟨r, hr, hkind, -⟩ := h.refused.1 rfl
          cases hr
          exact hkind

end DualAnswers

namespace DualEnds

/-- An assignment whose end does not depend on the caller. -/
theorem of_eq {answer : Except Error Unit} (raised : ∀ e, answer = .error e → fails e) :
    DualEnds fails answer answer :=
  ⟨fun e he => ⟨he, .inr (raised e he)⟩, fun _ he hne => absurd he hne⟩

/-- An assignment that is done before it matters who asks. -/
theorem done : DualEnds fails (.ok ()) (.ok ()) := by
  refine .of_eq ?_
  rintro _ ⟨⟩

/-- A refused assignment. -/
theorem of_refusal (r : Refusal) : DualEnds fails (.ok ()) (.error (.refused r)) := by
  refine ⟨nofun, ?_⟩
  rintro _ ⟨⟩ -
  rfl

/-- Errors that may have been raised may be taken for more. -/
theorem mono {more : Error → Prop} {lenient strict : Except Error Unit}
    (h : DualEnds fails lenient strict) (le : ∀ e, fails e → more e) : DualEnds more lenient strict :=
  ⟨fun e he => ⟨(h.error e he).1, (h.error e he).2.imp_right (le e)⟩, h.further⟩

end DualEnds

/-! ## Two runs -/

namespace Protocol

variable (run : Callback σ) (w : World σ) (id : ObjectId) (key : Key)

variable {w id key} in
/-- A definition that converts nothing has no conversion that fails. -/
theorem not_conversionFails {d : Descriptor} (plain : converts w.heap id key d = none) (e : Error) :
    ¬ ConversionFails run id key d w e := by
  rintro ⟨value, hvalue, -⟩
  rw [plain] at hvalue
  cases hvalue

variable {w id key} in
/-- A definition that converts a value fails in the conversion of that value. -/
theorem conversionFails_iff {d : Descriptor} {value : Value}
    (converting : converts w.heap id key d = some value) (e : Error) :
    ConversionFails run id key d w e ↔ ((toNumber run value).outcome w).1 = .error e := by
  rw [ConversionFails, converting]
  exact ⟨fun ⟨_, hvalue, he⟩ => Option.some.inj hvalue ▸ he, fun he => ⟨value, rfl, he⟩⟩

/-- A strict definition and a lenient one leave the same world. -/
theorem define_dual (d : Descriptor) :
    ((define run id key d true).outcome w).2 = ((define run id key d false).outcome w).2
      ∧ DualAnswers (ConversionFails run id key d w) ((define run id key d false).outcome w).1
          ((define run id key d true).outcome w).1 := by
  cases hconverts : converts w.heap id key d with
  | none =>
    rw [outcome_define run hconverts, outcome_define run hconverts]
    exact ⟨rfl, Verdict.dual _ (not_conversionFails run hconverts)⟩
  | some value =>
    have hfails := conversionFails_iff run hconverts
    rw [outcome_define_converting run hconverts, outcome_define_converting run hconverts]
    -- the conversion is not told who asks
    generalize (toNumber run value).outcome w = conversion at hfails ⊢
    obtain ⟨e | x, w'⟩ := conversion
    · exact ⟨rfl, .of_error (.inr ((hfails e).2 rfl))⟩
    dsimp only
    rw [afterConversion, afterConversion]
    split
    · refine ⟨rfl, Verdict.dual _ ?_⟩
      intro e he
      cases (hfails e).1 he
    · exact ⟨rfl, .of_error (.inl ⟨x, rfl⟩)⟩

variable {w id key} in
/-- An assignment may end in any definition of the value that is assigned. -/
theorem discard_define_dual {d : Descriptor} {v : Value}
    (same : converts w.heap id key d = converts w.heap id key (.ofValue v)) :
    ((discard (define run id key d true)).outcome w).2 = ((discard (define run id key d false)).outcome w).2
      ∧ DualEnds (PutFails run id key v w) ((discard (define run id key d false)).outcome w).1
          ((discard (define run id key d true)).outcome w).1 := by
  obtain ⟨hworld, hanswers⟩ := define_dual run w id key d
  rw [outcome_discard, outcome_discard]
  refine ⟨hworld, hanswers.discard.mono ?_⟩
  rintro e ⟨value, hvalue, he⟩
  exact .inr ⟨value, same ▸ hvalue, he⟩

variable {w id key} in
/-- An assignment may end in the call of the setter that is there. -/
theorem discard_call_dual {g : Option Value} {f : Value} {a : Attributes} {v : Value}
    (nearest : w.heap.property? id key = some (.accessor g (some f) a)) :
    DualEnds (PutFails run id key v w) ((discard (call run f (.object id) [v])).outcome w).1
      ((discard (call run f (.object id) [v])).outcome w).1 := by
  refine .of_eq fun e he => .inl ⟨g, f, a, nearest, ?_⟩
  rw [outcome_discard] at he
  generalize (call run f (.object id) [v]).outcome w = called at he ⊢
  obtain ⟨e' | answer, w'⟩ := called
  · cases he
    rfl
  · cases he

/-- A strict assignment and a lenient one leave the same world. -/
theorem put_dual (v : Value) :
    ((put run id key v true).outcome w).2 = ((put run id key v false).outcome w).2
      ∧ DualEnds (PutFails run id key v w) ((put run id key v false).outcome w).1
          ((put run id key v true).outcome w).1 := by
  by_cases refuses : w.heap.RefusesPut id key
  · rw [outcome_put_of_refuses run refuses, outcome_put_of_refuses run refuses]
    exact ⟨rfl, .of_refusal _⟩
  rw [outcome_put_of_not_refuses run refuses, outcome_put_of_not_refuses run refuses]
  split
  · exact discard_define_dual run rfl
  by_cases hsetter : ∃ g s a, w.heap.property? id key = some (.accessor g s a)
  · obtain ⟨g, s, a, nearest⟩ := hsetter
    obtain ⟨setter, rfl, function⟩ := exists_setter refuses nearest
    rw [outcome_putInherited_setter run nearest function, outcome_putInherited_setter run nearest function]
    exact ⟨rfl, discard_call_dual run nearest⟩
  · have noAccessor : ∀ g s a, w.heap.property? id key ≠ some (.accessor g s a) :=
      fun g s a nearest => hsetter ⟨g, s, a, nearest⟩
    rw [outcome_putInherited_new run noAccessor, outcome_putInherited_new run noAccessor]
    exact discard_define_dual run rfl

/-- An element is overwritten, or the array stays as it is. -/
theorem overwriteElement_cases (v : Value) (i : Nat) (o : Object) :
    (overwriteElement v i o).1 = true ∨ overwriteElement v i o = (false, o) := by
  rw [overwriteElement]
  split
  · split
    · exact .inl rfl
    · exact .inr rfl
  · exact .inr rfl

/-- An assignment under a word overwrites an element, or is one like any other. -/
theorem outcome_setIndex (i : Nat) (v : Value) (strict : Bool) :
    (setIndex run id i v strict).outcome w
      = if (overwriteElement v i (w.heap.get id)).1 then
          (.ok (), ⟨(w.heap.alter id (overwriteElement v i)).2, w.host⟩)
        else (put run id (.ofWord i) v strict).outcome w := by
  rw [setIndex, outcome_bind, outcome_alter]
  dsimp only
  rcases overwriteElement_cases v i (w.heap.get id) with hdone | hkept
  · rw [if_pos hdone, if_pos hdone]
    rfl
  · rw [Heap.alter_of_same (by rw [hkept]), hkept, if_neg Bool.false_ne_true, if_neg Bool.false_ne_true]

/-- A strict assignment under a word and a lenient one leave the same world. -/
theorem setIndex_dual (i : Nat) (v : Value) :
    ((setIndex run id i v true).outcome w).2 = ((setIndex run id i v false).outcome w).2
      ∧ DualEnds (PutFails run id (.ofWord i) v w) ((setIndex run id i v false).outcome w).1
          ((setIndex run id i v true).outcome w).1 := by
  rw [outcome_setIndex, outcome_setIndex]
  split
  · exact ⟨rfl, .done⟩
  · exact put_dual run w id (.ofWord i) v

end Protocol

/-- A request leaves the world that its operation leaves. -/
theorem Request.world_operation (run : Callback σ) (strict : Bool) (w : World σ) (r : Request) :
    (((r.operation strict).perform run).outcome w).2 = ((r.perform run strict).outcome w).2 := by
  cases r <;> rfl

/-- An assignment leaves the world that its operation leaves. -/
theorem Assignment.world_operation (run : Callback σ) (strict : Bool) (w : World σ) (a : Assignment) :
    (((a.operation strict).perform run).outcome w).2 = ((a.perform run strict).outcome w).2 := by
  cases a <;> rfl

/-- A strict request and a lenient one leave the same world. -/
theorem Request.dual (run : Callback σ) (w : World σ) (r : Request) :
    ((r.perform run true).outcome w).2 = ((r.perform run false).outcome w).2
      ∧ DualAnswers (r.ScriptFails run w) ((r.perform run false).outcome w).1
          ((r.perform run true).outcome w).1 := by
  cases r with
  | define id key d => exact Protocol.define_dual run w id key d
  | ordinaryDefine id key d =>
    rw [perform, perform, Protocol.ordinaryDefine, Protocol.ordinaryDefine, outcome_attempt, outcome_attempt]
    exact ⟨rfl, Verdict.dual _ fun _ h => h⟩
  | delete id key =>
    rw [perform, perform, Protocol.delete, Protocol.delete, outcome_attempt, outcome_attempt]
    exact ⟨rfl, Verdict.dual _ fun _ h => h⟩

/-- A strict assignment and a lenient one leave the same world. -/
theorem Assignment.dual (run : Callback σ) (w : World σ) (a : Assignment) :
    ((a.perform run true).outcome w).2 = ((a.perform run false).outcome w).2
      ∧ DualEnds (a.ScriptFails run w) ((a.perform run false).outcome w).1
          ((a.perform run true).outcome w).1 := by
  cases a with
  | put id key v => exact Protocol.put_dual run w id key v
  | setIndex id i v => exact Protocol.setIndex_dual run w id i v

/-! ## What is called -/

namespace Host

/-- What happens on the way of an operation: the calls that it makes, and all that happens in these. -/
def onTheWay (host : Host σ) (depth : Nat) (op : Operation) (w : World σ) : List Event :=
  (host.trace depth (.ask op) w).dropLast

/-- It is what the recording host has in its record when the operation is over. -/
theorem onTheWay_eq (host : Host σ) (depth : Nat) (op : Operation) (w : World σ) :
    host.onTheWay depth op w
      = ((op.perform (host.recorded.call depth)).outcome ⟨w.heap, { host := w.host }⟩).2.host.log := by
  have hrecorded : (Routine.ask op : Routine σ _).recorded
      = .perform op fun result => .noting (.performed op result) (.finish result) := rfl
  rw [onTheWay, trace, record, run, hrecorded, Routine.runWith_perform]
  exact List.dropLast_concat

/-- A strict and a lenient run of one operation end in the same world and call the same functions, with
the same events on the way.

Where the operation answers whether it was accepted, the strict run never answers `false`, and both accept
or neither does. The lenient answer is `false` exactly if the strict one is a refusal, which is a type
error, by the protocol itself. An error of the lenient run is also the error of the strict one, and it is
an invalid length or the error of a conversion. Of an assignment, an error of the lenient run is also the
error of the strict one, and it is an invalid length or the error of a setter or a conversion; any further
error of the strict run is a type error. -/
theorem strictness (host : Host σ) (depth : Nat) (w : World σ) :
    (∀ r : Request,
        ((r.perform (host.call depth) true).outcome w).2
            = ((r.perform (host.call depth) false).outcome w).2
          ∧ host.onTheWay depth (r.operation true) w = host.onTheWay depth (r.operation false) w
          ∧ DualAnswers (r.ScriptFails (host.call depth) w)
              ((r.perform (host.call depth) false).outcome w).1
              ((r.perform (host.call depth) true).outcome w).1)
      ∧ ∀ a : Assignment,
        ((a.perform (host.call depth) true).outcome w).2
            = ((a.perform (host.call depth) false).outcome w).2
          ∧ host.onTheWay depth (a.operation true) w = host.onTheWay depth (a.operation false) w
          ∧ DualEnds (a.ScriptFails (host.call depth) w)
              ((a.perform (host.call depth) false).outcome w).1
              ((a.perform (host.call depth) true).outcome w).1 := by
  constructor
  · intro r
    obtain ⟨hworld, hanswers⟩ := r.dual (host.call depth) w
    refine ⟨hworld, ?_, hanswers⟩
    rw [onTheWay_eq, onTheWay_eq, Request.world_operation, Request.world_operation,
      (r.dual (host.recorded.call depth) _).1]
  · intro a
    obtain ⟨hworld, hends⟩ := a.dual (host.call depth) w
    refine ⟨hworld, ?_, hends⟩
    rw [onTheWay_eq, onTheWay_eq, Assignment.world_operation, Assignment.world_operation,
      (a.dual (host.recorded.call depth) _).1]

end Host

end ObjectModel
