import ObjectModel.Routine
import ObjectModel.Script.Session

/-!
# Running scripts

Every step is a routine, and so is every call of a script's function. `Script.host` is the host that runs
them: it counts calls, records those that are made, and allows sixteen inside one another.
-/

namespace ObjectModel.Script

/-- A routine of a running script that may end with an error. -/
abbrev Task := ExceptT Error (Routine Session)

/-- Performs an operation. -/
def perform (op : Operation) : Task op.Answer := ExceptT.mk (Routine.ask op)

/-- Ends with the state of the session. -/
def session : Task Session := ExceptT.lift Routine.state

/-- Changes the state of the session. -/
def change (f : Session → Session) : Task Unit := ExceptT.lift (Routine.update f)

/-- Ends with something read off the heap. -/
def observe {α : Type} (f : Heap → α) : Task α := ExceptT.lift (Routine.observe f)

/-- Ends with an answer or an error that is known already. -/
def conclude {α : Type} (r : Except Error α) : Task α := ExceptT.mk (pure r)

/-- Names a new object. -/
def declare (name : String) (id : ObjectId) : Task Reply := do
  change (Session.declare name id)
  return .done

/-- What a deed does to an object. -/
def Deed.task (scope : Scope) (id : ObjectId) (deed : Deed) : Task Reply := do
  let s ← session
  match deed with
  | put key value strict =>
    perform (.put id (key.key scope) (value.eval s scope) strict)
    return .done
  | get key => return .value (← perform (.get id (key.key scope)))
  | getOwn key =>
    let p ← perform (.getOwn id (key.key scope))
    return p.elim .absent .property
  | getProperty key =>
    let p ← perform (.getProperty id (key.key scope))
    return p.elim .absent .property
  | hasOwn key => return .flag (← perform (.hasOwn id (key.key scope)))
  | has key => return .flag (← perform (.has id (key.key scope)))
  | canPut key => return .flag (← perform (.canPut id (key.key scope)))
  | define key form strict =>
    return .flag (← perform (.define id (key.key scope) (form.eval s scope) strict))
  | ordinaryDefine key form strict =>
    return .flag (← perform (.ordinaryDefine id (key.key scope) (form.eval s scope) strict))
  | copy source key strict =>
    match s.lookup? source with
    | none => return .absent
    | some other =>
      match ← perform (.getOwn other (key.key scope)) with
      | none => return .absent
      | some p => return .flag (← perform (.define id (key.key scope) (.ofProperty p) strict))
  | delete key strict => return .flag (← perform (.delete id (key.key scope) strict))
  | remove key =>
    perform (.remove id (key.key scope))
    return .done
  | setIndex i value strict =>
    perform (.setIndex id (i.word scope) (value.eval s scope) strict)
    return .done
  | tryGet i =>
    let v ← perform (.tryGet id (i.word scope))
    return v.elim .absent .value
  | push value => return .word (← perform (.push id (value.eval s scope)))
  | pop => return .value (← perform (.pop id))
  | preventExtensions =>
    perform (.preventExtensions id)
    return .done
  | keys => return .keys (← perform (.keys id))
  | properties => return .properties (← perform (.properties id))
  | enumerate cursor =>
    change (Session.setCursor cursor (← perform (.enumerate id)))
    return .done
  | call receiver arguments =>
    return .value
      (← perform (.call (.object id) (receiver.eval s scope) (arguments.map (·.eval s scope))))
  | profile => return .profile (← observe fun h => (h.get id).profile)
  | elements =>
    observe fun h => (h.get id).elements?.elim .absent fun e => .elements e.indices e.limits
  | slot i =>
    observe fun h => (h.get id).elements?.elim .absent fun e =>
      .slot (e.contains (i.word scope)) (e.read (i.word scope))

/-- Takes steps of an enumeration. -/
def takeEntries : Nat → Cursor → Task (List (Option (Key × Property)) × Cursor)
  | 0, c => return ([], c)
  | count + 1, c => do
    let (entry, c) ← perform (.next c)
    let (entries, c) ← takeEntries count c
    return (entry :: entries, c)

/-- Runs a task at every position until one fails, and counts the replies that are true. -/
def repeatAt (task : Nat → Task Reply) : List Nat → (runs hits : Nat) → Task Reply
  | [], runs, hits => return .tally runs hits
  | i :: rest, runs, hits => do
    let reply ← task i
    repeatAt task rest (runs + 1) (if reply.isTrue then hits + 1 else hits)

/-- What a step does. -/
def Step.task (scope : Scope) (step : Step) : Task Reply := do
  let s ← session
  match step with
  | newObject name parent => declare name (← perform (.newObject (parent.bind s.lookup?)))
  | newArray name parent capacity limits =>
    declare name (← perform (.newArray (parent.bind s.lookup?) capacity limits))
  | newArrayOf name values =>
    declare name (← perform (.newArrayOf (values.map (·.eval s scope))))
  | newFunction name body =>
    let id ← perform .newFunction
    change (Session.addFunction id body)
    declare name id
  | on subject deed =>
    match subject.resolve? s scope with
    | some id => deed.task scope id
    | none => return .absent
  | toNumber v => return .number (← perform (.toNumber (v.eval s scope)))
  | toUint32 v => return .word (← perform (.toUint32 (v.eval s scope)))
  | toPrimitive hint v => return .value (← perform (.toPrimitive hint (v.eval s scope)))
  | facts v => return .facts (← observe fun h => (v.eval s scope).facts h.classOf)
  | compare a b =>
    let v := a.eval s scope
    let w := b.eval s scope
    return .comparison (v.same w) (v.equals w)
  | call callee receiver arguments =>
    let arguments := arguments.map (·.eval s scope)
    return .value (← perform (.call (callee.eval s scope) (receiver.eval s scope) arguments))
  | next cursor count =>
    match s.cursor? cursor with
    | none => return .absent
    | some c =>
      let (entries, c) ← takeEntries count c
      change (Session.setCursor cursor c)
      return .entries entries
  | each span step =>
    repeatAt (fun i => step.task { scope with position := i }) span.positions 0 0

/-- Runs a step and looks at the object that it is about. -/
def Step.report (scope : Scope) (step : Step) : Routine Session Report := do
  let result ← (step.task scope).run
  match step with
  | on subject _ =>
    let s ← Routine.state
    let summary ← Routine.observe fun h =>
      (subject.resolve? s scope).map fun id => (h.get id).summary
    return ⟨result, summary⟩
  | _ => return ⟨result, none⟩

/-- How a call ends that no step has ended; `calls` is the number of calls so far. -/
def Ending.result (s : Session) (scope : Scope) (calls : Nat) : Ending → Except Error Value
  | fail thrown => .error (.exception (thrown.eval s scope))
  | typeError text => .error (.typeError text)
  | rangeError text => .error (.rangeError text)
  | this => .ok scope.this
  | argument i => .ok (scope.arguments[i]?.getD .undefined)
  | callCount => .ok (.ofNat calls)
  | value v => .ok (v.eval s scope)

/-- Runs the steps of a body whose call is recorded at `place`. Unless errors are propagated, all of
them are run. -/
def runBody (scope : Scope) (place : Nat) (propagate : Bool) : List Step → Task Unit
  | [] => return ()
  | step :: rest => do
    let report ← ExceptT.lift (step.report scope)
    change (Session.recordReport place report)
    match report.result, propagate with
    | .error e, true => throw e
    | _, _ => runBody scope place propagate rest

/-- What a call of a function does. -/
def behaviour (f : ObjectId) (this : Value) (arguments : List Value) : Task Value := do
  change (Session.countCall f)
  let s ← session
  match s.function? f with
  | none => return .undefined
  | some ⟨_, body, calls⟩ =>
    let scope : Scope := { this, arguments }
    change (Session.recordCall ⟨f, this, arguments, body.steps.map fun _ => []⟩)
    runBody scope s.record.length body.propagate (body.steps.getD [])
    conclude (body.ending.result (← session) scope calls)

/-- The host of a running script. -/
def host : Host Session where
  behaviour := behaviour
  refused := Session.countCall

/-- How many calls may be inside one another. -/
def callDepth : Nat := 16

/-- A report on a step of the script itself, with the calls that were made. -/
structure Entry where
  report : Report
  calls : List CallRecord

/-- Runs the steps of a script one after the other. -/
def runSteps : List Step → Routine Session (List Entry)
  | [] => return []
  | step :: rest => do
    Routine.update Session.clearRecord
    let report ← step.report {}
    let s ← Routine.state
    let entries ← runSteps rest
    return ⟨report, s.record⟩ :: entries

/-- Runs a script from an empty heap: the reports on its steps, and the world that it leaves. -/
def run (steps : List Step) : List Entry × World Session :=
  host.run callDepth (runSteps steps) ⟨{}, {}⟩

end ObjectModel.Script
