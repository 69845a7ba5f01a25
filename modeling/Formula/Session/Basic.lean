import Formula.Failure
import Formula.Session.Query

/-!
# Sessions

A session holds trees in named registers, values bound to names, and a stack of trees. Commands are
answered one after the other. What the other commands are answered does not depend on those that
fail (`Session.run_succeeding`).
-/

namespace Formula

/-- What a session holds. The stack is from the top down. -/
structure Session where
  registers : List (String × Expr)
  bindings : Bindings
  stack : List Expr

inductive Source where
  | number (q : Quantity)
  | name (name : String)
  | join (left symbol right : String)
  | parse (s : String)
  | clone (register : String)
  | reciprocal (register : String)
  | geometricMean (qs : List Quantity)
  | reparse (register : String)

inductive Command where
  | store (register : String) (source : Source)
  | pop (register : String)
  | bind (name : String) (q : Quantity)
  | unbind (name : String)
  | bindValue (name register : String)
  | evaluate (register : String)
  | same (left right : String)
  | distinct (registers : List String)
  | push (register : String)
  | reduce (o : Operator)
  | ask (query : Query) (register : String)

namespace Session

def empty : Session := ⟨[], .empty, []⟩

def fetch (s : Session) (register : String) : Except Failure Expr :=
  match s.registers.lookup register with
  | some e => .ok e
  | none => .error (.emptyRegister register)

def store (s : Session) (register : String) (e : Expr) : Session :=
  { s with registers := (register, e) :: s.registers.filter (·.1 ≠ register) }

/-- The written forms of the trees on the stack, from the bottom up. -/
def stackTexts (s : Session) : Except Failure (List String) :=
  (s.stack.reverse.mapM Expr.render).mapError .fault

def make (s : Session) : Source → Except Failure Expr
  | .number q => (q.toFloat.map .num).mapError .fault
  | .name name => .ok (.var name)
  | .join left symbol right => do
    let l ← s.fetch left
    let r ← s.fetch right
    .ok (.bin l symbol r)
  | .parse text => (parse text).mapError .parse
  | .clone register => do
    let e ← s.fetch register
    e.clone.mapError .fault
  | .reciprocal register => do
    let e ← s.fetch register
    e.reciprocal.mapError .fault
  | .geometricMean qs => (Expr.geometricMean qs).mapError .fault
  | .reparse register => do
    let e ← s.fetch register
    let text ← e.render.mapError .fault
    (Formula.parse text).mapError .parse

def execute (s : Session) : Command → Except Failure (Answer × Session)
  | .store register source => do
    let e ← s.make source
    .ok (.tree e, s.store register e)
  | .pop register =>
    match s.stack with
    | [] => .error .emptyStack
    | e :: stack => .ok (.tree e, { s with stack := stack }.store register e)
  | .bind name q =>
    let bindings := s.bindings.bind name q
    .ok (.texts bindings.names, { s with bindings := bindings })
  | .unbind name =>
    let bindings := s.bindings.unbind name
    .ok (.texts bindings.names, { s with bindings := bindings })
  | .bindValue name register => do
    let e ← s.fetch register
    let x ← (e.evaluate s.bindings).mapError .fault
    .ok (.number x, { s with bindings := s.bindings.bind name (.float x) })
  | .evaluate register => do
    let e ← s.fetch register
    let x ← (e.evaluate s.bindings).mapError .fault
    .ok (.number x, s)
  | .same left right => do
    let l ← s.fetch left
    let r ← s.fetch right
    .ok (.truth (l == r), s)
  | .distinct registers => do
    let es ← registers.mapM s.fetch
    .ok (.count (Expr.distinct es), s)
  | .push register => do
    let e ← s.fetch register
    let s := { s with stack := e :: s.stack }
    .ok (.texts (← s.stackTexts), s)
  | .reduce o => do
    let stack ← (o.reduce s.stack).mapError .underflow
    let s := { s with stack := stack }
    .ok (.texts (← s.stackTexts), s)
  | .ask query register => do
    let e ← s.fetch register
    let answer ← (query.answer e).mapError .fault
    .ok (answer, s)

def run (s : Session) : List Command → List (Except Failure Answer)
  | [] => []
  | c :: cs =>
    match s.execute c with
    | .ok (answer, s) => .ok answer :: s.run cs
    | .error f => .error f :: s.run cs

def succeeding (s : Session) : List Command → List Command
  | [] => []
  | c :: cs =>
    match s.execute c with
    | .ok (_, s) => c :: s.succeeding cs
    | .error _ => s.succeeding cs

/-- Without the commands that fail, the others are answered as before. -/
theorem run_succeeding (s : Session) (cs : List Command) :
    s.run (s.succeeding cs) = (s.run cs).filter Except.isOk := by
  induction cs generalizing s with
  | nil => rfl
  | cons c cs ih =>
    cases h : s.execute c with
    | error f =>
      have hrun : s.run (c :: cs) = .error f :: s.run cs := by rw [run, h]
      have hkept : s.succeeding (c :: cs) = s.succeeding cs := by rw [succeeding, h]
      rw [hkept, hrun, ih]
      rfl
    | ok result =>
      obtain ⟨answer, t⟩ := result
      have hrun (ds : List Command) : s.run (c :: ds) = .ok answer :: t.run ds := by rw [run, h]
      have hkept : s.succeeding (c :: cs) = c :: t.succeeding cs := by rw [succeeding, h]
      rw [hkept, hrun, hrun, ih]
      rfl

end Session

end Formula
