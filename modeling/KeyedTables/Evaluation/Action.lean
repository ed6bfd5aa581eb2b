import KeyedTables.Evaluation.Environment

/-!
# Actions

What an expression does, step by step: it looks at the environment, changes it, and ends with a value
or an error. An action is run in an environment, and its trace tells every environment on the way.
-/
namespace KeyedTables

inductive Action (α : Type)
  | done (a : α)
  | fail (e : Error)
  /-- Goes on according to the environment. -/
  | read (next : Environment → Action α)
  /-- Changes the environment and goes on. -/
  | change (f : Environment → Environment) (next : Action α)

namespace Action
variable {α β : Type}

protected def bind : Action α → (α → Action β) → Action β
  | done a, f => f a
  | fail e, _ => fail e
  | read next, f => read fun env => (next env).bind f
  | change g next, f => change g (next.bind f)

instance : Monad Action where
  pure := done
  bind := Action.bind

/-- The environment as it is. -/
def environment : Action Environment := read done

def update (f : Environment → Environment) : Action Unit := change f (done ())

/-- The action with a given result, which leaves the environment alone. -/
def ofExcept : Except Error α → Action α
  | .ok a => done a
  | .error e => fail e

/-- Makes a change at the end, whatever the action came to. -/
def ending (f : Environment → Environment) : Action α → Action α
  | done a => change f (done a)
  | fail e => change f (fail e)
  | read next => read fun env => (next env).ending f
  | change g next => change g (next.ending f)

/-- Carries out all steps. -/
def run : Action α → Eval α
  | done a, env => .ok a env
  | fail e, env => .error e env
  | read next, env => (next env).run env
  | change f next, env => next.run (f env)

/-- The environment at the beginning and after each change. -/
def trace : Action α → Environment → List Environment
  | done _, env => [env]
  | fail _, env => [env]
  | read next, env => (next env).trace env
  | change f next, env => env :: next.trace (f env)

/-- The environment an action ends in. -/
def final (m : Action α) (env : Environment) : Environment := Eval.final m.run env

instance : CoeFun (Action α) fun _ => Environment → EStateM.Result Error Environment α := ⟨run⟩

end Action

end KeyedTables
