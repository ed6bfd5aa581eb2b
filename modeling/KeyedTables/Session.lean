import KeyedTables.Construct
import KeyedTables.Snapshot

/-!
# Sessions

An environment in use, together with the tables taken out of it and the pins held on them. A session
is driven by steps, each of which may fail; a failed step leaves the environment it had reached. A
table that was taken out stays in use also after it has been replaced or removed.
-/
namespace KeyedTables

inductive Step
  | load (source : String)
  | build (source : String)
  | eval (source : String)
  | undefineTable (name : String)
  | setModule (name : String)
  | setGlobal (name : String) (v : Value)
  | takeOutput
  | restore (expand : Snapshot.Expander) (bytes : List UInt8)
  /-- Takes out the table at a position among all tables. -/
  | take (position : Nat)
  /-- Pins the table at a position among those taken out. -/
  | pin (position : Nat)
  /-- Releases the pin at a position among those held. -/
  | release (position : Nat)

structure Session where
  env : Environment
  /-- The tables taken out so far. -/
  taken : List Installed
  /-- The table of each pin that is held. -/
  held : List Installed
  deriving DecidableEq, Repr

namespace Session

def start (config : Config) : Session := ⟨.new config, [], []⟩

/-- The session after a computation in its environment, whether that failed or not. -/
def after {α : Type} (s : Session) (m : Eval α) : Session := { s with env := m.final s.env }

def step (s : Session) : Step → Session
  | .load source => s.after (Environment.load source)
  | .build source => s.after (Environment.build source)
  | .eval source => s.after (Environment.eval source)
  | .undefineTable name => s.after (Environment.undefineTable name)
  | .setModule name => s.after (Environment.setModule name)
  | .setGlobal name v => s.after (Construct.setGlobal name v)
  | .takeOutput => { s with env := s.env.takeOutput.2 }
  | .restore expand bytes => s.after (Environment.restoreWith expand bytes)
  | .take position =>
    match s.env.catalog.tables[position]? with
    | some t => { s with taken := s.taken ++ [t] }
    | none => s
  | .pin position =>
    match s.taken[position]? with
    | some t => { s with env := s.env.pin t, held := t :: s.held }
    | none => s
  | .release position =>
    match s.held[position]? with
    | some t => { s with env := s.env.unpin t, held := s.held.eraseIdx position }
    | none => s

def run (config : Config) (steps : List Step) : Session := steps.foldl step (start config)

/-- The serial number of each pin that is held. -/
def pins (s : Session) : List Nat := s.held.map Installed.serial

/-- What holds at the start and is kept by every step holds throughout every session. -/
theorem run_induction {P : Session → Prop} {config : Config} (hstart : P (start config))
    (hstep : ∀ s a, P s → P (s.step a)) (steps : List Step) : P (run config steps) := by
  have h : ∀ s, P s → P (steps.foldl step s) := by
    induction steps with
    | nil => exact fun s hs => hs
    | cons a steps ih => exact fun s hs => ih (s.step a) (hstep s a hs)
  exact h (start config) hstart

end Session

end KeyedTables
