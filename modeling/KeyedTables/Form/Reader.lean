import KeyedTables.Error

/-!
# Reading forms

Tokens are grouped into forms by their parentheses. A text yields its forms in order, each with the
line reached behind it, and then the end of the text or the first fault; what lies behind a fault is
never looked at.
-/
namespace KeyedTables

/-- A list whose closing parenthesis has not come yet, with its items so far, the last one first. -/
structure OpenList where
  isImmediate : Bool
  items : List Form

def OpenList.close (o : OpenList) : Form :=
  if o.isImmediate then .immediate o.items.reverse else .list o.items.reverse

namespace Form

/-- What a token does to the lists open before it. -/
inductive Grouping
  /-- The lists open after it. -/
  | within (opens : List OpenList)
  /-- A form outside all lists is complete. -/
  | complete (form : Form)
  | unexpectedClose

/-- A form that is complete becomes an item of the innermost open list. -/
def Grouping.place (f : Form) : List OpenList → Grouping
  | [] => complete f
  | o :: outer => within (⟨o.isImmediate, f :: o.items⟩ :: outer)

/-- Takes one token; the innermost open list comes first. -/
def Grouping.step (opens : List OpenList) : Token → Grouping
  | .openList => within (⟨false, []⟩ :: opens)
  | .openImmediate => within (⟨true, []⟩ :: opens)
  | .close =>
    match opens with
    | [] => unexpectedClose
    | o :: outer => place o.close outer
  | .atom a => place (atom a) opens
  | .var v => place (var v) opens
  | .globalVar g => place (globalVar g) opens

/-- How a text ends inside open lists. -/
def stopWithin (opens : List OpenList) (stop : Stop) : Stop :=
  match opens, stop with
  | _ :: _, .atEnd line => .fault line .missingClose
  | _, stop => stop

/-- Groups tokens, some lists being open already. -/
def group (stop : Stop) : List (Token × Nat) → List OpenList → Reading Form
  | [], opens => ⟨[], stopWithin opens stop⟩
  | (t, line) :: ts, opens =>
    match Grouping.step opens t with
    | .within opens => group stop ts opens
    | .complete f => (group stop ts []).cons f line
    | .unexpectedClose => ⟨[], .fault line .unexpectedClose⟩

/-- The forms of a reading of tokens. -/
def ofTokens (tokens : Reading Token) : Reading Form := group tokens.stop tokens.items []

/-- The forms of a text, from line one on. -/
def reading (source : String) : Reading Form := ofTokens (Token.lex source.toList 1)

/-- All forms of a text. -/
def readAll (source : String) : Except Error (List Form) :=
  let r := reading source
  match r.stop with
  | .atEnd _ => .ok r.values
  | .fault line cause => .error (.unreadable line cause)

/-- The form of a text that holds exactly one. A second form is an error as soon as it is complete,
whatever follows it. -/
def readOne (source : String) : Except Error Form :=
  let r := reading source
  match r.items, r.stop with
  | _ :: (_, line) :: _, _ => .error (.unreadable line .expectedSingleForm)
  | _, .fault line cause => .error (.unreadable line cause)
  | [], .atEnd line => .error (.unreadable line .expectedForm)
  | [(f, _)], .atEnd _ => .ok f

end Form

end KeyedTables
