import KeyedTables.Error

/-!
# Arithmetic and comparison

The numeric functions on lists of values. All arguments must be numbers, the first that is not is
the error. Sums, differences and products fold from the left and stay among the integers as long as
they can; quotients and comparisons are always floating.
-/
namespace KeyedTables.Arithmetic

/-- The arguments as numbers. -/
def numbers (function : Builtin) : List Value → Except Error (List Number)
  | [] => .ok []
  | v :: vs =>
    match v.number? with
    | none => .error (.typeMismatch function .number v)
    | some n => (numbers function vs).map (n :: ·)

/-- Divides by one number after another. -/
def divideBy (acc : Binary64) : List Binary64 → Except Error Binary64
  | [] => .ok acc
  | d :: ds => if d.isZero then .error (.divideByZero .div) else divideBy (acc / d) ds

/-- A quotient; of a single number, its reciprocal. -/
def quotient (first : Binary64) : List Binary64 → Except Error Binary64
  | [] => divideBy .one [first]
  | rest => divideBy first rest

/-- A difference; of a single number, its negation. -/
def difference (first : Number) : List Number → Number
  | [] => -first
  | rest => rest.foldl (· - ·) first

/-- Sum, difference, product or quotient of at least one number. -/
def apply (function : Builtin) (values : List Value) : Except Error Value :=
  match numbers function values with
  | .error e => .error e
  | .ok [] => .error (.arity function.name (.atLeast 1) 0)
  | .ok (first :: rest) =>
    match function with
    | .div =>
      (quotient first.toBinary64 (rest.map Number.toBinary64)).map fun x => .atom (.float x)
    | .sub => .ok (.atom (.ofNumber (difference first rest)))
    | .add => .ok (.atom (.ofNumber (rest.foldl (· + ·) first)))
    | _ => .ok (.atom (.ofNumber (rest.foldl (· * ·) first)))

/-- Whether every two neighbours are in a relation. -/
def chained (r : Binary64 → Binary64 → Bool) (xs : List Binary64) : Bool :=
  (xs.zip xs.tail).all fun (x, y) => r x y

/-- The comparison of a function, on floating numbers. -/
def holds (function : Builtin) (xs : List Binary64) : Bool :=
  match function with
  | .numNe => xs.tail.all fun y => (xs.head?.map fun x => !x.eqv y).getD true
  | .numEq => chained Binary64.eqv xs
  | .gt => chained (fun x y => y.lt x) xs
  | .ge => chained (fun x y => y.le x) xs
  | .lt => chained Binary64.lt xs
  | _ => chained Binary64.le xs

def compare (function : Builtin) (values : List Value) : Except Error Value :=
  (numbers function values).map fun ns => .boolean (holds function (ns.map Number.toBinary64))

end KeyedTables.Arithmetic
