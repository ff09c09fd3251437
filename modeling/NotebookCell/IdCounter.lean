/-!
# Ids of cells

An `IdCounter` names cells by a number that grows with each name, with an optional label before it.
-/

namespace NotebookCell

/-- A source of ids such as `cell-3` or `cell-chart-4`. -/
structure IdCounter where
  stem : String := "cell"
  count : Int := 0
deriving DecidableEq, Repr

namespace IdCounter

/-- The next id and the counter after it. An empty label counts as none. -/
def next (counter : IdCounter) (label : Option String) : String × IdCounter :=
  let count := counter.count + 1
  let middle := match label with
    | none | some "" => "-"
    | some label => "-" ++ label ++ "-"
  (counter.stem ++ middle ++ toString count, { counter with count })

/-- The counter at zero. -/
def reset (counter : IdCounter) : IdCounter := { counter with count := 0 }

end IdCounter

end NotebookCell
