import FormulaLedger.Calculation

/-!
The reference graph: which calculation refers to which constants and calculations. The graph keeps
both directions, each sorted and without repeats, so it does not depend on the order in which
references were added.
-/

set_option autoImplicit false

namespace FormulaLedger

def insertSorted {α : Type} [LT α] [DecidableLT α] (x : α) : List α → List α
  | [] => [x]
  | y :: ys =>
    if x < y then x :: y :: ys
    else if y < x then y :: insertSorted x ys
    else y :: ys

def insertUnder {κ α : Type} [LT κ] [DecidableLT κ] [LT α] [DecidableLT α] (k : κ) (x : α) :
    List (κ × List α) → List (κ × List α)
  | [] => [(k, [x])]
  | (k', xs) :: rest =>
    if k < k' then (k, [x]) :: (k', xs) :: rest
    else if k' < k then (k', xs) :: insertUnder k x rest
    else (k', insertSorted x xs) :: rest

inductive EntityKind
  | constant
  | calculation
  deriving DecidableEq, Repr

def EntityKind.name : EntityKind → String
  | .constant => "constant"
  | .calculation => "calculation"

structure Entity where
  kind : EntityKind
  uniqueId : String
  deriving DecidableEq, Repr

namespace Entity

/-- Constants come before calculations, and each kind is ordered by unique id. -/
def lt (a b : Entity) : Prop :=
  match a.kind, b.kind with
  | .constant, .calculation => True
  | .calculation, .constant => False
  | _, _ => a.uniqueId < b.uniqueId

instance : LT Entity := ⟨lt⟩

instance : DecidableLT Entity := fun a b => by
  show Decidable (lt a b)
  unfold lt
  split <;> infer_instance

end Entity

def Pointer.entity? (p : Pointer) : Option Entity :=
  match p.target with
  | .constant uniqueId => some ⟨.constant, uniqueId⟩
  | .calculation uniqueId => some ⟨.calculation, uniqueId⟩
  | _ => none

structure ReferenceGraph where
  /-- What refers to an entity. -/
  incoming : List (Entity × List String)
  /-- What a calculation refers to. -/
  outgoing : List (String × List Entity)
  deriving DecidableEq, Repr

namespace ReferenceGraph

def empty : ReferenceGraph := ⟨[], []⟩

def add (g : ReferenceGraph) (source : String) (target : Entity) : ReferenceGraph :=
  ⟨insertUnder target source g.incoming, insertUnder source target g.outgoing⟩

def addCalculation (g : ReferenceGraph) (c : Calculation) : ReferenceGraph :=
  (c.expression.filterMap Pointer.entity?).foldl (fun g target => g.add c.uniqueId target) g

def ofCalculations (cs : List Calculation) : ReferenceGraph := cs.foldl addCalculation empty

def referrers (g : ReferenceGraph) (target : Entity) : List String :=
  (g.incoming.lookup target).getD []

def references (g : ReferenceGraph) (source : String) : List Entity :=
  (g.outgoing.lookup source).getD []

def isReferenced (g : ReferenceGraph) (target : Entity) : Bool := !(g.referrers target).isEmpty

def next (g : ReferenceGraph) (source : String) : List String :=
  (g.references source).filterMap fun e =>
    match e.kind with
    | .calculation => some e.uniqueId
    | .constant => none

/-- Adds what the calculations in `found` refer to, for at most `rounds` rounds. -/
def spread (g : ReferenceGraph) : Nat → List String → List String
  | 0, found => found
  | rounds + 1, found =>
    match ((found.flatMap g.next).filter fun x => !found.contains x).eraseDups with
    | [] => found
    | fresh => g.spread rounds (found ++ fresh)

/-- The calculations at the end of a path of at least one reference. A round that finds nothing new
ends the search, and every round before it reaches a calculation with references for the first time
or comes to the end of all paths. -/
def reachable (g : ReferenceGraph) (source : String) : List String :=
  g.spread (g.outgoing.length + 1) (g.next source).eraseDups

def hasCycle (g : ReferenceGraph) (source : String) : Bool := (g.reachable source).contains source

/-- How many calculations have references. -/
def size (g : ReferenceGraph) : Nat := g.outgoing.length

def isEmpty (g : ReferenceGraph) : Bool := g.outgoing.isEmpty

end ReferenceGraph

end FormulaLedger
