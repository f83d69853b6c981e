set_option autoImplicit false

namespace FormulaLedger

structure Sample where
  location : String
  value : Float
  deriving DecidableEq, Repr

/-- What may not change while an entity is referred to. -/
structure Identity where
  uniqueId : String
  unit : String
  deriving DecidableEq, Repr

def Identity.difference? (a b : Identity) : Option String :=
  if a.uniqueId ≠ b.uniqueId then some "uniqueId"
  else if a.unit ≠ b.unit then some "unit"
  else none

structure Constant where
  uniqueId : String
  year : Int
  unit : String
  remarks : Option String
  samples : List Sample
  deriving DecidableEq, Repr

namespace Constant

def sampleFor? (c : Constant) (location : String) : Option Sample :=
  c.samples.find? (·.location == location)

def resolve? (c : Constant) (location : String) (default : Option String) : Option Sample :=
  (c.sampleFor? location).or (default.bind c.sampleFor?)

def identity (c : Constant) : Identity := ⟨c.uniqueId, c.unit⟩

end Constant

end FormulaLedger
