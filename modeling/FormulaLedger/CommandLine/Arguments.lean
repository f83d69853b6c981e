import FormulaLedger.CommandLine.Usage

/-!
Reading arguments. Parameters and switches may stand before and after the command's name, letters
may be written together behind one hyphen, and two hyphens make operands of all arguments that
follow.
-/

set_option autoImplicit false

namespace FormulaLedger.CommandLine

structure CompanyTexts where
  id : String
  period : String
  location : String
  deriving DecidableEq, Repr

inductive Task
  | evaluate (uniqueId : String) (company : CompanyTexts)
  | report (name : String) (company : CompanyTexts)
  | checkDelete (kind : EntityKind) (uniqueId : String)
  | history (uniqueId : String)
  deriving DecidableEq, Repr

structure Order where
  snapshot : String
  config : Option String
  locale : Option String
  task : Task
  deriving DecidableEq, Repr

inductive Stop
  | misused
  | help (topic : Topic)
  | version
  deriving DecidableEq, Repr

structure Given where
  values : List (Parameter × String)
  /-- The parameter that was given last, with its value once the next argument has brought it. It is
  settled when something else is given. -/
  waiting : Option (Parameter × Option String)
  operands : List String
  deriving DecidableEq, Repr

namespace Given

def nothing : Given := ⟨[], none, []⟩

def set (g : Given) (p : Parameter) (value : String) : Except Stop Given :=
  if (p.isPath && value.isEmpty) || (g.values.lookup p).isSome then .error .misused
  else .ok { g with values := g.values ++ [(p, value)] }

/-- Takes the value of the parameter that was given last, which must have come. -/
def settle (g : Given) : Except Stop Given :=
  match g.waiting with
  | none => .ok g
  | some (_, none) => .error .misused
  | some (p, some value) => { g with waiting := none }.set p value

def isWaiting (g : Given) : Bool :=
  match g.waiting with
  | some (_, none) => true
  | _ => false

def flip (topic : Topic) (s : Switch) (g : Given) : Except Stop Given := do
  let g ← g.settle
  match s with
  | .verbose => return g
  | .help => throw (.help topic)
  | .version => throw .version

def receive (p : Parameter) (attached : Option String) (g : Given) : Except Stop Given := do
  let g ← g.settle
  match attached with
  | some value => g.set p value
  | none => return { g with waiting := some (p, none) }

/-- What follows two hyphens: a name, with a value behind an equals sign if there is one. -/
def named (topic : Topic) (body : List Char) (g : Given) : Except Stop Given :=
  let name := String.ofList (body.takeWhile (· != '='))
  let attached := match body.dropWhile (· != '=') with
    | [] => none
    | _ :: value => some (String.ofList value)
  match topic.switches.find? (·.name == name), topic.parameters.find? (·.name == name) with
  | some s, _ => if attached.isSome then .error .misused else g.flip topic s
  | none, some p => g.receive p attached
  | none, none => .error .misused

/-- What follows one hyphen: letters of switches, and at the end the letter of a parameter, whose
value may follow it. -/
def lettered (topic : Topic) : List Char → Given → Except Stop Given
  | [], g => .ok g
  | c :: cs, g =>
    match topic.switches.find? (·.letter == c), topic.parameters.find? (·.letter? == some c) with
    | some s, _ => do lettered topic cs (← g.flip topic s)
    | none, some p =>
      g.receive p <| match cs with
        | [] => none
        | '=' :: value => some (String.ofList value)
        | value => some (String.ofList value)
    | none, none => .error .misused

def addOperand (topic : Topic) (text : String) (g : Given) : Except Stop Given := do
  let g ← g.settle
  match topic.operands[g.operands.length]? with
  | some o =>
    if o.accepts text then return { g with operands := g.operands ++ [text] } else throw .misused
  | none => throw .misused

def add (topic : Topic) (argument : String) (g : Given) : Except Stop Given :=
  match argument.toList, g.waiting with
  | '-' :: '-' :: body, _ => g.named topic body
  | '-' :: c :: cs, _ => g.lettered topic (c :: cs)
  | _, some (p, none) => .ok { g with waiting := some (p, some argument) }
  | _, _ => g.addOperand topic argument

/-- Takes the arguments of one topic. Behind two hyphens, `plain` is true and all are operands. -/
def addAll (topic : Topic) (plain : Bool) (g : Given) : List String → Except Stop Given
  | [] => g.settle
  | argument :: rest =>
    if plain then do addAll topic true (← g.addOperand topic argument) rest
    else if argument = "--" then addAll topic true g rest
    else do addAll topic false (← g.add topic argument) rest

end Given

def helpTopic : List String → Stop
  | [] => .help .general
  | [name] =>
    if name = "help" then .help .help
    else match Command.ofName? name with
      | some c => .help (.command c)
      | none => .misused
  | _ => .misused

/-- The value of a parameter: what the command is given comes before what is given in front of it,
and both before the default. -/
def valueOf (outer inner : Given) (p : Parameter) : Option String :=
  ((inner.values.lookup p).or (outer.values.lookup p)).or p.default?

def companyOf (given : Parameter → Option String) : Option CompanyTexts := do
  return ⟨← given .company, ← given .period, ← given .location⟩

def taskOf (c : Command) (operands : List String) (given : Parameter → Option String) :
    Option Task :=
  match c, operands with
  | .evaluate, [uniqueId] => (companyOf given).map (.evaluate uniqueId)
  | .report, [name] => (companyOf given).map (.report name)
  | .checkDelete, [kind, uniqueId] =>
    ([EntityKind.constant, .calculation].find? (·.name == kind)).map (.checkDelete · uniqueId)
  | .history, [uniqueId] => some (.history uniqueId)
  | _, _ => none

def orderOf (c : Command) (outer inner : Given) : Option Order := do
  let given := valueOf outer inner
  let task ← taskOf c inner.operands given
  let snapshot ← given .snapshot
  return ⟨snapshot, given .config, given .locale, task⟩

def orderFrom (outer : Given) : List String → Except Stop Order
  | [] => .error .misused
  | argument :: rest =>
    let name := if outer.isWaiting then none else some argument
    match name.bind Command.ofName? with
    | some c => do
      let inner ← Given.nothing.addAll (.command c) false rest
      let outer ← outer.settle
      match orderOf c outer inner with
      | some order => return order
      | none => throw .misused
    | none =>
      if name = some "help" then .error (helpTopic rest)
      else if argument = "--" then .error .misused
      else do orderFrom (← outer.add .general argument) rest

def Order.ofArguments (arguments : List String) : Except Stop Order := orderFrom .nothing arguments

end FormulaLedger.CommandLine
