import FormulaLedger.References

set_option autoImplicit false

namespace FormulaLedger.CommandLine

/-- What takes a value, with the value in the same argument or in the next. -/
inductive Parameter
  | snapshot
  | config
  | locale
  | company
  | period
  | location
  deriving DecidableEq, Repr

namespace Parameter

def name : Parameter → String
  | .snapshot => "snapshot"
  | .config => "config"
  | .locale => "locale"
  | .company => "company"
  | .period => "period"
  | .location => "location"

def letter? : Parameter → Option Char
  | .snapshot => some 's'
  | .config => some 'c'
  | .locale => some 'l'
  | _ => none

def isPath : Parameter → Bool
  | .snapshot | .config | .locale => true
  | _ => false

def default? : Parameter → Option String
  | .snapshot => some "snapshot.json"
  | .location => some "default"
  | _ => none

end Parameter

inductive Switch
  | verbose
  | help
  | version
  deriving DecidableEq, Repr

namespace Switch

def name : Switch → String
  | .verbose => "verbose"
  | .help => "help"
  | .version => "version"

def letter : Switch → Char
  | .verbose => 'v'
  | .help => 'h'
  | .version => 'V'

end Switch

inductive Command
  | evaluate
  | report
  | checkDelete
  | history
  deriving DecidableEq, Repr

namespace Command

def all : List Command := [.evaluate, .report, .checkDelete, .history]

def name : Command → String
  | .evaluate => "eval"
  | .report => "report"
  | .checkDelete => "check-delete"
  | .history => "history"

def ofName? (name : String) : Option Command := all.find? (·.name == name)

def required : Command → List Parameter
  | .evaluate | .report => [.company, .period]
  | .checkDelete | .history => []

end Command

structure Operand where
  name : String
  about : String
  /-- The only texts that may stand there, or none if any may. -/
  choices : List String
  deriving DecidableEq, Repr

def Operand.accepts (o : Operand) (text : String) : Bool :=
  o.choices.isEmpty || o.choices.contains text

def Command.operands : Command → List Operand
  | .evaluate | .history => [⟨"UNIQUE_ID", "Calculation unique id", []⟩]
  | .report => [⟨"NAME", "Report name", []⟩]
  | .checkDelete =>
    [⟨"KIND", "Entity kind", [EntityKind.constant.name, EntityKind.calculation.name]⟩,
      ⟨"UNIQUE_ID", "Unique id", []⟩]

/-- What arguments are about: the command line as a whole, one command, or the help itself. -/
inductive Topic
  | general
  | command (c : Command)
  | help
  deriving DecidableEq, Repr

namespace Topic

def parameters : Topic → List Parameter
  | .general | .command .checkDelete | .command .history => [.snapshot, .config, .locale]
  | .command .evaluate | .command .report =>
    [.company, .snapshot, .config, .period, .locale, .location]
  | .help => []

def switches : Topic → List Switch
  | .general => [.verbose, .help, .version]
  | .command _ => [.verbose, .help]
  | .help => []

def operands : Topic → List Operand
  | .command c => c.operands
  | _ => []

end Topic

end FormulaLedger.CommandLine
