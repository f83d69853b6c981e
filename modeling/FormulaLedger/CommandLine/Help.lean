import FormulaLedger.CommandLine.Usage

set_option autoImplicit false

namespace FormulaLedger.CommandLine

def columns (entries : List (String × String)) : String :=
  let width := (entries.map (·.1.length)).foldl max 0
  String.join (entries.map fun (left, right) =>
    "  " ++ left ++ "".pushn ' ' (width - left.length + 2) ++ right ++ "\n")

def listing (title : String) (entries : List (String × String)) : String :=
  if entries.isEmpty then "" else "\n" ++ title ++ ":\n" ++ columns entries

def joined (texts : List String) : String :=
  " ".intercalate (texts.filter fun text => !text.isEmpty)

def placeholder (name : String) : String := "<" ++ name ++ ">"

namespace Parameter

def form (p : Parameter) : String := "--" ++ p.name ++ " " ++ placeholder p.name.toUpper

def about (topic : Topic) : Parameter → String
  | .snapshot => "Snapshot file (JSON) holding constants, calculations, materials and reports"
  | .config => "Calculator options file (JSON)"
  | .locale => "Message catalog (JSON object) used to translate reasons"
  | .company => if topic = .command .report then "" else "Company id"
  | .period =>
    if topic = .command .report then "" else "Financial period: YYYY or YYYY-MM-DD..YYYY-MM-DD"
  | .location =>
    if topic = .command .report then "" else "Company location used to pick constant samples"

def entry (topic : Topic) (p : Parameter) : String × String :=
  let letter := match p.letter? with
    | some c => "-" ++ c.toString ++ ", "
    | none => "    "
  let default := match p.default? with
    | some value => "[default: " ++ value ++ "]"
    | none => ""
  (letter ++ p.form, joined [p.about topic, default])

end Parameter

def Switch.entry (s : Switch) : String × String :=
  let form := "-" ++ s.letter.toString ++ ", --" ++ s.name
  match s with
  | .verbose => (form ++ "...", "Increase log verbosity (-v debug, -vv trace)")
  | .help => (form, "Print help")
  | .version => (form, "Print version")

def Operand.entry (o : Operand) : String × String :=
  let choices :=
    if o.choices.isEmpty then ""
    else "[possible values: " ++ ", ".intercalate o.choices ++ "]"
  (placeholder o.name, joined [o.about, choices])

def Command.about : Command → String
  | .evaluate => "Evaluate the latest revision of a calculation"
  | .report => "Evaluate every row of a report"
  | .checkDelete => "Check whether a constant or calculation could be deleted"
  | .history => "List all revisions of a calculation"

def programName : String := "calc"

def versionText : String := programName ++ " 0.1.0\n"

namespace Topic

def about : Topic → String
  | .general => "Evaluate and inspect calcgraph snapshots"
  | .command c => c.about
  | .help => "Print this message or the help of the given subcommand(s)"

def usage : Topic → String
  | .general => joined [programName, "[OPTIONS]", placeholder "COMMAND"]
  | .command c =>
    joined ([programName, c.name, "[OPTIONS]"] ++ c.required.map Parameter.form ++
      c.operands.map fun o => placeholder o.name)
  | .help => joined [programName, "help", "[COMMAND]..."]

def commandEntries : Topic → List (String × String)
  | .general => Command.all.map (fun c => (c.name, c.about)) ++ [("help", Topic.help.about)]
  | _ => []

def operandEntries : Topic → List (String × String)
  | .help => [("[COMMAND]...", "Print help for the subcommand(s)")]
  | topic => topic.operands.map Operand.entry

def optionEntries (topic : Topic) : List (String × String) :=
  topic.parameters.map (Parameter.entry topic) ++ topic.switches.map Switch.entry

def text (topic : Topic) : String :=
  topic.about ++ "\n\nUsage: " ++ topic.usage ++ "\n" ++
    listing "Commands" topic.commandEntries ++ listing "Arguments" topic.operandEntries ++
    listing "Options" topic.optionEntries

end Topic

end FormulaLedger.CommandLine
