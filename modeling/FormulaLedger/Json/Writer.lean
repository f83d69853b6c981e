import FormulaLedger.Json.Basic

set_option autoImplicit false

namespace FormulaLedger.Json

def hexChar (n : Nat) : Char := (Nat.toDigits 16 n).headD '0'

def escape (c : Char) : List Char :=
  match c with
  | '"' => ['\\', '"']
  | '\\' => ['\\', '\\']
  | '\x08' => ['\\', 'b']
  | '\x0c' => ['\\', 'f']
  | '\n' => ['\\', 'n']
  | '\r' => ['\\', 'r']
  | '\t' => ['\\', 't']
  | c =>
    if c.toNat < 0x20 then ['\\', 'u', '0', '0', hexChar (c.toNat / 16), hexChar (c.toNat % 16)]
    else [c]

def quoted (s : String) : List Char := '"' :: s.toList.flatMap escape ++ ['"']

/-- A string without characters is written empty. -/
def quoted? (s : Option String) : List Char := quoted (s.getD "")

mutual

def compactChars : Json → List Char
  | .null => "null".toList
  | .bool true => "true".toList
  | .bool false => "false".toList
  | .number n => n.chars
  | .string s => quoted? s
  | .array [] => ['[', ']']
  | .array (item :: items) => '[' :: item.compactChars ++ compactItems items
  | .object [] => ['{', '}']
  | .object ((name, value) :: fields) =>
    '{' :: quoted? name ++ ':' :: value.compactChars ++ compactFields fields

def compactItems : List Json → List Char
  | [] => [']']
  | item :: items => ',' :: item.compactChars ++ compactItems items

def compactFields : List (Option String × Json) → List Char
  | [] => ['}']
  | (name, value) :: fields =>
    ',' :: quoted? name ++ ':' :: value.compactChars ++ compactFields fields

end

def newline (indent : Nat) : List Char := '\n' :: List.replicate (2 * indent) ' '

mutual

def prettyChars (indent : Nat) : Json → List Char
  | .array (item :: items) =>
    '[' :: newline (indent + 1) ++ item.prettyChars (indent + 1) ++ prettyItems indent items
  | .object ((name, value) :: fields) =>
    '{' :: newline (indent + 1) ++ quoted? name ++ ':' :: ' ' ::
      value.prettyChars (indent + 1) ++ prettyFields indent fields
  | scalar => scalar.compactChars

def prettyItems (indent : Nat) : List Json → List Char
  | [] => newline indent ++ [']']
  | item :: items =>
    ',' :: newline (indent + 1) ++ item.prettyChars (indent + 1) ++ prettyItems indent items

def prettyFields (indent : Nat) : List (Option String × Json) → List Char
  | [] => newline indent ++ ['}']
  | (name, value) :: fields =>
    ',' :: newline (indent + 1) ++ quoted? name ++ ':' :: ' ' ::
      value.prettyChars (indent + 1) ++ prettyFields indent fields

end

def compact (value : Json) : String := String.ofList value.compactChars

def pretty (value : Json) : String := String.ofList (value.prettyChars 0)

end FormulaLedger.Json
