/-!
# Laid-out JSON

JSON with one member a line, each nesting two spaces further in and a space behind every colon. A
value is given as its text, already laid out for the depth at which it stands; there is no line
break behind the last line.

Texts are quoted as they are. That is right for texts without quotation marks, backslashes and
control characters, and no others are written here.
-/

namespace KeyAgreement.JsonLayout

/-- The blanks before a line at some depth. -/
def indent (depth : Nat) : String := String.ofList (List.replicate (2 * depth) ' ')

/-- A text as a JSON string. -/
def quoted (text : String) : String := "\"" ++ text ++ "\""

/-- Lines between two brackets, the lines one deeper than the brackets. -/
def bracketed (depth : Nat) (opening closing : String) (items : List String) : String :=
  let lines := items.map fun item => indent (depth + 1) ++ item
  opening ++ "\n" ++ ",\n".intercalate lines ++ "\n" ++ indent depth ++ closing

/-- A JSON array of values. -/
def array (depth : Nat) (values : List String) : String := bracketed depth "[" "]" values

/-- A JSON object of members in order. -/
def object (depth : Nat) (members : List (String × String)) : String :=
  bracketed depth "\x7b" "\x7d" (members.map fun (name, value) => quoted name ++ ": " ++ value)

end KeyAgreement.JsonLayout
