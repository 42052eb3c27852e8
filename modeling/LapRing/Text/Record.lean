/-!
# Records as text

How a value with named parts is written: its name, then the parts in braces, or
in parentheses if they have no names. Two dots stand for parts left out.
-/
namespace LapRing.Text

private def fieldList (fields : List (String × String)) : List String :=
  fields.map fun (name, value) => name ++ ": " ++ value

private def braced (name : String) (items : List String) : String :=
  if items.isEmpty then name else name ++ " \x7b " ++ ", ".intercalate items ++ " \x7d"

def record (name : String) (fields : List (String × String)) : String :=
  braced name (fieldList fields)

/-- A record some of whose parts are not shown. -/
def openRecord (name : String) (fields : List (String × String)) : String :=
  braced name (fieldList fields ++ [".."])

def tuple (name : String) (value : String) : String :=
  name ++ "(" ++ value ++ ")"

end LapRing.Text
