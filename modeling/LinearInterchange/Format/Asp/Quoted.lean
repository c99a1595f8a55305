/-! # Strings of answer set programs

Names are written between quotes; quotes and backslashes within them get a backslash in front. -/

namespace LinearInterchange.Asp

/-- The characters of a name, escaped. -/
def escape : List Char → List Char
  | [] => []
  | c :: cs => if c = '"' ∨ c = '\\' then '\\' :: c :: escape cs else c :: escape cs

/-- A name between quotes. -/
def quoted (name : String) : String :=
  String.ofList ('"' :: escape name.toList ++ ['"'])

end LinearInterchange.Asp
