/-! # Letter case of keywords

Keywords are looked up without regard to case. They consist of ASCII letters and digits, so of the
case mappings of the Unicode standard only those with an ASCII result can make a text a keyword;
every other character is left as it is. -/

namespace NewtonRaphson

/-- The upper case of a character, where that is ASCII: the ASCII letters, the dotless i, the long
s, the sharp s and the Latin ligatures. -/
def upperChar (c : Char) : List Char :=
  match c with
  | '\u0131' => ['I']
  | '\u017f' => ['S']
  | '\u00df' => ['S', 'S']
  | '\ufb00' => ['F', 'F']
  | '\ufb01' => ['F', 'I']
  | '\ufb02' => ['F', 'L']
  | '\ufb03' => ['F', 'F', 'I']
  | '\ufb04' => ['F', 'F', 'L']
  | '\ufb05' | '\ufb06' => ['S', 'T']
  | c => [c.toUpper]

/-- The lower case of a character, where that is ASCII: the ASCII letters and the kelvin sign. -/
def lowerChar (c : Char) : Char :=
  if c = '\u212a' then 'k' else c.toLower

/-- The text in upper case, as far as a keyword in capitals can tell. -/
def upperKeyword (s : String) : String := String.ofList (s.toList.flatMap upperChar)

/-- The text in lower case, as far as a keyword in small letters can tell. -/
def lowerKeyword (s : String) : String := String.ofList (s.toList.map lowerChar)

end NewtonRaphson
