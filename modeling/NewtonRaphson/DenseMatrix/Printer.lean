import NewtonRaphson.DenseMatrix
import NewtonRaphson.Decimal

/-! # Matrices as text

The short form shows the entries as compact numbers, a line for each row. The long form names size
and precision and shows each entry with all digits it needs. -/

namespace NewtonRaphson

namespace DenseMatrix

/-- A line for each row, the entries compact and separated by spaces. -/
def compact (a : DenseMatrix Float) : String :=
  "\n".intercalate (a.toLists.map fun row => " ".intercalate (row.map Numeral.compact))

/-- A list in brackets. -/
def bracketed (items : List String) : String := "[" ++ ", ".intercalate items ++ "]"

/-- Size, precision and all entries row by row. -/
def describe (a : DenseMatrix Float) : String :=
  s!"Matrix(rows={a.rows}, cols={a.cols}, dtype={a.precision.name}, data=" ++
    bracketed (a.toLists.map fun row => bracketed (row.map Numeral.plain)) ++ ")"

end DenseMatrix

end NewtonRaphson
