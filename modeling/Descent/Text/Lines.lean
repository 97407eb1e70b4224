/-
  Descent.Text.Lines

  Text made of whole lines: each line is followed by a line break, the last one too.
-/

namespace Descent.Text

/-- Lines as one text. -/
def endLines (lines : List (List Char)) : List Char := lines.flatMap fun line => line ++ ['\n']

@[simp] theorem endLines_nil : endLines [] = [] := rfl

@[simp] theorem endLines_cons (line : List Char) (lines : List (List Char)) :
    endLines (line :: lines) = line ++ '\n' :: endLines lines := by
  simp [endLines]

@[simp] theorem endLines_append (lines more : List (List Char)) :
    endLines (lines ++ more) = endLines lines ++ endLines more := by
  simp [endLines]

end Descent.Text
