/-
  Descent.Main

  The command line: prints the outline of the markup document given as an argument.
-/
import Descent.Markup.Outline

def main (args : List String) : IO Unit :=
  IO.print ((Descent.Markup.output args).getD "")
