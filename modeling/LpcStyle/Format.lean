import LpcStyle.Grammar.Parse
import LpcStyle.Style.Printer

/-!
Formatting: reading a text and laying its document out.
-/

namespace LpcStyle

/-- the text in the layout that the options ask for, or the first error in it -/
def format (options : Options) (text : List Char) : Except Failure (List Char) := do
  return (← parse text).print options

end LpcStyle
