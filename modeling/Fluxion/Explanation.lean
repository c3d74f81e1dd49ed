/-!
# Explanations

What a reader is told about a fault: a message that says what is wrong, a
label for the place where it is, and help that says what to write instead.
Each type of fault turns its causes into explanations in one function, so no
wording stands anywhere else.
-/

namespace Fluxion

/-- The words in which a fault is reported. -/
structure Explanation where
  /-- What is wrong. -/
  message : String
  /-- What stands at the faulty place. -/
  label : String
  /-- What can be done about it. -/
  help : String
  deriving DecidableEq, Repr

end Fluxion
