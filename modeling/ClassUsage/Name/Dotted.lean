/-!
Class names. A class file writes packages with slashes; everything reported is written with dots.
-/
namespace ClassUsage

def dotted (name : List Char) : String :=
  String.ofList (name.map fun c => if c = '/' then '.' else c)

/-- The dotted form of an internal name. -/
def className (internal : String) : String := dotted internal.toList

end ClassUsage
