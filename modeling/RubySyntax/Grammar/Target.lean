import RubySyntax.Tree.Children
import RubySyntax.Text.CharClass

/-! Targets of assignments. References are assigned to; an index or an attribute
of a receiver is assigned to by calling its setter. -/
namespace RubySyntax.Grammar

open RubySyntax.Tree (Node)

/-- Names of predicates and of destructive methods have no setter. -/
def endsWithMark (name : String) : Bool :=
  name.toList.getLast?.any fun c => c == '?' || c == '!'

/-- The method that assigns what the method of this name reads. -/
def setterName (name : String) : String := name ++ "="

/-- An index, or an attribute read without arguments whose name begins like a
variable's. -/
def hasSetter (name : String) (args : List Node) : Bool :=
  name == "[]" ||
    (args.isEmpty && name.toList.head?.any (fun c => c == '_' || Text.isLetter c) &&
      !endsWithMark name)

/-- Whether a single assignment accepts the node on its left. -/
def isAssignable : Node → Bool
  | .reference _ | .instanceVariable _ | .classVariable _ | .globalVariable _
  | .constant _ => true
  | .call (some _) name args none => hasSetter name args
  | _ => false

/-- Whether a list of targets accepts the node as one of them. -/
def isListTarget : Node → Bool
  | .reference _ | .instanceVariable _ | .classVariable _ | .globalVariable _ | .constant _
  | .splat _ => true
  | .call (some _) name args none => name == "[]" || args.isEmpty
  | _ => false

/-- A target in a list: a call becomes the call of its setter. -/
def listTarget : Node → Node
  | .call target? name args block? => .call target? (setterName name) args block?
  | node => node

def assign (target value : Node) : Node :=
  match target with
  | .call target? name args block? => .call target? (setterName name) (args ++ [value]) block?
  | _ => .assignment target value

end RubySyntax.Grammar
