import RubySyntax.Text.Span

/-! Message templates. A placeholder is a number in braces; the arguments are
filled in one after the other, each over the text that the ones before it left. -/
namespace RubySyntax.Diagnostic

/-- Replaces each occurrence of `needle` from left to right, without overlaps.
While `skip` is positive the front of the text belongs to a found occurrence. -/
def replaceFrom (needle replacement : List Char) : Nat → List Char → List Char
  | _, [] => []
  | skip + 1, _ :: rest => replaceFrom needle replacement skip rest
  | 0, c :: rest =>
    if needle.isPrefixOf (c :: rest) then
      replacement ++ replaceFrom needle replacement (needle.length - 1) rest
    else c :: replaceFrom needle replacement 0 rest

/-- Replaces each occurrence of a needle that is not empty. -/
def replaceAll (needle replacement text : List Char) : List Char :=
  replaceFrom needle replacement 0 text

def placeholder (index : Nat) : List Char := '{' :: (toString index).toList ++ ['}']

/-- Fills the placeholders from `index` on with the arguments. -/
def fillFrom (index : Nat) (text : List Char) : List (List Char) → List Char
  | [] => text
  | arg :: args => fillFrom (index + 1) (replaceAll (placeholder index) arg text) args

def fill (template : String) (args : List String) : String :=
  String.ofList (fillFrom 0 template.toList (args.map String.toList))

end RubySyntax.Diagnostic
