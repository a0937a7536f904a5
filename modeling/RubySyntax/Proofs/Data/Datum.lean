import RubySyntax.Lexeme.Basic
import RubySyntax.Number.Decimal
import RubySyntax.Tree.Node

namespace RubySyntax

open RubySyntax.Tree (Node HashPair)

/-- A text between single quotes: a backslash takes a character with it, and no other
quote is in the text. -/
def Text.isQuotable : List Char → Bool
  | [] => true
  | ['\\'] => false
  | '\\' :: _ :: rest => isQuotable rest
  | c :: rest => c != '\'' && isQuotable rest

structure QuotableText where
  chars : List Char
  quotable : Text.isQuotable chars = true

/-- A name behind the colon of a symbol: an identifier, marks included. -/
structure SymbolName where
  chars : List Char
  leads : chars.head?.any Text.isIdentifierStart = true
  parts : chars.all (fun c => Text.isIdentifierPart c || c == '!' || c == '?') = true

/-- A datum that is one token. -/
inductive Atom
  | integer (value : Nat) (within : value ≤ Number.maxInteger)
  | string (text : QuotableText)
  | symbol (name : SymbolName)
  | boolean (value : Bool)
  | null

inductive Datum
  | atom (content : Atom)
  | array (elements : List Datum)
  /-- Pairs in their order; a key may come more than once. -/
  | hash (pairs : List (HashPair Datum))

namespace Atom

def chars : Atom → List Char
  | integer value _ => Nat.toDigits 10 value
  | string text => '\'' :: (text.chars ++ ['\''])
  | symbol name => ':' :: name.chars
  | boolean true => "true".toList
  | boolean false => "false".toList
  | null => "nil".toList

/-- The lexeme of an atom: what delimits a text or marks a name is not part of its text. -/
def lexeme : Atom → Lexeme
  | integer value _ => { kind := .literal .integer, body := Nat.toDigits 10 value }
  | string text =>
    { kind := .literal .string, opening := ['\''], body := text.chars, closing := ['\''] }
  | symbol name => { kind := .literal .symbol, opening := [':'], body := name.chars }
  | boolean true => { kind := .keyword .trueKw, body := "true".toList }
  | boolean false => { kind := .keyword .falseKw, body := "false".toList }
  | null => { kind := .keyword .nilKw, body := "nil".toList }

theorem chars_lexeme (atom : Atom) : atom.lexeme.chars = atom.chars := by
  cases atom with
  | boolean value => cases value <;> rfl
  | _ => simp [lexeme, chars, Lexeme.chars]

def node : Atom → Node
  | integer value _ => .integer value
  | string text => .string (String.ofList text.chars)
  | symbol name => .symbol (String.ofList name.chars)
  | boolean value => .boolean value
  | null => .null

end Atom

namespace Datum

section Fold

variable {α : Type} (atomic : Atom → α) (inArray : List α → α) (inHash : List (HashPair α) → α)

mutual

/-- Puts a value in the place of each constructor. -/
def fold : Datum → α
  | .atom content => atomic content
  | .array elements => inArray (foldElements elements)
  | .hash pairs => inHash (foldPairs pairs)

def foldElements : List Datum → List α
  | [] => []
  | element :: elements => fold element :: foldElements elements

def foldPairs : List (HashPair Datum) → List (HashPair α)
  | [] => []
  | ⟨key, value⟩ :: pairs => ⟨fold key, fold value⟩ :: foldPairs pairs

end

theorem fold_array (elements : List Datum) : fold atomic inArray inHash (array elements) =
    inArray (elements.map (fold atomic inArray inHash)) := by
  have all : foldElements atomic inArray inHash elements = elements.map (fold atomic inArray inHash) := by
    induction elements with
    | nil => rfl
    | cons element elements ih => rw [foldElements, ih, List.map_cons]
  rw [fold, all]

theorem fold_hash (pairs : List (HashPair Datum)) : fold atomic inArray inHash (hash pairs) =
    inHash (pairs.map fun pair =>
      ⟨fold atomic inArray inHash pair.key, fold atomic inArray inHash pair.value⟩) := by
  have all : foldPairs atomic inArray inHash pairs = pairs.map fun pair =>
      ⟨fold atomic inArray inHash pair.key, fold atomic inArray inHash pair.value⟩ := by
    induction pairs with
    | nil => rfl
    | cons pair pairs ih => rw [foldPairs, ih, List.map_cons]
  rw [fold, all]

end Fold

/-- What holds of the elements of an array holds of the array, and what holds of the keys
and the values of a hash holds of the hash. -/
theorem induction {motive : Datum → Prop} (atom : ∀ content, motive (.atom content))
    (array : ∀ elements, (∀ element ∈ elements, motive element) → motive (.array elements))
    (hash : ∀ pairs, (∀ pair ∈ pairs, motive pair.key ∧ motive pair.value) → motive (.hash pairs))
    (datum : Datum) : motive datum := by
  refine Datum.rec (motive_1 := motive)
    (motive_2 := fun elements => ∀ element ∈ elements, motive element)
    (motive_3 := fun pairs => ∀ pair ∈ pairs, motive pair.key ∧ motive pair.value)
    (motive_4 := fun pair => motive pair.key ∧ motive pair.value)
    atom array hash ?_ ?_ ?_ ?_ ?_ datum
  · intro element member
    cases member
  · intro element elements first others
    exact List.forall_mem_cons.mpr ⟨first, others⟩
  · intro pair member
    cases member
  · intro pair pairs first others
    exact List.forall_mem_cons.mpr ⟨first, others⟩
  · exact fun key value first second => ⟨first, second⟩

/-- Texts with a comma and a blank between them. -/
def listed (texts : List (List Char)) : List Char := [',', ' '].intercalate texts

theorem listed_singleton (text : List Char) : listed [text] = text := by simp [listed]

theorem listed_cons_cons (text next : List Char) (texts : List (List Char)) :
    listed (text :: next :: texts) = text ++ ',' :: ' ' :: listed (next :: texts) := by
  simp [listed, List.intercalate]

/-- A key and its value with an arrow between blanks. -/
def paired (pair : HashPair (List Char)) : List Char := pair.key ++ " => ".toList ++ pair.value

/-- The literal of a datum. -/
def chars : Datum → List Char :=
  fold Atom.chars (fun elements => '[' :: (listed elements ++ [']']))
    fun pairs => '{' :: (listed (pairs.map paired) ++ ['}'])

def render (datum : Datum) : String := String.ofList datum.chars

def node : Datum → Node := fold Atom.node Node.array Node.hash

/-- How many arrays and hashes are in each other. -/
def height : Datum → Nat :=
  fold (fun _ => 0) (fun elements => elements.foldr max 0 + 1)
    fun pairs => (pairs.map fun pair => max pair.key pair.value).foldr max 0 + 1

variable (elements : List Datum) (pairs : List (HashPair Datum))

theorem chars_array : (array elements).chars = '[' :: (listed (elements.map chars) ++ [']']) :=
  fold_array ..

theorem chars_hash : (hash pairs).chars =
    '{' :: (listed (pairs.map fun pair => paired ⟨pair.key.chars, pair.value.chars⟩) ++ ['}']) := by
  rw [chars, fold_hash, List.map_map]
  rfl

theorem node_array : (array elements).node = .array (elements.map node) := fold_array ..

theorem node_hash :
    (hash pairs).node = .hash (pairs.map fun pair => ⟨pair.key.node, pair.value.node⟩) := fold_hash ..

theorem height_array :
    (array elements).height = (elements.map height).foldr max 0 + 1 := fold_array ..

theorem height_hash : (hash pairs).height =
    (pairs.map fun pair => max pair.key.height pair.value.height).foldr max 0 + 1 := by
  rw [height, fold_hash, List.map_map]
  rfl

example : (array [hash [⟨atom (.boolean true), array []⟩], atom .null]).render =
    "[\x7btrue => []\x7d, nil]" := by decide +kernel

end Datum

end RubySyntax
