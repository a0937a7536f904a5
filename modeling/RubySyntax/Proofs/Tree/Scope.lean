import RubySyntax.Proofs.Lexeme.Word
import RubySyntax.Tree.Node

namespace RubySyntax

/-- The name of a constant: a name that begins with a capital. -/
structure ConstantName where
  text : String
  named : Lexeme.IsName text.toList
  capital : text.toList.head?.any Text.isConstantStart = true

/-- The pieces between double colons, which are found from the left. -/
def Text.splitScopes : List Char → List (List Char)
  | ':' :: ':' :: rest => [] :: splitScopes rest
  | c :: rest =>
    match splitScopes rest with
    | [] => [[c]]
    | piece :: pieces => (c :: piece) :: pieces
  | [] => [[]]

namespace Tree.ConstantPath

/-- The names that the written scope of a path is made of, outermost first. -/
def segments (path : ConstantPath) : List String :=
  ((Text.splitScopes path.scopeText.toList).map String.ofList).filter fun name => !name.isEmpty

/-- All names of a path, outermost first. -/
def names (path : ConstantPath) : List String := path.outer ++ [path.name]

def written (path : ConstantPath) : String :=
  (if path.isGlobal then "::" else "") ++ "::".intercalate path.names

/-- The path further in by the names. -/
def within (path : ConstantPath) (names : List String) : ConstantPath := names.foldl push path

/-- A path is its names, and where its look-up starts. -/
theorem eq_of_names {path other : ConstantPath} (names : path.names = other.names)
    (isGlobal : path.isGlobal = other.isGlobal) : path = other := by
  obtain ⟨outer, name⟩ := List.append_singleton_inj.mp names
  cases path
  cases other
  cases outer
  cases name
  cases isGlobal
  rfl

theorem names_within (path : ConstantPath) (names : List String) :
    (path.within names).names = path.names ++ names := by
  induction names generalizing path with
  | nil => rw [List.append_nil, within, List.foldl_nil]
  | cons name names ih =>
    calc ((path.push name).within names).names
      _ = (path.push name).names ++ names := ih _
      _ = path.names ++ name :: names := by simp [ConstantPath.names, push]

theorem isGlobal_within (path : ConstantPath) (names : List String) :
    (path.within names).isGlobal = path.isGlobal := by
  induction names generalizing path with
  | nil => rfl
  | cons name names ih => exact ih (path.push name)

end Tree.ConstantPath

namespace Text

variable {piece : List Char} {pieces : List (List Char)}

theorem splitScopes_cons (c : Char) (rest : List Char) (plain : c ≠ ':') :
    splitScopes (c :: rest) = match splitScopes rest with
      | [] => [[c]]
      | piece :: pieces => (c :: piece) :: pieces :=
  splitScopes.eq_2 c rest fun _ same _ => plain same

/-- Without a colon there is nothing to split at. -/
theorem splitScopes_plain (plain : ':' ∉ piece) : splitScopes piece = [piece] := by
  induction piece with
  | nil => rfl
  | cons c rest ih =>
    obtain ⟨other, plain⟩ := not_or.mp (List.mem_cons.not.mp plain)
    rw [splitScopes_cons c rest (Ne.symm other), ih plain]

theorem splitScopes_append (plain : ':' ∉ piece) (rest : List Char) :
    splitScopes (piece ++ "::".toList ++ rest) = piece :: splitScopes rest := by
  induction piece with
  | nil => rfl
  | cons c more ih =>
    obtain ⟨other, plain⟩ := not_or.mp (List.mem_cons.not.mp plain)
    rw [List.cons_append, List.cons_append, splitScopes_cons c _ (Ne.symm other), ih plain]

theorem splitScopes_intercalate (some : pieces ≠ []) (plain : ∀ piece ∈ pieces, ':' ∉ piece) :
    splitScopes ("::".toList.intercalate pieces) = pieces := by
  induction pieces with
  | nil => exact absurd rfl some
  | cons piece others ih =>
    obtain ⟨here, more⟩ := List.forall_mem_cons.mp plain
    cases others with
    | nil => rw [List.intercalate_singleton, splitScopes_plain here]
    | cons next others =>
      rw [List.intercalate_cons_cons, splitScopes_append here, ih (List.cons_ne_nil _ _) more]

end Text

namespace ConstantName

variable (name : ConstantName)

theorem not_isEmpty : name.text.isEmpty = false := by
  refine Bool.eq_false_iff.mpr fun empty => ?_
  have start := name.named.start
  rw [String.isEmpty_iff.mp empty] at start
  cases start

theorem colon_not_mem : ':' ∉ name.text.toList := by
  intro member
  have part := List.all_eq_true.mp name.named.parts ':' member
  revert part
  decide

end ConstantName

/-- Nothing is lost where names are written with double colons between them. -/
theorem Tree.ConstantPath.segments_of_names {path : ConstantPath} (names : List ConstantName)
    (outer : path.outer = names.map ConstantName.text) : path.segments = path.outer := by
  unfold segments scopeText
  rw [outer]
  cases names with
  | nil => rfl
  | cons first others =>
    have plain : ∀ piece ∈ ((first :: others).map ConstantName.text).map String.toList,
        ':' ∉ piece := by
      rw [List.map_map, List.forall_mem_map]
      exact fun name _ => name.colon_not_mem
    have some : ((first :: others).map ConstantName.text).map String.toList ≠ [] :=
      List.cons_ne_nil _ _
    rw [String.toList_intercalate, Text.splitScopes_intercalate some plain, List.map_map]
    have same : String.ofList ∘ String.toList = id := funext fun text => text.ofList_toList
    rw [same, List.map_id]
    refine List.filter_eq_self.mpr (List.forall_mem_map.mpr fun name _ => ?_)
    rw [name.not_isEmpty]
    rfl

end RubySyntax
