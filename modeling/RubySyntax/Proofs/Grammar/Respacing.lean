import RubySyntax.Proofs.Grammar.LineByLine
import RubySyntax.Proofs.Lexer.Abreast
import RubySyntax.Proofs.Lexer.Change

namespace RubySyntax

open Text (Span)
open Grammar (startsCommandArgument)
open Token (Kind Like Respaced)

namespace Token

variable {token other : Token} {tokens others : List Token}

/-- Whether a token begins an argument of a command only where it is glued to what follows. -/
def Kind.glues : Kind → Bool
  | .punct p => Grammar.beginsGluedArgument p
  | _ => false

/-- White space directly behind the token makes no difference: it is no bracket that may
open an index or an array, and no sign behind a name that may begin an argument. -/
def Settled (previous token : Token) : Prop :=
  token.spacing.isSpacedBefore = true →
    token.kind ≠ .punct .openBracket ∧
      (previous.kind.isMethodName = true → token.kind.glues = false)

instance : DecidableRel Settled := fun _ _ => inferInstanceAs (Decidable (_ → _))

/-- With or without white space behind it, such a token begins an argument behind a name or
does not. -/
theorem Settled.starts {previous : Token} (settled : Settled previous token)
    (name : previous.kind.isMethodName = true) (spaceAfter : Bool) :
    startsCommandArgument { token with spacing := { token.spacing with spaceAfter } } =
      startsCommandArgument token := by
  unfold startsCommandArgument
  cases kind : token.kind with
  | punct p =>
    cases spaced : token.spacing.blankBefore with
    | false => rfl
    | true =>
      have before : token.spacing.isSpacedBefore = true := by
        rw [Spacing.isSpacedBefore, spaced, Bool.true_or]
      have apart := (settled before).2 name
      rw [kind] at apart
      dsimp only
      rw [show Grammar.beginsGluedArgument p = false from apart]
      rfl
  | _ => rfl

/-- Such a token may stand in front of white space as well. -/
def Settled.place {previous : Token} (settled : Settled previous token) (spaceAfter : Bool) :
    token.Place where
  span := token.span
  spacing := { token.spacing with spaceAfter }
  spaced _ := rfl
  opens bracket := by
    show (token.spacing.isSpacedBefore && !spaceAfter) = token.spacing.isPrefixPosition
    rw [Spacing.isPrefixPosition]
    cases spaced : token.spacing.isSpacedBefore with
    | false => rfl
    | true => exact absurd bracket (settled spaced).1

namespace Respaced

/-- At another place, in front of tokens that only stand at others. -/
theorem of_place (place : token.Place) (like : List.Forall₂ Like tokens others)
    (starts : tokens = [] → startsCommandArgument (token.placed place) = startsCommandArgument token) :
    Respaced (token :: tokens) (token.placed place :: others) := by
  cases like with
  | nil => exact .last place fun _ => starts rfl
  | cons first rest =>
    obtain ⟨span, rfl⟩ := first
    exact .cons place (fun _ => rfl) (of_like _ span rest)

/-- Behind the same tokens, if an argument begins behind a name in both lists or in neither. -/
theorem behind {previous : Token} (front : List Token)
    (starts : (front.getLastD previous).kind.isMethodName = true →
      startsCommandArgument other = startsCommandArgument token)
    (more : Respaced (token :: tokens) (other :: others)) :
    Respaced (previous :: (front ++ token :: tokens)) (previous :: (front ++ other :: others)) := by
  induction front generalizing previous with
  | nil => exact .cons previous.here starts more
  | cons first front ih =>
    rw [List.getLastD_cons] at starts
    exact .cons previous.here (fun _ => rfl) (ih starts)

end Respaced

end Token

/-- No argument of a command begins with the end of a line or with a dot. -/
theorem Token.not_starts_of_kind {token : Token}
    (other : token.kind.EndsLine ∨ ∃ p, token.kind = .punct p ∧ p.isDots = true) :
    startsCommandArgument token = false := by
  unfold startsCommandArgument
  generalize token.kind = kind at other
  rcases other with ends | ⟨p, rfl, dots⟩
  · cases ends with
    | newLine => exact Bool.and_false _
    | endOfFile => exact Bool.and_false _
  · cases p <;> first | exact Bool.and_false _ | cases dots

theorem not_startsAfresh_of_isMethodName {last : Option Kind}
    (name : last.any Kind.isMethodName = true) : Lexeme.startsAfresh last = false := by
  cases last with
  | none => cases name
  | some kind =>
    cases kind with
    | newLine => cases name
    | semicolon => cases name
    | _ => rfl

theorem Token.not_starts_of_isTerminal {token : Token} (terminal : token.isTerminal = true) :
    startsCommandArgument token = false := by
  unfold startsCommandArgument
  rcases (Lexer.isTerminal_iff token).mp terminal with kind | kind
  · rw [kind]
    exact Bool.and_false _
  · rw [kind]
    exact Bool.and_false _

/-- Two sources whose tokens are the same up to one that may stand differently, with the
same text behind it. The last token in front of it may touch the difference. -/
theorem scan_seam {source other : String} {tokens tokens' : List Token}
    {lexer lexer' behind behind' : Lexer} {token : Token} (place : token.Place)
    (before : Lexer.Run (.ofSource source) tokens lexer)
    (before' : Lexer.Run (.ofSource other) tokens' lexer')
    (touched : tokens' = tokens ∨ ∃ front last spaceAfter, tokens = front ++ [last] ∧
      tokens' = front ++ [{ last with spacing := { last.spacing with spaceAfter } }] ∧
      Token.Settled (front.getLastD startToken) last)
    (read : lexer.next = (some token, behind))
    (read' : lexer'.next = (some (token.placed place), behind'))
    (starts : lexer.last.any Kind.isMethodName = true →
      startsCommandArgument (token.placed place) = startsCommandArgument token)
    (abreast : Lexer.Abreast behind behind') :
    Respaced (startToken :: (scan source).1) (startToken :: (scan other).1) := by
  obtain ⟨base, bytes, bytes', alone, changed, ended⟩ :=
    Lexer.scan_of_abreast (before.append (.more read .done)) (before'.append (.more read' .done)) abreast
  rw [alone, changed, List.append_assoc, List.append_assoc]
  have beyond : Respaced (token :: base.map (Token.moved bytes))
      (token.placed place :: base.map (Token.moved bytes')) := by
    refine .of_place place (Grammar.likes_of_moved base bytes bytes') fun none => ?_
    have terminal := (Lexer.next_step read).halted.symm.trans (ended (List.map_eq_nil_iff.mp none))
    rw [Token.not_starts_of_isTerminal terminal]
    exact Token.not_starts_of_isTerminal terminal
  rw [before.last] at starts
  rcases touched with same | ⟨front, last, spaceAfter, rfl, rfl, settled⟩
  · rw [same]
    refine .behind tokens (fun name => starts ?_) beyond
    rcases List.eq_nil_or_concat tokens with rfl | ⟨front, last, rfl⟩
    · cases name
    · rw [List.concat_eq_append, List.getLastD_concat] at name
      rw [List.concat_eq_append, List.getLast?_concat]
      exact name
  · rw [List.getLast?_concat] at starts
    rw [List.append_assoc, List.append_assoc]
    exact .behind front (fun name => settled.starts name spaceAfter)
      (.cons (settled.place spaceAfter) starts beyond)

/-- A source whose tokens are those of one that has a program has the same program. -/
theorem parse_of_respaced {source other : String} {options : Options} {program : Tree.Program}
    (respaced : Respaced (startToken :: (scan source).1) (startToken :: (scan other).1))
    (read : parse source options = .ok program) : parse other options = .ok program := by
  obtain ⟨first, rest, tokens, known, _⟩ := scan_cons_of_parse read
  rw [← tokens] at known
  have known' : ∀ token ∈ (scan other).1, token.kind ≠ .unknown := by
    intro token member unknown
    obtain ⟨token, member', same⟩ := List.mem_map.mp
      ((List.cons.inj respaced.kinds).2 ▸ List.mem_map.mpr ⟨token, member, unknown⟩)
    exact known token member' same
  obtain ⟨_, read⟩ := parse_eq_ok_iff.mp read
  have like : (Grammar.Cursor.ofTokens startToken (scan source).1).Like
      (.ofTokens startToken (scan other).1) := respaced
  rw [fault_of_known known] at read
  refine parse_eq_ok_iff.mpr ?_
  rw [fault_of_known known']
  exact (Grammar.program_iff_of_like like rfl).mp ⟨_, read⟩

end RubySyntax
