import RubySyntax.Proofs.Bytes.Recognise

namespace RubySyntax.Bytes

open Text
open Lexeme (Context Reading)

namespace Scan

def fraction : Scan Bool := do
  if (← peek) == some '.' && (← peekNth 1).any isDigit then
    discard next
    discard (acceptWhile isDigitOrSeparator)
    return true
  else return false

/-- Whether the letter of an exponent follows, and a digit behind it or behind its sign. -/
def exponentFollows : Scan Bool := do
  if (← peek).any fun c => c == 'e' || c == 'E' then
    match ← peekNth 1 with
    | some c => if c == '+' || c == '-' then return (← peekNth 2).any isDigit else return isDigit c
    | none => return false
  else return false

def exponent : Scan Bool := do
  if ← exponentFollows then
    discard next
    discard (accept ['+', '-'])
    discard (acceptWhile isDigit)
    return true
  else return false

def number : Scan Emitted := do
  discard (acceptWhile isDigitOrSeparator)
  let broken ← fraction
  let scaled ← exponent
  emitted (.literal (if broken || scaled then .float else .integer))

/-- The mark that ends a name; the name of a constant has none. -/
def nameMark (constant : Bool) : Scan Unit := do
  if !constant && (← peek).any (fun c => c == '?' || c == '!') && (← peekNth 1) != some '=' then
    discard next
  else pure ()

/-- A name, or with its colon a label. -/
def name (context : Context) : Scan Emitted := do
  let first ← peek
  discard (acceptWhile isIdentifierPart)
  nameMark (first.any isConstantStart)
  let text ← pending
  if Lexeme.colonFollows (← rest) && context.last != some (.punct .question) then
    discard next
    return { token := ← emitText .label text }
  else emitted (Lexeme.nameKind context text)

def globalName : Scan Bool := do
  if (← acceptWhile isIdentifierPart) = 0 then accept specialGlobals else return true

def sigil : Scan Emitted := do
  if (← next) == some '$' then
    if ← globalName then emitted .globalVariable else fail .invalidGlobalName []
  else
    let double ← accept ['@']
    if (← peek).any isIdentifierStart then
      discard (acceptWhile isIdentifierPart)
      emitted (if double then .classVariable else .instanceVariable)
    else
      let signs ← pending
      fail .invalidVariableName [.ofList signs]

def character : Scan Emitted := do
  discard next
  ignore
  if (← next).any isPrintable then emitted (.literal .character)
  else fail .invalidCharacterLiteral []

end Scan

variable {ahead rest : List Char} {c : Char}

theorem consumes_fraction (ahead : List Char) :
    Consumes Scan.fraction ahead (!(Lexeme.fraction ahead).isEmpty)
      (ahead.drop (Lexeme.fraction ahead).length) := by
  refine (Consumes.peek ahead).bind ((Consumes.peekNth 1 ahead).bind ?_)
  cases ahead with
  | nil => exact .pure _ _
  | cons c rest =>
    rw [List.head?_cons, List.getElem?_cons_succ, ← List.head?_eq_getElem?]
    by_cases point : c = '.'
    · subst point
      rw [Lexeme.fraction]
      cases digit : rest.head?.any isDigit with
      | true =>
        exact (Consumes.next _ rest).discard.bind
          ((Consumes.acceptWhile _ rest).discard.bind (.pure _ _))
      | false => exact .pure _ _
    · have none : Lexeme.fraction (c :: rest) = [] := by
        unfold Lexeme.fraction
        split
        · rename_i same
          exact absurd (List.cons.inj same).1 point
        · rfl
      rw [none, if_neg (by simp [point])]
      exact .pure _ _

def optional (valid ahead : List Char) : List Char := (ahead.take 1).filter valid.contains

theorem optional_cons (valid : List Char) (c : Char) (rest : List Char) :
    optional valid (c :: rest) = if valid.contains c then [c] else [] := by
  rw [optional, List.take_succ_cons, List.take_zero, List.filter_cons, List.filter_nil]

theorem consumes_optional (valid ahead : List Char) :
    Consumes (Scan.accept valid) ahead (!(optional valid ahead).isEmpty)
      (ahead.drop (optional valid ahead).length) := by
  cases ahead with
  | nil => exact .accept_not rfl
  | cons c rest =>
    rw [optional_cons]
    cases wanted : valid.contains c with
    | true => exact .accept wanted rest
    | false => exact .accept_not wanted

theorem isEmpty_takeWhile (p : Char → Bool) (cs : List Char) :
    (cs.takeWhile p).isEmpty = !cs.head?.any p := by
  cases cs with
  | nil => rfl
  | cons c rest => cases holds : p c <;> simp [holds]

theorem exponent_letter (letter : (c == 'e' || c == 'E') = true) (rest : List Char) :
    Lexeme.exponent (c :: rest) =
      if (rest.drop (optional ['+', '-'] rest).length).head?.any isDigit then
        c :: (optional ['+', '-'] rest ++
          (rest.drop (optional ['+', '-'] rest).length).takeWhile isDigit)
      else [] := by
  have signs : ['+', '-'].contains = fun c => c == '+' || c == '-' := by
    funext c
    simp [beq_eq_decide]
  rw [Lexeme.exponent, if_pos (by simpa using letter), optional, signs]
  dsimp only
  rw [isEmpty_takeWhile]
  cases Option.any isDigit _ <;> rfl

theorem not_isEmpty_ite (b : Bool) (c : Char) (cs : List Char) :
    (!(if b = true then c :: cs else []).isEmpty) = b := by
  cases b <;> rfl

theorem exponent_other (other : (c == 'e' || c == 'E') = false) (rest : List Char) :
    Lexeme.exponent (c :: rest) = [] :=
  if_neg (by simpa using other)

theorem consumes_exponentFollows (ahead : List Char) :
    Consumes Scan.exponentFollows ahead (!(Lexeme.exponent ahead).isEmpty) ahead := by
  refine (Consumes.peek ahead).bind ?_
  cases ahead with
  | nil => exact .pure _ _
  | cons c rest =>
    rw [List.head?_cons, Option.any_some]
    cases letter : c == 'e' || c == 'E' with
    | true =>
      rw [if_pos rfl, exponent_letter letter, not_isEmpty_ite]
      refine (Consumes.peekNth 1 _).bind ?_
      cases rest with
      | nil => exact .pure _ _
      | cons d more =>
        have signs : ['+', '-'].contains d = (d == '+' || d == '-') := by simp [beq_eq_decide]
        rw [optional_cons, signs]
        show Consumes (if (d == '+' || d == '-') = true then _ else _) _ _ _
        cases d == '+' || d == '-' with
        | true =>
          rw [if_pos rfl, if_pos rfl, List.length_singleton, List.drop_succ_cons, List.drop_zero,
            List.head?_eq_getElem?]
          exact (Consumes.peekNth 2 _).bind (.pure _ _)
        | false => exact .pure _ _
    | false =>
      rw [if_neg Bool.false_ne_true, exponent_other letter]
      exact .pure _ _

theorem consumes_exponent (ahead : List Char) :
    Consumes Scan.exponent ahead (!(Lexeme.exponent ahead).isEmpty)
      (ahead.drop (Lexeme.exponent ahead).length) := by
  refine (consumes_exponentFollows ahead).bind ?_
  cases ends : (Lexeme.exponent ahead).isEmpty with
  | true =>
    rw [List.isEmpty_iff.mp ends]
    exact .pure _ _
  | false =>
    cases ahead with
    | nil => cases ends
    | cons c rest =>
      cases letter : c == 'e' || c == 'E' with
      | false =>
        rw [exponent_other letter] at ends
        cases ends
      | true =>
        have digits := congrArg (!·) ends
        rw [exponent_letter letter] at digits ⊢
        rw [not_isEmpty_ite] at digits
        rw [digits, Bool.not_false, if_pos rfl, if_pos rfl, List.length_cons, List.length_append,
          List.drop_succ_cons, ← List.drop_drop]
        exact (Consumes.next c rest).discard.bind ((consumes_optional _ rest).discard.bind
          ((Consumes.acceptWhile isDigit _).discard.bind (.pure _ _)))

theorem recognises_number (input : List Char) :
    Recognises Scan.number [] [] input (.ok (Lexeme.number input)) := by
  refine .take (Consumes.acceptWhile _ _).discard (List.takeWhile_prefix _) ?_
  refine .take (consumes_fraction _) (Lexeme.fraction_front _) ?_
  refine .take (consumes_exponent _) (Lexeme.exponent_front _) ?_
  have kind (a b : Bool) : (if (!a || !b) = true then Token.LiteralKind.float else .integer) =
      if (a && b) = true then .integer else .float := by
    cases a <;> cases b <;> rfl
  rw [kind]
  exact .emitted _ [] _ _

theorem consumes_nameMark (constant : Bool) (ahead : List Char) :
    Consumes (Scan.nameMark constant) ahead ()
      (ahead.drop (if constant then [] else Lexeme.nameMark ahead).length) := by
  refine (Consumes.peek ahead).bind ((Consumes.peekNth 1 ahead).bind ?_)
  cases constant with
  | true => exact .pure _ _
  | false =>
    cases ahead with
    | nil => exact .pure _ _
    | cons c rest =>
      rw [List.head?_cons, Option.any_some, List.getElem?_cons_succ, ← List.head?_eq_getElem?,
        if_neg Bool.false_ne_true, Lexeme.nameMark]
      cases marks : (c == '?' || c == '!') && rest.head? != some '=' with
      | true =>
        rw [Bool.not_false, Bool.true_and, if_pos marks, if_pos rfl]
        exact (Consumes.next c rest).discard
      | false =>
        have other := Bool.eq_false_iff.mp marks
        rw [Bool.not_false, Bool.true_and, if_neg other,
          if_neg Bool.false_ne_true]
        exact .pure _ _

theorem recognises_name (context : Context) (input : List Char) :
    Recognises (Scan.name context) [] [] input (.ok (Lexeme.name context input)) := by
  have text : Lexeme.nameText input = input.takeWhile isIdentifierPart ++
      if input.head?.any isConstantStart then []
      else Lexeme.nameMark (input.drop (input.takeWhile isIdentifierPart).length) := by
    rw [Lexeme.nameText]
    split
    · rw [List.append_nil]
    · rfl
  have front : (if input.head?.any isConstantStart then []
      else Lexeme.nameMark (input.drop (input.takeWhile isIdentifierPart).length)) <+:
        input.drop (input.takeWhile isIdentifierPart).length := by
    split
    · exact List.nil_prefix
    · exact Lexeme.nameMark_front _
  refine .look (.peek input) ?_
  refine .take (Consumes.acceptWhile _ _).discard (List.takeWhile_prefix _) ?_
  refine .take (consumes_nameMark _ _) front ?_
  refine .pending (.look (.rest _) ?_)
  rw [List.nil_append, ← text, List.drop_drop, ← List.length_append, ← text, Lexeme.name]
  split
  · rename_i label
    obtain ⟨colon, _⟩ := Bool.and_eq_true_iff.mp label
    obtain ⟨rest, split⟩ := Lexeme.colonFollows_front colon
    rw [← split]
    exact .consume [':'] (Consumes.next ':' rest).discard rfl (.emittedText _ _ _ _ _)
  · exact .emitted _ _ _ _

theorem consumes_globalName (ahead : List Char) :
    Consumes Scan.globalName ahead (!(Lexeme.globalName ahead).isEmpty)
      (ahead.drop (Lexeme.globalName ahead).length) := by
  refine (Consumes.acceptWhile isIdentifierPart ahead).bind ?_
  rw [Lexeme.globalName]
  cases ahead.takeWhile isIdentifierPart with
  | nil => exact consumes_optional specialGlobals ahead
  | cons c rest => exact .pure _ _

theorem recognises_global (kind : Token.Kind) (opened rest : List Char) :
    Recognises
      (do if ← Scan.globalName then Scan.emitted kind else Scan.fail .invalidGlobalName [])
      opened ['$'] rest (Lexeme.globalVariable kind opened rest) := by
  refine .take (consumes_globalName rest) (Lexeme.globalName_front rest) ?_
  rw [Lexeme.globalVariable]
  cases Lexeme.globalName rest with
  | nil => exact .fail _ _ (.inl nofun)
  | cons c name => exact .emitted _ _ _ _

theorem atSigns_eq (rest : List Char) : Lexeme.atSigns ('@' :: rest) = '@' :: optional ['@'] rest := by
  cases rest with
  | nil => rfl
  | cons c rest =>
    rw [optional_cons, Lexeme.atSigns, List.getElem?_cons_succ, List.getElem?_cons_zero]
    by_cases double : c = '@'
    · rw [double]
      rfl
    · rw [if_neg (by simpa using double), if_neg (by simpa using double)]

theorem recognises_sigil (first : c = '@' ∨ c = '$') (rest : List Char) :
    Recognises Scan.sigil [] [] (c :: rest) (Lexeme.sigilVariable (c :: rest)) := by
  refine .consume [c] (.next c rest) rfl ?_
  rcases first with rfl | rfl
  · rw [Lexeme.sigilVariable, if_neg (by simp), if_neg (by simp), atSigns_eq]
    refine .take (consumes_optional ['@'] rest) (Lexeme.filter_take_one _ rest) ?_
    refine .look (.peek _) ?_
    dsimp only
    rw [List.length_cons, List.drop_succ_cons]
    split
    · refine .take (Consumes.acceptWhile _ _).discard (List.takeWhile_prefix _) ?_
      have double : ((optional ['@'] rest).length + 1 == 2) = !(optional ['@'] rest).isEmpty := by
        cases rest with
        | nil => rfl
        | cons c rest =>
          rw [optional_cons]
          split <;> rfl
      rw [double]
      exact .emitted _ _ _ _
    · exact .pending (.fail _ _ (.inl (List.cons_ne_nil _ _)))
  · exact recognises_global _ [] rest

theorem recognises_character (rest : List Char) :
    Recognises Scan.character [] [] ('?' :: rest) (Lexeme.character ('?' :: rest)) := by
  refine .consume ['?'] (Consumes.next '?' rest).discard rfl (.ignore ?_)
  rw [Lexeme.character, List.drop_succ_cons, List.drop_zero]
  cases rest with
  | nil => exact .look .next_nil (.fail _ _ (.inr rfl))
  | cons d more =>
    refine .consume [d] (.next d more) rfl ?_
    rw [List.take_succ_cons, List.take_zero, List.any_cons, List.any_nil, Bool.or_false,
      Option.any_some]
    split
    · exact .emitted _ _ _ _
    · exact .fail _ _ (.inl nofun)

end RubySyntax.Bytes
