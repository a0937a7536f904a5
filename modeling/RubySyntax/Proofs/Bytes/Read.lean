import RubySyntax.Proofs.Bytes.Heredoc
import RubySyntax.Proofs.Bytes.Literal
import RubySyntax.Proofs.Bytes.Operator

namespace RubySyntax.Bytes

open Text
open Lexeme (Context Reading)

namespace Scan

/-- The recogniser for an input that begins with `c` and opens no heredoc. -/
def select (context : Context) (c : Char) (input : List Char) : Scan Emitted :=
  if isDigit c then number
  else if c = '\'' then quoted .string c
  else if c = '"' then quoted .template c
  else if c = '`' && !context.namesMethod then quoted .subshell c
  else if c = '@' || c = '$' then sigil
  else if Lexeme.symbolFollows context input then symbol
  else if c = '?' && !context.namesMethod && Lexeme.characterFollows context input then character
  else if c = '%' && !context.namesMethod && Lexeme.percentFollows context input then percent
  else if c = '/' && !context.namesMethod && context.startsOperand input then regex
  else if isIdentifierStart c then name context
  else operator

/-- The token at the cursor, and the bodies that are read ahead behind it. -/
def read (context : Context) (waiting : Option Pending) : Scan (Emitted × Option Pending) := do
  let input ← rest
  if !context.namesMethod && Lexeme.heredocFollows context input then heredoc waiting
  else
    match input with
    | [] => return (← emitted .endOfFile, waiting)
    | c :: _ => return (← select context c input, waiting)

end Scan

open Scan

variable {op other : Scan Emitted} {opened pend input : List Char} {reading second : Reading}

theorem Recognises.ite {condition : Prop} [Decidable condition]
    (yes : condition → Recognises op opened pend input reading)
    (no : ¬ condition → Recognises other opened pend input second) :
    Recognises (if condition then op else other) opened pend input
      (if condition then reading else second) := by
  by_cases holds : condition
  · rw [if_pos holds, if_pos holds]
    exact yes holds
  · rw [if_neg holds, if_neg holds]
    exact no holds

theorem recognises_select (context : Context) (c : Char) (rest : List Char) :
    Recognises (select context c (c :: rest)) [] [] (c :: rest)
      (Lexeme.readFrom context c (c :: rest)) := by
  apply Recognises.ite
  · exact fun _ => recognises_number _
  intro _
  apply Recognises.ite
  · exact fun _ => recognises_quoted .string c rest
  intro _
  apply Recognises.ite
  · exact fun _ => recognises_quoted .template c rest
  intro _
  apply Recognises.ite
  · exact fun _ => recognises_quoted .subshell c rest
  intro _
  apply Recognises.ite
  · exact fun sign => recognises_sigil (by simpa using sign) rest
  intro _
  apply Recognises.ite
  · intro follows
    obtain rfl := Lexeme.symbolFollows_colon follows
    exact recognises_symbol rest
  intro _
  apply Recognises.ite
  · intro question
    simp only [Bool.and_eq_true, decide_eq_true_eq] at question
    obtain ⟨⟨rfl, _⟩, _⟩ := question
    exact recognises_character rest
  intro _
  apply Recognises.ite
  · intro sign
    simp only [Bool.and_eq_true, decide_eq_true_eq] at sign
    obtain ⟨⟨rfl, _⟩, _⟩ := sign
    exact recognises_percent rest
  intro _
  apply Recognises.ite
  · intro slash
    simp only [Bool.and_eq_true, decide_eq_true_eq] at slash
    obtain ⟨⟨rfl, _⟩, _⟩ := slash
    exact recognises_regex rest
  intro _
  apply Recognises.ite
  · exact fun _ => recognises_name context (c :: rest)
  · exact fun _ => recognises_operator c rest

/-- What is read at the cursor is the next token and the bodies that are read ahead. -/
theorem delivers_read (context : Context) (front input : List Char)
    (waiting : Option Lexeme.Pending)
    (placed : ∀ pending, waiting = some pending → Placed (front ++ input) pending) :
    Delivers (Scan.read context (waiting.map .of)) front [] input waiting
      (Lexeme.read context (byteLength front) waiting input) := by
  apply Delivers.look (fun _ => rest_between)
  unfold Lexeme.read
  split
  · rename_i follows
    have signs := Lexeme.heredocFollows_front (Bool.and_eq_true_iff.mp follows).2
    exact delivers_heredoc signs front waiting placed
  · cases input with
    | nil => exact .of_recognises (.emitted .endOfFile [] [] []) front waiting
    | cons c tail => exact .of_recognises (recognises_select context c tail) front waiting

/-- The bodies that are read ahead are placed in the source. -/
theorem read_placed (context : Context) {front input : List Char} {waiting : Option Lexeme.Pending}
    (placed : ∀ pending, waiting = some pending → Placed (front ++ input) pending) :
    ∀ pending, ahead waiting (Lexeme.read context (byteLength front) waiting input) = some pending →
      Placed (front ++ input) pending := by
  intro pending
  cases found : Lexeme.read context (byteLength front) waiting input with
  | error fault => exact placed pending
  | ok result =>
    obtain ⟨lexeme, bodies⟩ := result
    intro (waits : bodies = some pending)
    obtain ⟨_, kept⟩ | ⟨_, after, _, later, _, _, heredoc⟩ := Lexeme.read_eq_ok found
    · exact placed pending (kept.symm.trans waits)
    · obtain rfl := Option.some.inj (later.symm.trans waits)
      exact heredoc_placed placed heredoc

end RubySyntax.Bytes
