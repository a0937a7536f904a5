import RubySyntax.Lexeme.Basic

namespace RubySyntax.Lexeme

open Text

def fraction : List Char → List Char
  | '.' :: rest =>
    if rest.head?.any isDigit then '.' :: rest.takeWhile isDigitOrSeparator else []
  | _ => []

def exponent : List Char → List Char
  | [] => []
  | letter :: rest =>
    if letter = 'e' || letter = 'E' then
      let sign := rest.take 1 |>.filter fun c => c == '+' || c == '-'
      let digits := (rest.drop sign.length).takeWhile isDigit
      if digits.isEmpty then [] else letter :: sign ++ digits
    else []

def number (input : List Char) : Lexeme :=
  let whole := input.takeWhile isDigitOrSeparator
  let rest := input.drop whole.length
  let fraction := fraction rest
  let exponent := exponent (rest.drop fraction.length)
  { kind := .literal (if fraction.isEmpty && exponent.isEmpty then .integer else .float)
    body := whole ++ fraction ++ exponent }

end RubySyntax.Lexeme
