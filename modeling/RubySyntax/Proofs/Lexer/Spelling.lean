import RubySyntax.Proofs.Lexeme.Punctuation
import RubySyntax.Proofs.Lexer.Joined

namespace RubySyntax

open Text (byteLength)
open Token (Punct Keyword)

theorem Token.Keyword.spelling_of_ofSpelling? {keyword : Keyword} {text : String}
    (found : ofSpelling? text = some keyword) : keyword.spelling = text := by
  simpa using List.find?_some found

namespace Lexeme

variable {context : Context} {offset : Nat} {pending bodies : Option Pending} {input : List Char}
  {lexeme : Lexeme} {text : String}

theorem nameKind_spelling {word : List Char}
    (fixed : (nameKind context word).spelling? = some text) : word = text.toList := by
  unfold nameKind at fixed
  split at fixed
  · rename_i keyword found
    split at found
    · cases found
    · obtain rfl : keyword.spelling = text := by
        simpa [Token.Kind.spelling?, Token.Kind.keywordText?] using fixed
      rw [Keyword.spelling_of_ofSpelling? found, String.toList_ofList]
  · split at fixed <;> cases fixed

theorem nameKind_punctText? (context : Context) (word : List Char) :
    (nameKind context word).punctText? = none := by
  unfold nameKind
  split
  · rfl
  · split <;> rfl

/-- A word that is spelled like a keyword is an identifier only behind a dot. -/
theorem isAfterDot_of_identifier {word : List Char} {keyword : Keyword}
    (identifier : nameKind context word = .identifier)
    (spelled : Keyword.ofSpelling? (String.ofList word) = some keyword) :
    context.isAfterDot = true := by
  unfold nameKind at identifier
  rw [spelled] at identifier
  by_cases dotted : context.isAfterDot = true
  · exact dotted
  · rw [if_neg dotted] at identifier
    cases identifier

/-- What is read for a kind with a fixed spelling is that spelling. -/
theorem text_of_read (found : read context offset pending input = .ok (lexeme, bodies))
    (fixed : lexeme.kind.spelling? = some text) : lexeme.text = text.toList := by
  obtain ⟨word, rfl⟩ | same := word_or_operator_of_read found (.inr (by rw [fixed]; nofun))
  · exact nameKind_spelling fixed
  · obtain ⟨_, rfl⟩ | ⟨p, _, rfl⟩ := operator_eq_ok same
    all_goals
      cases fixed
      rfl

theorem isAfterDot_of_read {keyword : Keyword}
    (found : read context offset pending input = .ok (lexeme, bodies))
    (identifier : lexeme.kind = .identifier)
    (spelled : Keyword.ofSpelling? (String.ofList lexeme.text) = some keyword) :
    context.isAfterDot = true := by
  obtain ⟨word, rfl⟩ | same := word_or_operator_of_read found (.inl identifier)
  · exact isAfterDot_of_identifier identifier spelled
  · obtain ⟨_, rfl⟩ | ⟨p, _, rfl⟩ := operator_eq_ok same <;> cases identifier

/-- The spelling of punctuation stands at the front of the input, and no longer one does. -/
def IsLongest (text : String) (input : List Char) : Prop :=
  text.toList <+: input ∧ ∀ (kind : Token.Kind) (longer : String), kind.punctText? = some longer →
    longer.toList <+: input → longer.length ≤ text.length

theorem punctText?_cases {kind : Token.Kind} (sign : kind.punctText? = some text) :
    (kind = .semicolon ∧ text = ";") ∨ ∃ p, kind = .punct p ∧ p.spelling = text := by
  cases kind
  case semicolon => exact .inl ⟨rfl, (Option.some.inj sign).symm⟩
  case punct p => exact .inr ⟨p, rfl, Option.some.inj sign⟩
  all_goals cases sign

theorem isLongest_semicolon (first : input.head? = some ';') : IsLongest ";" input := by
  obtain ⟨rest, rfl⟩ := List.head?_eq_some_iff.mp first
  refine ⟨⟨rest, rfl⟩, fun kind longer sign front => ?_⟩
  obtain ⟨_, rfl⟩ | ⟨p, _, rfl⟩ := punctText?_cases sign
  · exact Nat.le_refl _
  · obtain ⟨c, tail, spelled, _, _, other, _⟩ := spelling_mark p
    rw [spelled] at front
    obtain rfl := (List.cons_prefix_cons.mp front).1
    simp at other

theorem isLongest_punct {p : Punct} (read : Punct.read? input = some p) :
    IsLongest p.spelling input := by
  refine ⟨Punct.prefix_of_read? read, fun kind longer sign front => ?_⟩
  obtain ⟨_, rfl⟩ | ⟨q, _, rfl⟩ := punctText?_cases sign
  · obtain ⟨c, tail, spelled, _⟩ := spelling_mark p
    rw [← String.length_toList, ← String.length_toList, spelled]
    exact Nat.succ_le_succ (Nat.zero_le _)
  · rw [← String.length_toList, ← String.length_toList]
    exact Punct.length_le_of_read? read front

/-- Punctuation is read where it is the longest, and its span begins with it. -/
theorem isLongest_of_read (found : read context offset pending input = .ok (lexeme, bodies))
    (sign : lexeme.kind.punctText? = some text) : lexeme.opening = [] ∧ IsLongest text input := by
  have fixed : lexeme.kind.spelling? ≠ none := by simp [Token.Kind.spelling?, sign]
  obtain ⟨word, rfl⟩ | same := word_or_operator_of_read found (.inr fixed)
  · rw [nameKind_punctText?] at sign
    cases sign
  · obtain ⟨first, rfl⟩ | ⟨p, read, rfl⟩ := operator_eq_ok same
    · cases sign
      exact ⟨rfl, isLongest_semicolon first⟩
    · cases sign
      exact ⟨rfl, isLongest_punct read⟩

end Lexeme

namespace Lexer

variable {lexer middle stop behind : Lexer}

/-- A token of a scanned source, where it stands: trivia is passed behind the token in front
of it, and then it is emitted. -/
theorem scan_emits {source : String} {before after : List Token} {token : Token}
    (split : (scan source).1 = before ++ token :: after) :
    ∃ middle stop emitted behind front rest, middle.last = before.getLast?.map Token.kind ∧
      Passes middle stop ∧ Emits stop emitted behind ∧ token = (behind.finish emitted).1 ∧
      stop.At front rest ∧ source.toList = front ++ rest := by
  obtain ⟨final, run, _⟩ := run_of_scan split
  obtain ⟨middle, ahead, rest⟩ := run.split
  obtain ⟨passed, left, whole, place⟩ := ahead.advances [] source.toList (ofSource_at source)
  cases rest with
  | more read _ =>
    obtain ⟨stop, emitted, behind, passes, emits, same⟩ := next_emits (running_of_next read)
    obtain ⟨tokenSame, -⟩ := Prod.mk.inj (same.symm.trans read)
    obtain ⟨trivia, rest, rfl, stands⟩ := passes.advances _ _ place
    exact ⟨middle, stop, emitted, behind, _, rest, ahead.last, passes, emits,
      (Option.some.inj tokenSame).symm, stands, by simpa using whole⟩

theorem Emits.isLongest (emits : Emits lexer token behind) (place : lexer.At front rest)
    {text : String} (sign : token.kind.punctText? = some text) :
    token.span.start = byteLength front ∧ Lexeme.IsLongest text rest := by
  cases emits with
  | separator _ => cases sign
  | endOfInput _ => cases sign
  | @lexeme lexeme bodies _ read sound =>
    rw [place.ahead] at read sound
    obtain ⟨back, rfl⟩ := sound.extent.front
    obtain ⟨bare, longest⟩ := Lexeme.isLongest_of_read read sign
    have start : { lexer with pending := bodies }.At front (lexeme.chars ++ back) := place
    refine ⟨?_, longest⟩
    rw [start.cut_span, bare, List.append_nil]
    rfl
  | fault _ _ _ => cases sign

theorem Emits.isAfterDot (emits : Emits lexer token behind) {keyword : Keyword}
    (identifier : token.kind = .identifier)
    (spelled : Keyword.ofSpelling? token.text = some keyword) : lexer.context.isAfterDot = true := by
  cases emits with
  | separator _ => cases identifier
  | endOfInput _ => cases identifier
  | lexeme _ read _ => exact Lexeme.isAfterDot_of_read read identifier spelled
  | fault _ _ _ => cases identifier

end Lexer

/-- The kinds of tokens that no characters need to be read for. -/
def Token.Kind.isMark : Kind → Bool
  | .newLine | .endOfFile | .unknown => true
  | _ => false

/-- Any other token of a source has been read with its kind and its text. -/
theorem scan_reads {source : String} {token : Token} (member : token ∈ (scan source).1)
    (plain : token.kind.isMark = false) :
    ∃ context offset pending input lexeme bodies,
      Lexeme.read context offset pending input = .ok (lexeme, bodies) ∧
        token.kind = lexeme.kind ∧ token.text.toList = lexeme.text := by
  obtain ⟨before, after, split⟩ := List.append_of_mem member
  obtain ⟨_, stop, _, _, _, _, _, _, emits, rfl, _⟩ := Lexer.scan_emits split
  cases emits with
  | separator _ => cases plain
  | endOfInput _ => cases plain
  | lexeme _ read _ => exact ⟨_, _, _, _, _, _, read, rfl, String.toList_ofList⟩
  | fault _ _ _ => cases plain

/-- A token of a kind with a fixed spelling is spelled so. Punctuation begins where its span
does, and no longer punctuation begins there. A word that is spelled like a keyword is an
identifier only directly behind a dot or a safe call. -/
theorem scan_vocabulary (source : String) :
    (∀ token ∈ (scan source).1, ∀ text, token.kind.spelling? = some text → token.text = text) ∧
      (∀ token ∈ (scan source).1, ∀ text, token.kind.punctText? = some text →
        ∃ front rest, source.toList = front ++ rest ∧ token.span.start = byteLength front ∧
          text.toList <+: rest ∧ ∀ (kind : Token.Kind) (longer : String),
            kind.punctText? = some longer → longer.toList <+: rest → longer.length ≤ text.length) ∧
      ∀ before token after, (scan source).1 = before ++ token :: after →
        token.kind = .identifier → ∀ keyword : Keyword, token.text = keyword.spelling →
          ∃ mark, before.getLast?.map Token.kind = some (.punct mark) ∧
            (mark = .dot ∨ mark = .safeDot) := by
  refine ⟨?_, ?_, ?_⟩
  · intro token member text fixed
    have plain : token.kind.isMark = false := by
      unfold Token.Kind.isMark
      split
      iterate 3
        rename_i kind
        rw [kind] at fixed
        cases fixed
      rfl
    obtain ⟨_, _, _, _, lexeme, _, read, kind, same⟩ := scan_reads member plain
    rw [kind] at fixed
    rw [← String.toList_inj, same, Lexeme.text_of_read read fixed]
  · intro token member text sign
    obtain ⟨before, after, split⟩ := List.append_of_mem member
    obtain ⟨_, _, _, _, front, rest, _, _, emits, rfl, place, whole⟩ := Lexer.scan_emits split
    obtain ⟨start, longest⟩ := emits.isLongest place sign
    exact ⟨front, rest, whole, start, longest⟩
  · intro before token after split identifier keyword spelled
    obtain ⟨middle, stop, emitted, _, _, _, last, passes, emits, rfl, _⟩ := Lexer.scan_emits split
    have read : Keyword.ofSpelling? emitted.text = some keyword := by
      rw [show emitted.text = keyword.spelling from spelled, Keyword.ofSpelling?_spelling]
    have dotted := emits.isAfterDot identifier read
    rw [Lexeme.Context.isAfterDot, Lexer.context, passes.keeps.1, last] at dotted
    rcases Bool.or_eq_true_iff.mp dotted with sign | sign
    · exact ⟨.dot, beq_iff_eq.mp sign, .inl rfl⟩
    · exact ⟨.safeDot, beq_iff_eq.mp sign, .inr rfl⟩

end RubySyntax
