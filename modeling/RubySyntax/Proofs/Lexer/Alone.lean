import RubySyntax.Proofs.Grammar.SpacedIndex

namespace RubySyntax

open Text (isIdentifierPart isIdentifierStart specialGlobals)
open Token (Kind)

/-- The source is one token of one of these kinds, and the end of the input behind it. -/
def IsAlone (source : String) (kinds : List Kind) (text : String) : Prop :=
  ∃ token last, (scan source).1 = [token, last] ∧ token.kind ∈ kinds ∧ token.text = text ∧
    last.kind = .endOfFile

namespace Lexer

variable {source : String} {lexeme : Lexeme}

/-- A source that is read as one lexeme has its token, and the end of the input behind it. -/
theorem scan_lexeme (running : lexeme.kind.isTerminal = false) (stops : Stops lexeme.chars)
    (reads : Lexeme.read ⟨none, false⟩ 0 none lexeme.chars = .ok (lexeme, none))
    (whole : source.toList = lexeme.chars) :
    ∃ last, (scan source).1 = [tokenOf [] lexeme .unspaced [], last] ∧ last.kind = .endOfFile := by
  have stands := ofSource_stands source
  rw [whole, ← List.append_nil lexeme.chars] at stands
  rw [← List.append_nil lexeme.chars] at stops reads
  obtain ⟨behind, read, after⟩ := stands.lexeme rfl stops reads
  have awaits : behind.Awaits (some lexeme.kind) [] := ⟨.inl after.place.ahead, after.last⟩
  obtain ⟨last, final, hands, ended⟩ := awaits.ended running
  have halted : final.halted = true := halted_of_last ended.last
  exact ⟨last, scan_of_run (.more read (.more hands.read .done)) halted, hands.kind⟩

/-- The first token of a source without trivia in front of it is what is read there. -/
theorem reads_of_scan {token : Token} {rest : List Token} (stops : Stops source.toList)
    (scanned : (scan source).1 = token :: rest) (known : token.kind ≠ .unknown) :
    ∃ lexeme pending, Lexeme.read ⟨none, false⟩ 0 none source.toList = .ok (lexeme, pending) ∧
      token.kind = lexeme.kind ∧ token.text = String.ofList lexeme.text := by
  have skipped : (ofSource source).skipTrivia false = (none, ofSource source) :=
    stops _ false (ofSource_stands source).place.ahead
  obtain ⟨final, run, _⟩ := run_of_scan scanned
  cases run with
  | more read _ =>
    have first : token = ((ofSource source).readToken.2.finish (ofSource source).readToken.1).1 := by
      have handed := congrArg Prod.fst read
      simp only [next, skipped, show (ofSource source).halted = false from rfl] at handed
      exact (Option.some.inj handed).symm
    have here : Lexeme.read (ofSource source).context (ofSource source).scanner.offset
        (ofSource source).pending (ofSource source).scanner.ahead =
      Lexeme.read ⟨none, false⟩ 0 none source.toList := rfl
    unfold readToken at first
    rw [here] at first
    cases found : Lexeme.read ⟨none, false⟩ 0 none source.toList with
    | error fault =>
      rw [found] at first
      rw [first] at known
      exact absurd rfl known
    | ok result =>
      rw [found] at first
      exact ⟨result.1, result.2, rfl, congrArg Token.kind first, congrArg Token.text first⟩

end Lexer

namespace Lexeme

/-- A text in the form of a variable, where any part of a name may come first behind at
signs. -/
inductive IsVariableText : List Char → Prop
  | ofAt (signs : sigil = ['@'] ∨ sigil = ['@', '@']) (some : word ≠ [])
      (parts : word.all isIdentifierPart = true) : IsVariableText (sigil ++ word)
  | ofGlobal (some : word ≠ []) (parts : word.all isIdentifierPart = true) :
      IsVariableText ('$' :: word)
  | special (member : specialGlobals.contains c = true) : IsVariableText ['$', c]

variable {word text sigil : List Char} {lexeme : Lexeme}

theorem head_ne_at (parts : word.all isIdentifierPart = true) : word.head? ≠ some '@' := by
  intro first
  obtain ⟨rest, rfl⟩ := List.head?_eq_some_iff.mp first
  have part := List.all_eq_true.mp parts '@' List.mem_cons_self
  exact absurd part (by decide)

/-- What is behind at signs is the name. -/
theorem dropWhile_signs (signs : sigil = ['@'] ∨ sigil = ['@', '@'])
    (parts : word.all isIdentifierPart = true) :
    (sigil ++ word).dropWhile (· == '@') = word := by
  have name : word.dropWhile (· == '@') = word := by
    cases word with
    | nil => rfl
    | cons c word =>
      refine List.dropWhile_cons_of_neg fun same => head_ne_at parts ?_
      rw [List.head?_cons, beq_iff_eq.mp same]
  rcases signs with rfl | rfl <;> simp [name]

theorem atSigns_append (signs : sigil = ['@'] ∨ sigil = ['@', '@'])
    (parts : word.all isIdentifierPart = true) : atSigns (sigil ++ word) = sigil := by
  have other := head_ne_at parts
  unfold atSigns
  rcases signs with rfl | rfl
  · rw [if_neg]
    simpa [List.head?_eq_getElem?] using other
  · rfl

theorem IsVariable.running {kind : Kind} (shape : IsVariable kind text) :
    kind.isTerminal = false := by
  cases shape <;> rfl

/-- A variable has such a text, and a name begins behind its at signs. -/
theorem isVariable_iff : (∃ kind, IsVariable kind text) ↔
    IsVariableText text ∧ (text.head? = some '@' →
      (text.dropWhile (· == '@')).head?.any isIdentifierStart = true) := by
  have nonempty {name : List Char} (named : IsName name) : name ≠ [] := by
    rintro rfl
    cases named.start
  constructor
  · rintro ⟨kind, shape⟩
    cases shape with
    | @ofInstance word named =>
      have behind : ('@' :: word).dropWhile (· == '@') = word :=
        dropWhile_signs (.inl rfl) named.parts
      refine ⟨.ofAt (.inl rfl) (nonempty named) named.parts, fun _ => ?_⟩
      rw [behind, named.start]
    | @ofClass word named =>
      have behind : ('@' :: '@' :: word).dropWhile (· == '@') = word :=
        dropWhile_signs (.inr rfl) named.parts
      refine ⟨.ofAt (.inr rfl) (nonempty named) named.parts, fun _ => ?_⟩
      rw [behind, named.start]
    | ofGlobal some parts =>
      exact ⟨.ofGlobal some parts, fun sign => absurd sign (by simp)⟩
    | special member => exact ⟨.special member, fun sign => absurd sign (by simp)⟩
  · rintro ⟨shape, begins⟩
    cases shape with
    | @ofAt sigil word signs some parts =>
      rw [dropWhile_signs signs parts] at begins
      rcases signs with rfl | rfl
      · exact ⟨_, .ofInstance ⟨begins rfl, parts⟩⟩
      · exact ⟨_, .ofClass ⟨begins rfl, parts⟩⟩
    | ofGlobal some parts => exact ⟨_, .ofGlobal some parts⟩
    | special member => exact ⟨_, .special member⟩

/-- At the beginning of a source a colon in front of a sigil is read as a symbol. -/
theorem read_sigilSymbol (sign : text.head? = some '@' ∨ text.head? = some '$') :
    read ⟨none, false⟩ 0 none (':' :: text) =
      (symbol (':' :: text)).map fun lexeme => (lexeme, none) := by
  rw [read_first (by decide)]
  rcases sign with sign | sign <;> obtain ⟨rest, rfl⟩ := List.head?_eq_some_iff.mp sign
  all_goals rfl

theorem symbol_at (tail : List Char) : symbol (':' :: '@' :: tail) =
    let sigil := atSigns ('@' :: tail)
    let name := (('@' :: tail).drop sigil.length).takeWhile isIdentifierPart
    if name.isEmpty then
      .error { opening := [':'], body := sigil, message := .invalidVariableName
               args := [String.ofList sigil] }
    else .ok { kind := .literal .symbol, opening := [':'], body := sigil ++ name } := rfl

theorem symbol_dollar (tail : List Char) :
    symbol (':' :: '$' :: tail) = globalVariable (.literal .symbol) [':'] tail := rfl

/-- Every such text is read as a symbol. -/
theorem symbol_variableText (shape : IsVariableText text) : symbol (':' :: text) =
    .ok { kind := .literal .symbol, opening := [':'], body := text } := by
  cases shape with
  | @ofAt sigil word signs some parts =>
    have whole : word.takeWhile isIdentifierPart = word :=
      List.takeWhile_eq_self_iff.mpr (List.all_eq_true.mp parts)
    have own := atSigns_append signs parts
    have name : ((sigil ++ word).drop sigil.length).takeWhile isIdentifierPart = word := by
      rw [List.drop_left, whole]
    obtain ⟨tail, first⟩ : ∃ tail, sigil ++ word = '@' :: tail := by
      rcases signs with rfl | rfl <;> exact ⟨_, rfl⟩
    rw [first] at own name
    rw [first, symbol_at]
    simp only [own, name]
    rw [if_neg (by simpa using some), first]
  | @ofGlobal word some parts =>
    have name : globalName word = word := by
      simpa using @globalName_ordinary word [] some parts rfl
    rw [symbol_dollar]
    simp [globalVariable, name, some]
  | @special c member =>
    have name : globalName [c] = [c] := by simpa using @globalName_special c [] member rfl
    rw [symbol_dollar]
    simp [globalVariable, name]

/-- The text of a symbol whose name has a sigil is such a text. -/
theorem variableText_of_symbol (sign : text.head? = some '@' ∨ text.head? = some '$')
    (read : symbol (':' :: text) = .ok lexeme) : IsVariableText lexeme.text := by
  rcases sign with sign | sign <;> obtain ⟨tail, rfl⟩ := List.head?_eq_some_iff.mp sign
  · rw [symbol_at] at read
    dsimp only at read
    split at read
    · cases read
    · rename_i some
      cases read
      refine .ofAt ?_ (by simpa using some) (List.all_eq_true.mpr fun c => List.mem_takeWhile_imp)
      unfold atSigns
      split
      · exact .inr rfl
      · exact .inl rfl
  · rw [symbol_dollar] at read
    obtain ⟨rfl, ⟨some, parts⟩ | ⟨c, special, same⟩⟩ := globalVariable_eq_ok read
    · exact .ofGlobal some parts
    · show IsVariableText ('$' :: globalName tail)
      rw [same]
      exact .special special

end Lexeme

variable {source : String}

/-- A source is one variable if its text has the form of a variable. -/
theorem isAlone_variable_iff : IsAlone source [.instanceVariable, .classVariable, .globalVariable]
    source ↔ ∃ kind, Lexeme.IsVariable kind source.toList := by
  constructor
  · rintro ⟨token, last, scanned, kind, text, _⟩
    have shape := isVariable_of_scan (scanned ▸ List.mem_cons_self) kind
    exact ⟨_, text ▸ shape⟩
  · rintro ⟨kind, shape⟩
    let lexeme : Lexeme := { kind, body := source.toList }
    have chars : lexeme.chars = source.toList := by simp [Lexeme.chars, lexeme]
    have ends : ([] : List Char).head?.any isIdentifierPart = false := rfl
    have reads := Lexeme.read_variable shape ends ⟨none, false⟩ 0 none
    have stops := Lexer.stops_variable shape []
    rw [List.append_nil] at reads stops
    obtain ⟨last, scanned, ended⟩ :=
      @Lexer.scan_lexeme source lexeme shape.running (chars ▸ stops) (chars ▸ reads) chars.symm
    exact ⟨_, last, scanned, shape.kind_mem, String.ofList_toList, ended⟩

/-- Behind a colon such a text is one symbol, however the name begins. -/
theorem isAlone_symbol_iff {v : String}
    (sign : v.toList.head? = some '@' ∨ v.toList.head? = some '$') :
    IsAlone (":" ++ v) [.literal .symbol] v ↔ Lexeme.IsVariableText v.toList := by
  have whole : (":" ++ v).toList = ':' :: v.toList := by simp
  have stops : Lexer.Stops (':' :: v.toList) :=
    Lexer.stops_cons (by decide) rfl (by decide) (by decide) rfl
  constructor
  · rintro ⟨token, last, scanned, kind, text, _⟩
    have kind : token.kind = .literal .symbol := List.mem_singleton.mp kind
    obtain ⟨lexeme, pending, read, _, own⟩ :=
      Lexer.reads_of_scan (whole ▸ stops) scanned (by rw [kind]; simp)
    rw [whole, Lexeme.read_sigilSymbol sign] at read
    obtain ⟨symbol, found, same⟩ := Lexeme.ok_of_map read
    cases same
    have shape := Lexeme.variableText_of_symbol sign found
    rw [text] at own
    rwa [own, String.toList_ofList]
  · intro shape
    let lexeme : Lexeme := { kind := .literal .symbol, opening := [':'], body := v.toList }
    have chars : lexeme.chars = ':' :: v.toList := by simp [Lexeme.chars, lexeme]
    have reads := Lexeme.read_sigilSymbol sign
    rw [Lexeme.symbol_variableText shape] at reads
    obtain ⟨last, scanned, ended⟩ :=
      @Lexer.scan_lexeme (":" ++ v) lexeme rfl (chars ▸ stops) (chars ▸ reads)
        (whole.trans chars.symm)
    exact ⟨_, last, scanned, List.mem_singleton.mpr rfl, String.ofList_toList, ended⟩

/-- A text behind a sigil is one variable exactly if it is the text of one symbol and, behind at
signs, the name begins as a name has to: the reader of symbols lets any part of a name come
first there. -/
theorem isAlone_variable_iff_symbol (v : String)
    (sign : v.toList.head? = some '@' ∨ v.toList.head? = some '$') :
    IsAlone v [.instanceVariable, .classVariable, .globalVariable] v ↔
      IsAlone (":" ++ v) [.literal .symbol] v ∧ (v.toList.head? = some '@' →
        (v.toList.dropWhile (· == '@')).head?.any isIdentifierStart = true) := by
  rw [isAlone_variable_iff, isAlone_symbol_iff sign, Lexeme.isVariable_iff]

theorem isAlone_variable_iff_symbol_count :
    ("@@count".toList.head? = some '@' ∨ "@@count".toList.head? = some '$') ∧
      IsAlone ":@@count" [.literal .symbol] "@@count" :=
  have sign : "@@count".toList.head? = some '@' ∨ "@@count".toList.head? = some '$' := .inl rfl
  have alone : IsAlone "@@count" [.instanceVariable, .classVariable, .globalVariable] "@@count" :=
    isAlone_variable_iff.mpr ⟨_, .ofClass ⟨by decide, by decide⟩⟩
  ⟨sign, ((isAlone_variable_iff_symbol "@@count" sign).mp alone).1⟩

/-- The digit is a part of a name: the symbol is read, the variable is not. -/
theorem not_isAlone_variable_digit : IsAlone ":@1" [.literal .symbol] "@1" ∧
    ¬ IsAlone "@1" [.instanceVariable, .classVariable, .globalVariable] "@1" := by
  constructor
  · exact (@isAlone_symbol_iff "@1" (.inl rfl)).mpr (.ofAt (.inl rfl) (by decide) (by decide))
  · rw [isAlone_variable_iff, Lexeme.isVariable_iff]
    rintro ⟨_, begins⟩
    exact absurd (begins rfl) (by decide)

end RubySyntax
