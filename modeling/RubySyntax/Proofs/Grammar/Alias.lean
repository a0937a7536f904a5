import RubySyntax.Proofs.Grammar.Continuation
import RubySyntax.Proofs.Lexer.MethodName

/-! Aliases of methods. Every name of a method may stand at both places of an alias, but the
lexer, which reads the names before the grammar asks for them, takes a slash for the beginning
of a regular expression wherever an operand may begin. -/
namespace RubySyntax

open Lexeme (Context IsMethodName)
open Token (Kind Keyword Punct)

/-- The token of a slash that has been taken for the beginning of a regular expression. -/
def Token.Misread (token : Token) : Prop :=
  token.kind = .unknown ∨ token.kind = .literal .regex

namespace Lexer

variable {source : String} {kind kind' : Kind} {name old : List Char}

/-- The keyword of an alias is handed out, and what stands behind it is next. -/
theorem ofSource_alias {rest : List Char} (written : source.toList = "alias".toList ++ ' ' :: rest) :
    ∃ token behind, (ofSource source).Hands (.keyword .aliasKw) "alias".toList token behind ∧
      behind.Awaits (some (.keyword .aliasKw)) rest := by
  have awaits : (ofSource source).Awaits none ("alias".toList ++ ' ' :: rest) :=
    ⟨.inl (by rw [← written]; rfl), rfl⟩
  have named := Lexeme.isMethodName_keyword .aliasKw ⟨by decide, by decide⟩
  exact awaits.methodName named (.inr ⟨rest, rfl⟩) rfl rfl (by simp)

/-- Behind the keyword both names are handed out as what they are. -/
theorem scan_alias (named : IsMethodName kind name) (again : IsMethodName kind' old)
    (divides : kind ≠ .punct .slash)
    (divides' : kind' = .punct .slash → Context.opensRegex ⟨some kind, false⟩ = false)
    (written : source.toList = "alias".toList ++ ' ' :: (name ++ ' ' :: old)) :
    ∃ first second third last, (scan source).1 = [first, second, third, last] ∧
      first.kind = .keyword .aliasKw ∧ (second.kind = kind ∧ second.text = String.ofList name) ∧
      (third.kind = kind' ∧ third.text = String.ofList old) ∧ last.kind = .endOfFile := by
  obtain ⟨first, behind, keyword, awaits⟩ := ofSource_alias written
  obtain ⟨second, between, spelled, awaits⟩ :=
    awaits.methodName named (.inr ⟨old, rfl⟩) rfl rfl (absurd · divides)
  have awaits : between.Awaits (some kind) (old ++ []) := by rwa [List.append_nil]
  obtain ⟨third, final, respelled, awaits⟩ :=
    awaits.methodName again (.inl rfl) named.running named.not_isAfterDot divides'
  obtain ⟨last, stop, ends, ended⟩ := awaits.ended again.running
  have run : Run (ofSource source) [first, second, third, last] stop :=
    .more keyword.read (.more spelled.read (.more respelled.read (.more ends.read .done)))
  exact ⟨first, second, third, last, scan_of_run run (halted_of_last ended.last), keyword.kind,
    ⟨spelled.kind, spelled.text⟩, ⟨respelled.kind, respelled.text⟩, ends.kind⟩

/-- Behind the keyword a slash is misread. -/
theorem scan_alias_slash (written : source.toList = "alias".toList ++ ' ' :: ('/' :: ' ' :: old)) :
    ∃ first second rest, (scan source).1 = first :: second :: rest ∧
      first.kind = .keyword .aliasKw ∧ second.Misread := by
  obtain ⟨first, behind, keyword, awaits⟩ := ofSource_alias written
  obtain ⟨second, final, read, misread⟩ := awaits.slash (.inr ⟨old, rfl⟩) rfl rfl
  obtain ⟨rest, scanned⟩ := Run.scan_prefix (.more keyword.read (.more read .done))
  exact ⟨first, second, rest, scanned, keyword.kind, misread⟩

/-- Behind a name that ends no value a slash is misread. -/
theorem scan_alias_toSlash (named : IsMethodName kind name) (divides : kind ≠ .punct .slash)
    (opens : Context.opensRegex ⟨some kind, false⟩ = true)
    (written : source.toList = "alias".toList ++ ' ' :: (name ++ ' ' :: ['/'])) :
    ∃ first second third rest, (scan source).1 = first :: second :: third :: rest ∧
      first.kind = .keyword .aliasKw ∧ second.kind = kind ∧ third.Misread := by
  obtain ⟨first, behind, keyword, awaits⟩ := ofSource_alias written
  obtain ⟨second, between, spelled, awaits⟩ :=
    awaits.methodName named (.inr ⟨['/'], rfl⟩) rfl rfl (absurd · divides)
  obtain ⟨third, final, read, misread⟩ := awaits.slash (.inl rfl) named.running opens
  obtain ⟨rest, scanned⟩ :=
    Run.scan_prefix (.more keyword.read (.more spelled.read (.more read .done)))
  exact ⟨first, second, third, rest, scanned, keyword.kind, spelled.kind, misread⟩

end Lexer

namespace Grammar

open Grammar.Parser
open Diagnostic (ParseError)
open RubySyntax.Tree (Node)

variable {scope : Scope} {token next second : Token} {rest : List Token} {kind : Kind}

theorem known_of_isMethodName (names : token.kind.isMethodName = true) : token.kind ≠ .unknown := by
  intro same
  rw [same] at names
  cases names

theorem aliasName_ofTokens (names : token.kind.isMethodName = true) (known : next.kind ≠ .unknown) :
    aliasName scope (.ofTokens token (next :: rest)) = .ok (token.text, .ofTokens next rest) := by
  unfold aliasName
  rw [bind_ok _ (kind_eq ..), Cursor.token_ofTokens, names]
  exact bind_ok _ (advance_ofTokens known rest)

theorem advance_unknown (unknown : next.kind = .unknown) :
    ∃ error, advance scope (.ofTokens token (next :: rest)) = .error error := by
  have refused : (next.kind == .unknown) = true := beq_iff_eq.mpr unknown
  exact ⟨_, (advance_some (Cursor.next?_ofTokens token next rest)).trans (if_pos refused)⟩

theorem aliasName_unknown (names : token.kind.isMethodName = true) (unknown : next.kind = .unknown) :
    ∃ error, aliasName scope (.ofTokens token (next :: rest)) = .error error := by
  obtain ⟨error, refused⟩ := @advance_unknown scope token next rest unknown
  unfold aliasName
  rw [bind_ok _ (kind_eq ..), Cursor.token_ofTokens, names]
  exact ⟨error, bind_error _ refused⟩

theorem aliasName_regex (scope : Scope) (rest : List Token) (regex : token.kind = .literal .regex) :
    ∃ error, aliasName scope (.ofTokens token rest) = .error error := by
  unfold aliasName
  rw [bind_ok _ (kind_eq ..), Cursor.token_ofTokens, regex]
  exact ⟨_, rfl⟩

/-- No name is read from a misread token, whether or not it is moved on to. -/
theorem aliasName_misread {moves : Parser α} (more : α → String → Parser β) (misread : next.Misread)
    (halts : next.kind = .unknown → ∃ error, moves scope cursor = .error error)
    (steps : next.kind ≠ .unknown → ∃ value, moves scope cursor = .ok (value, .ofTokens next rest)) :
    ∃ error, (moves >>= fun value => aliasName >>= more value) scope cursor = .error error := by
  rcases misread with unknown | regex
  · obtain ⟨error, refused⟩ := halts unknown
    exact ⟨error, bind_error _ refused⟩
  · obtain ⟨value, moved⟩ := steps (by simp [regex])
    obtain ⟨error, refused⟩ := aliasName_regex scope rest regex
    exact ⟨error, (bind_ok _ moved).trans (bind_error _ refused)⟩

theorem aliasDecl_ofTokens {third last : Token} (names : second.kind.isMethodName = true)
    (again : third.kind.isMethodName = true) (ended : last.kind = .endOfFile) :
    aliasDecl scope (.ofTokens token [second, third, last]) =
      .ok (.aliasDecl second.text third.text, .ofTokens last []) := by
  unfold aliasDecl
  rw [bind_ok _ (discard_ok (advance_ofTokens (known_of_isMethodName names) _)),
    bind_ok _ (aliasName_ofTokens names (known_of_isMethodName again)),
    bind_ok _ (aliasName_ofTokens again (by simp [ended]))]
  rfl

theorem aliasDecl_misread (misread : second.Misread) :
    ∃ error, aliasDecl scope (.ofTokens token (second :: rest)) = .error error := by
  refine aliasName_misread _ misread (fun unknown => ?_) fun known =>
    ⟨(), discard_ok (advance_ofTokens known rest)⟩
  obtain ⟨error, refused⟩ := @advance_unknown scope token second rest unknown
  refine ⟨error, ?_⟩
  show Except.map _ (advance scope _) = _
  rw [refused]
  rfl

theorem aliasDecl_toMisread {third : Token} (names : second.kind.isMethodName = true)
    (misread : third.Misread) :
    ∃ error, aliasDecl scope (.ofTokens token (second :: third :: rest)) = .error error := by
  unfold aliasDecl
  rw [bind_ok _ (discard_ok (advance_ofTokens (known_of_isMethodName names) _))]
  exact aliasName_misread _ misread (aliasName_unknown names) fun known =>
    ⟨second.text, aliasName_ofTokens names known⟩

/-- What begins with the keyword of an alias is one. -/
theorem primary_alias (nest : Nest) (keyword : token.kind = .keyword .aliasKw) :
    primary nest scope (.ofTokens token rest) = aliasDecl scope (.ofTokens token rest) := by
  unfold primary
  rw [bind_ok _ (kind_eq ..), Cursor.token_ofTokens, keyword]
  rfl

theorem beginsPlain_alias (keyword : token.kind = .keyword .aliasKw) : BeginsPlain token.kind := by
  rw [keyword]
  exact ⟨by decide, by decide, rfl, by decide, by decide⟩

end Grammar

/-- An alias of one method to another is read, whatever their names are, except where one is
a slash: nothing is read if that is the new name, or if it is the old one and the new one is
an operator or a reserved word that ends no value, but for the keyword of definitions. -/
theorem parse_alias {kind kind' : Kind} {name old : String}
    (named : IsMethodName kind name.toList) (again : IsMethodName kind' old.toList)
    (options : Options) (room : 0 < options.maxDepth) :
    let divides := name ≠ "/" ∧ (old = "/" → kind.endsValue = true ∨ kind = .keyword .defKw)
    (divides → parse ("alias " ++ name ++ " " ++ old) options = .ok [.aliasDecl name old]) ∧
      (¬ divides → ∃ error, parse ("alias " ++ name ++ " " ++ old) options = .error error) := by
  intro divides
  have written : ("alias " ++ name ++ " " ++ old).toList =
      "alias".toList ++ ' ' :: (name.toList ++ ' ' :: old.toList) := by
    simp
  have slash {text : String} {kind : Kind} (named : IsMethodName kind text.toList) :
      kind = .punct .slash ↔ text = "/" := by
    rw [named.slash_iff]
    exact ⟨fun same => String.toList_inj.mp same, fun same => congrArg String.toList same⟩
  constructor
  · rintro ⟨notSlash, behind⟩
    have noRegex (same : kind' = .punct .slash) : Context.opensRegex ⟨some kind, false⟩ = false :=
      Bool.eq_false_iff.mpr fun opens =>
        named.opensRegex_iff.mp opens (behind ((slash again).mp same))
    obtain ⟨first, second, third, last, scanned, keyword, ⟨kinds, text⟩, ⟨kinds', text'⟩, ended⟩ :=
      Lexer.scan_alias named again (fun same => notSlash ((slash named).mp same)) noRegex written
    have read (scope : Grammar.Scope) := @Grammar.aliasDecl_ofTokens scope first second third last
      (kinds ▸ named.isMethodName) (kinds' ▸ again.isMethodName) ended
    rw [String.ofList_toList] at text text'
    rw [text, text'] at read
    exact parse_of_primary room scanned (Grammar.beginsPlain_alias keyword)
      (fun nest scope => (Grammar.primary_alias nest keyword).trans (read scope)) ended
  · intro refused
    by_cases isSlash : name = "/"
    · subst isSlash
      -- The keyword ends no value, so whatever is behind it is no division.
      obtain ⟨first, second, rest, scanned, keyword, misread⟩ := Lexer.scan_alias_slash written
      refine parse_of_primaryRefused room scanned (Grammar.beginsPlain_alias keyword)
        fun nest scope => ?_
      rw [Grammar.primary_alias nest keyword]
      exact Grammar.aliasDecl_misread misread
    · obtain ⟨rfl, opens⟩ : old = "/" ∧ ¬ (kind.endsValue = true ∨ kind = .keyword .defKw) := by
        simpa [divides, isSlash] using refused
      obtain ⟨first, second, third, rest, scanned, keyword, kinds, misread⟩ :=
        Lexer.scan_alias_toSlash named (fun same => isSlash ((slash named).mp same))
          (named.opensRegex_iff.mpr opens) written
      refine parse_of_primaryRefused room scanned (Grammar.beginsPlain_alias keyword)
        fun nest scope => ?_
      rw [Grammar.primary_alias nest keyword]
      exact Grammar.aliasDecl_toMisread (kinds ▸ named.isMethodName) misread

/-- A predicate becomes a name of division. -/
theorem parse_alias_division :
    IsMethodName .identifier "even?".toList ∧ IsMethodName (.punct .slash) "/".toList ∧
      parse "alias even? /" = .ok [.aliasDecl "even?" "/"] :=
  have named : IsMethodName .identifier "even?".toList :=
    .word (@Lexeme.IsMethodWord.marked "even".toList '?' ⟨by decide, by decide⟩ (by decide) (.inl rfl))
  have again : IsMethodName (.punct .slash) "/".toList := .operator rfl
  ⟨named, again, (parse_alias named again {} (by decide)).1 ⟨by decide, fun _ => .inl rfl⟩⟩

/-- Division cannot be given another name. -/
theorem not_parse_alias_of_slash :
    IsMethodName (.punct .slash) "/".toList ∧ IsMethodName .identifier "div".toList ∧
      parse "alias / div" ≠ .ok [.aliasDecl "/" "div"] := by
  have plain : Lexeme.IsMethodWord "div".toList := .plain ⟨by decide, by decide⟩
  refine ⟨.operator rfl, .word plain, fun read => ?_⟩
  have failed : (parse "alias / div").isOk = false := by decide +kernel
  rw [read] at failed
  cases failed

end RubySyntax
