import Imperative.Proofs.Grammar.ProgramSentences
import Imperative.Proofs.Typing.Resolution
import Mathlib.Data.List.Nodup

/-!
# What a parsed program writes about types

In a program that is parsed without a diagnostic every type that is mentioned by name is a declared
one: the name that stands for a missing one is only used along with a diagnostic.  No two records
have the same place, and the name of a declared type is never made up from a place.
-/

namespace Imperative

open List

variable {char : Char} {toks : List Token}

namespace Token

theorem recognize_identifier
    (isIdentifier : (Lexeme.recognize char rest).content = .plain .identifier) :
    startsWord char = true := by
  unfold Lexeme.recognize at isIdentifier
  split at isIdentifier
  · simp [recognizeLineBreak] at isIdentifier
  · split at isIdentifier
    · next starts => exact starts
    · split at isIdentifier
      · simp only [recognizeNumber] at isIdentifier
        split at isIdentifier
        · split at isIdentifier
          · simp only [realContent] at isIdentifier
            split at isIdentifier <;> cases isIdentifier
          · cases isIdentifier
        · simp only [integerContent] at isIdentifier
          split at isIdentifier <;> cases isIdentifier
      · unfold recognizeSymbol at isIdentifier
        split at isIdentifier
        · simp at isIdentifier
        · split at isIdentifier <;> simp at isIdentifier

theorem Content.token_identifier {content : Content} {span : Span}
    (noLit : ∀ val, content ≠ .literal .identifier val)
    (isIdentifier : (content.token span characters).kind = .identifier) :
    content = .plain .identifier := by
  cases content with
  | plain kind => exact congrArg Content.plain isIdentifier
  | literal kind val =>
    obtain rfl : kind = .identifier := isIdentifier
    exact absurd rfl (noLit val)
  | mistaken mistake => cases isIdentifier

theorem recognize_not_literal (val : Value) :
    (Lexeme.recognize char rest).content ≠ .literal .identifier val := by
  intro isLiteral
  unfold Lexeme.recognize at isLiteral
  split at isLiteral
  · simp [recognizeLineBreak] at isLiteral
  · split at isLiteral
    · simp only [recognizeWord, wordContent] at isLiteral
      split at isLiteral
      · simp at isLiteral
      · split at isLiteral
        · simp at isLiteral
        · split at isLiteral <;> simp at isLiteral
    · split at isLiteral
      · simp only [recognizeNumber] at isLiteral
        split at isLiteral
        · split at isLiteral
          · simp only [realContent] at isLiteral
            split at isLiteral <;> simp at isLiteral
          · simp at isLiteral
        · simp only [integerContent] at isLiteral
          split at isLiteral <;> simp at isLiteral
      · unfold recognizeSymbol at isLiteral
        split at isLiteral
        · simp at isLiteral
        · split at isLiteral <;> simp at isLiteral

def Worded (tok : Token) : Prop :=
  tok.kind = .identifier →
    ∃ char rest, startsWord char = true ∧ tok.text = some (String.ofList (char :: rest))

theorem scan_worded : (scan cur).1.Worded := by
  intro isIdentifier
  unfold scan at isIdentifier ⊢
  simp only at isIdentifier ⊢
  split at isIdentifier
  · cases isIdentifier
  · next char rest remaining =>
    have plain := Content.token_identifier recognize_not_literal isIdentifier
    obtain ⟨length, sameLength⟩ : ∃ length, (Lexeme.recognize char rest).length = length + 1 :=
      Nat.exists_eq_succ_of_ne_zero (Nat.pos_iff_ne_zero.mp (Lexeme.recognize_length_pos char rest))
    refine ⟨char, rest.take length, recognize_identifier plain, ?_⟩
    simp only [plain, Content.token, remaining, sameLength, take_succ_cons]

end Token

namespace Parser

theorem Feed.ofCursor_worded : ∀ tok ∈ (Feed.ofCursor cur).tokens, tok.Worded := by
  induction cur using Feed.ofCursor.induct with
  | case1 cur atEnd =>
    rw [Feed.ofCursor, if_pos atEnd]
    simp
  | case2 cur notAtEnd ih =>
    rw [Feed.ofCursor, if_neg notAtEnd]
    intro tok mem
    rcases mem_cons.mp mem with rfl | later
    · exact Token.scan_worded
    · exact ih tok later

end Parser

/-- What a program writes about types: a record, or a declared name. -/
inductive Writing where
  | record (spot : Nat ×ₗ Nat)
  | type (name : String)

def Writing.spot? : Writing → Option (Nat ×ₗ Nat)
  | record spot => some spot
  | type _ => none

def Plain (name : String) : Prop := ∀ span, name ≠ Typing.anonymousRecord span

theorem take_anonymousRecord (span : Span) :
    (Typing.anonymousRecord span).toList.take 2 = ['<', 'a'] := by
  unfold Typing.anonymousRecord
  simp only [String.toList_append, append_assoc]
  rfl

theorem plain_of_word (starts : Token.startsWord char = true) :
    Plain (String.ofList (char :: rest)) := by
  intro span same
  have characters := take_anonymousRecord span
  rw [← same, String.toList_ofList, take_succ_cons] at characters
  rw [(List.cons.inj characters).1] at starts
  revert starts
  decide

theorem missingName_not_word (starts : Token.startsWord char = true) :
    String.ofList (char :: rest) ≠ Parser.missingName := by
  intro isMissing
  have characters := congrArg String.toList isMissing
  rw [String.toList_ofList] at characters
  rw [(List.cons.inj characters).1] at starts
  revert starts
  decide

mutual

def TypeExpr.writings : TypeExpr → List Writing
  | .primitive _ _ | .named _ _ => []
  | .record span fields => .record span.spot :: fieldWritings fields
  | .array _ element _ => element.writings

def TypeExpr.fieldWritings : List VarDecl → List Writing
  | [] => []
  | .mk _ _ (some type) _ :: rest => type.writings ++ fieldWritings rest
  | .mk _ _ none _ :: rest => fieldWritings rest

end

def TypeExpr.writings? : Option TypeExpr → List Writing
  | some type => type.writings
  | none => []

def VarDecl.writings (decl : VarDecl) : List Writing := TypeExpr.writings? decl.type

def TypeDecl.writings (decl : TypeDecl) : List Writing := .type decl.name :: decl.type.writings

mutual

def Statement.writings : Statement → List Writing
  | .branch _ _ consequent (some alternative) => consequent.writings ++ alternative.writings
  | .branch _ _ consequent none => consequent.writings
  | .whileLoop _ _ body | .rangeLoop _ _ _ _ _ body | .arrayLoop _ _ _ _ body
  | .block _ body => body.writings
  | .assign _ _ _ | .call _ _ _ | .giveBack _ _ | .print _ _ | .empty _ => []

def Block.writings : Block → List Writing
  | .mk _ items => Block.itemWritings items

def Block.itemWritings : List Item → List Writing
  | [] => []
  | .declaration (.var decl) :: rest => decl.writings ++ Block.itemWritings rest
  | .declaration (.type decl) :: rest => decl.writings ++ Block.itemWritings rest
  | .declaration (.routine _) :: rest => Block.itemWritings rest
  | .statement inner :: rest => inner.writings ++ Block.itemWritings rest

end

def Body.writings? : Option Body → List Writing
  | some (.block inner) => inner.writings
  | some (.expression _) | none => []

def Routine.signatureWritings (routine : Routine) : List Writing :=
  routine.parameters.flatMap (·.type.writings) ++ TypeExpr.writings? routine.result

def Declaration.writings : Declaration → List Writing
  | .var decl => decl.writings
  | .type decl => decl.writings
  | .routine inner => inner.signatureWritings ++ Body.writings? inner.body

def Program.writings (program : Program) : List Writing :=
  program.declarations.flatMap Declaration.writings

/-- Writings that can be told apart: records by their places, and types by their names. -/
structure Writing.Apart (writings : List Writing) : Prop where
  records : (writings.filterMap Writing.spot?).Nodup
  names : ∀ name, .type name ∈ writings → Plain name

namespace Grammar

/--
The tokens account for the names of types that are mentioned and for what is written: each record
has a token of its own, in order, and names are words if the identifiers among the tokens are.
-/
structure Accounts (toks : List Token) (names : List String) (writings : List Writing) : Prop where
  mentioned : (∀ tok ∈ toks, tok.Worded) → ∀ name ∈ names, DeclaredName name
  records : (writings.filterMap Writing.spot?).Sublist (Parser.spots toks)
  declared : (∀ tok ∈ toks, tok.Worded) → ∀ name, .type name ∈ writings → Plain name

namespace Accounts

theorem nil (toks : List Token) : Accounts toks [] [] where
  mentioned _ := forall_mem_nil _
  records := nil_sublist _
  declared := by simp

theorem append (ofFirst : Accounts first firstNames firstWritings)
    (ofRest : Accounts rest restNames restWritings) :
    Accounts (first ++ rest) (firstNames ++ restNames) (firstWritings ++ restWritings) where
  mentioned worded := by
    obtain ⟨firstWorded, restWorded⟩ := forall_mem_append.mp worded
    exact forall_mem_append.mpr ⟨ofFirst.mentioned firstWorded, ofRest.mentioned restWorded⟩
  records := by
    rw [filterMap_append, Parser.spots, map_append]
    exact ofFirst.records.append ofRest.records
  declared worded name mem := by
    obtain ⟨firstWorded, restWorded⟩ := forall_mem_append.mp worded
    rcases mem_append.mp mem with inFirst | inRest
    · exact ofFirst.declared firstWorded name inFirst
    · exact ofRest.declared restWorded name inRest

theorem after (front : List Token) (accounts : Accounts toks names writings) :
    Accounts (front ++ toks) names writings := (nil front).append accounts

theorem cons (accounts : Accounts toks names writings) :
    Accounts (tok :: toks) names writings := accounts.after [tok]

theorem before (accounts : Accounts toks names writings) :
    Accounts (toks ++ back) names writings := by
  have whole := accounts.append (nil back)
  rwa [append_nil, append_nil] at whole

theorem record (accounts : Accounts toks names writings) :
    Accounts (opening :: toks) names (.record opening.span.spot :: writings) where
  mentioned := accounts.cons.mentioned
  records := accounts.records.cons_cons _
  declared worded name mem := accounts.cons.declared worded name (by simpa using mem)

theorem type (isName : tok.kind = .identifier) (accounts : Accounts toks names writings) :
    Accounts (tok :: toks) names (.type (tok.text.getD Parser.missingName) :: writings) where
  mentioned := accounts.cons.mentioned
  records := accounts.cons.records
  declared worded name mem := by
    obtain same | inRest := mem_cons.mp mem
    · obtain ⟨char, rest, starts, isText⟩ := worded tok (by simp) isName
      rw [Writing.type.inj same, isText]
      exact plain_of_word starts
    · exact accounts.cons.declared worded name inRest

theorem named (isName : tok.kind = .identifier)
    (isOther : PrimitiveName.ofSpelling? (tok.text.getD "") = none) :
    Accounts [tok] [tok.text.getD ""] [] where
  mentioned worded := by
    refine forall_mem_singleton.mpr ⟨isOther, fun isMissing => ?_⟩
    obtain ⟨char, rest, starts, isText⟩ := worded tok (by simp) isName
    rw [isText] at isMissing
    exact missingName_not_word starts isMissing
  records := nil_sublist _
  declared := by simp

end Accounts

def TypePhrase.names : TypePhrase → List String
  | .type tree => tree.names
  | .ascription tree => TypeExpr.namesOf? tree
  | .varDecl decl => TypeExpr.namesOf? decl.type
  | .fields decls => TypeExpr.fieldNames decls

def TypePhrase.writings : TypePhrase → List Writing
  | .type tree => tree.writings
  | .ascription tree => TypeExpr.writings? tree
  | .varDecl decl => decl.writings
  | .fields decls => TypeExpr.fieldWritings decls

theorem WritesType.accounts
    (writes : WritesType toks phrase) : Accounts toks phrase.names phrase.writings := by
  induction writes with
  | primitive | untyped | noFields => exact .nil _
  | named isName isOther => exact .named isName isOther
  | record _ _ _ _ ih => exact .record (ih.before.after _)
  | array _ _ _ ih => exact .cons (ih.after _)
  | typed _ _ ih => exact .cons ih
  | varDecl _ _ _ _ ih => exact .cons (.cons ih.before)
  | @field _ _ _ decl _ _ _ _ ofFirst ofRest =>
    obtain ⟨span, name, type, init⟩ := decl
    cases type with
    | none | some _ => exact ofFirst.append (ofRest.after _)

theorem WritesSimple.accounts (writes : WritesSimple toks declaration) :
    Accounts toks declaration.typeNames declaration.writings := by
  cases writes with
  | var inner => exact inner.accounts
  | type _ isName _ inner => exact .cons (.type isName (.cons inner.accounts))

def StatementPhrase.names : StatementPhrase → List String
  | .statement tree => tree.typeNames
  | .block _ _ tree => tree.typeNames
  | .item tree => Block.itemNames [tree]
  | .items trees => Block.itemNames trees

def StatementPhrase.writings : StatementPhrase → List Writing
  | .statement tree => tree.writings
  | .block _ _ tree => tree.writings
  | .item tree => Block.itemWritings [tree]
  | .items trees => Block.itemWritings trees

theorem itemNames_cons :
    Block.itemNames (first :: rest) = Block.itemNames [first] ++ Block.itemNames rest := by
  cases first with
  | statement inner => simp [Block.itemNames]
  | declaration inner => cases inner <;> simp [Block.itemNames]

theorem itemWritings_cons :
    Block.itemWritings (first :: rest) = Block.itemWritings [first] ++ Block.itemWritings rest := by
  cases first with
  | statement inner => simp [Block.itemWritings]
  | declaration inner => cases inner <;> simp [Block.itemWritings]

theorem WritesStatement.accounts
    (writes : WritesStatement toks phrase) : Accounts toks phrase.names phrase.writings := by
  induction writes with
  | assign | call | returnNothing | returnValue | print | noItems => exact .nil _
  | branch _ _ _ _ _ ih | whileLoop _ _ _ _ _ ih => exact .cons (.after _ (.cons ih.before))
  | branchElse _ _ _ _ _ _ _ ofFirst ofSecond =>
    exact .cons (.after _ (.cons (ofFirst.append (.cons ofSecond.before))))
  | @forLoop _ _ _ _ _ _ _ _ header _ _ _ _ _ _ _ _ _ _ ih =>
    cases header with
    | range | array => exact .cons (.cons (.cons (.after _ (.after _ (.cons ih.before)))))
  | block _ _ ih => exact ih.after _
  | declarationItem inner =>
    have ofInner := inner.accounts
    cases inner with
    | var | type =>
      simpa [StatementPhrase.names, StatementPhrase.writings, Block.itemNames,
        Block.itemWritings, Declaration.typeNames, Declaration.writings] using ofInner
  | statementItem _ ih =>
    simpa [StatementPhrase.names, StatementPhrase.writings, Block.itemNames,
      Block.itemWritings] using ih
  | item _ _ _ _ ofFirst ofRest =>
    rw [StatementPhrase.names, StatementPhrase.writings, itemNames_cons, itemWritings_cons]
    exact ofFirst.append (ofRest.after _)

theorem WritesParameters.accounts (writes : WritesParameters toks params) :
    Accounts toks (params.flatMap (·.type.names)) (params.flatMap (·.type.writings)) := by
  induction writes with
  | last _ _ inner =>
    rw [flatMap_singleton, flatMap_singleton]
    exact .cons (.cons inner.accounts)
  | more _ _ inner _ _ ih => exact .cons (.cons (inner.accounts.append (.cons ih)))

theorem WritesBody.accounts (writes : WritesBody toks body) :
    Accounts toks ((body.map Body.typeNames).getD []) (Body.writings? body) := by
  cases writes with
  | missing | expression => exact .nil _
  | block _ inner => exact .cons inner.accounts.before

theorem WritesRoutine.accounts (writes : WritesRoutine toks routine) :
    Accounts toks routine.typeNames (Declaration.routine routine).writings := by
  cases writes with
  | @mk _ _ _ _ first second third params _ _ _ _ _ ofParameters _ ofResult ofBody =>
    have ofFirst :
        Accounts first (params.flatMap (·.type.names))
          (params.flatMap (·.type.writings)) := by
      obtain ⟨rfl, rfl⟩ | ofParameters := ofParameters
      · exact .nil _
      · exact ofParameters.accounts
    rw [Routine.typeNames, Declaration.writings, Routine.signatureWritings, append_assoc,
      append_assoc]
    exact .cons (.cons (.cons (ofFirst.append (.cons (ofResult.accounts.append ofBody.accounts)))))

theorem WritesDeclarations.accounts (writes : WritesDeclarations toks declarations) :
    Accounts toks (declarations.flatMap Declaration.typeNames)
      (declarations.flatMap Declaration.writings) := by
  induction writes with
  | nil => exact .nil _
  | cons inner _ _ _ ih =>
    refine Accounts.append ?_ (ih.after _)
    cases inner with
    | simple inner | routine inner => exact inner.accounts

theorem WritesProgram.accounts (writes : WritesProgram closing toks program) :
    Accounts toks (program.declarations.flatMap Declaration.typeNames) program.writings := by
  cases writes with
  | mk _ inner => exact inner.accounts.after _

end Grammar

/-- In a program that is parsed without a diagnostic, types are mentioned by declared names. -/
theorem Program.parse_wellNamed (parses : (Program.parse text).diagnostics = []) :
    (Program.parse text).value.WellNamed :=
  fun declaration mem name mentioned =>
    (Program.parse_writes parses).accounts.mentioned Parser.Feed.ofCursor_worded name
      (mem_flatMap.mpr ⟨declaration, mem, mentioned⟩)

/-- The records of a program that is parsed without a diagnostic are at different places. -/
theorem Program.parse_apart (parses : (Program.parse text).diagnostics = []) :
    Writing.Apart (Program.parse text).value.writings := by
  have accounts := (Program.parse_writes parses).accounts
  refine ⟨?_, accounts.declared Parser.Feed.ofCursor_worded⟩
  have ordered := (Parser.Feed.ofCursor_spots (Cursor.atStart text.toList)).2
  exact (ordered.sublist accounts.records).nodup

end Imperative
