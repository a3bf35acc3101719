import Imperative.Proofs.Grammar.Completeness
import Imperative.Proofs.Grammar.Program

/-!
# Types and simple declarations are parsed

What comes after a declaration is told from its first token, which does not go on with it.
-/

namespace Imperative.Parser

open List

open Grammar
open Token (Kind)

variable {toks : List Token} {prev : Span}

def bounds : Kind → Bool
  | .endOfFile | .newLine | .identifier | .symbol .semicolon => true
  | .keyword word =>
    match word with
    | .endWord | .elseWord | .varWord | .typeWord | .routineWord | .ifWord | .whileWord
    | .forWord | .returnWord | .printWord => true
    | _ => false
  | _ => false

theorem continues_of_bounds (isBound : bounds kind = true) : continues kind = false := by
  cases kind with
  | symbol mark => cases mark <;> first | rfl | cases isBound
  | keyword word => cases word <;> first | rfl | cases isBound
  | _ => rfl

theorem ne_of_bounds (isBound : bounds kind = true) (isOther : bounds other = false) :
    kind ≠ other := by
  rintro rfl
  rw [isBound] at isOther
  cases isOther

theorem bounds_of_separates (separates : kind.isSeparator = true) : bounds kind = true := by
  cases kind with
  | symbol mark => cases mark <;> first | rfl | cases separates
  | _ => first | rfl | cases separates

theorem bounds_of_endsBlock (ends : kind.endsBlock = true) : bounds kind = true := by
  cases kind with
  | keyword word => cases word <;> first | rfl | cases ends
  | _ => first | rfl | cases ends

theorem bounds_separators (separate : Separators separators)
    (isBound : bounds (nextKind rest) = true) : bounds (nextKind (separators ++ rest)) = true := by
  cases separators with
  | nil => exact isBound
  | cons separator separators => exact bounds_of_separates (separate _ mem_cons_self)

theorem reads_arraySize (writes : WritesSize toks size) :
    Reads prev arraySize toks size (· ≠ .symbol .leftBracket) := by
  cases writes with
  | missing => exact .acceptNot (fun _ ends => ends) .pure
  | unsized opens closes =>
    refine .accept opens (.check (fun _ _ => closes) ?_)
    rw [if_pos rfl, pure_bind]
    exact .expect closes .pure
  | @sized opening closing inside size opens inner closes =>
    rw [cons_append]
    refine .accept opens (.checkNot (fun rest _ isClosing => ?_) ?_)
    · have first := begins_append inner.begins ([closing] ++ rest)
      rw [← append_assoc, isClosing] at first
      cases first
    · exact (reads_expression inner).map.before (by rw [closes]; rfl) (.expect closes .pure)

theorem reads_initialValue (writes : WritesInitial toks init) :
    Reads prev initialValue toks init (bounds · = true) := by
  cases writes with
  | missing => exact .acceptNot (fun _ ends => ne_of_bounds ends rfl) .pure
  | given isMark inner =>
    exact .accept isMark ((reads_expression inner).imp fun _ => continues_of_bounds).map

/-- What the rules say of a phrase: it is read by the parser for it. -/
def ReadsTypePhrase (toks : List Token) : TypePhrase → Prop
  | .type tree => ∀ prev, Reads prev type toks tree fun _ => True
  | .ascription tree =>
    ∀ ⦃α : Type⦄ ⦃prev : Span⦄ ⦃next : Option TypeExpr → Parser α⦄ ⦃more : List Token⦄
      ⦃res : α⦄ ⦃ends : Kind → Prop⦄,
      (∀ rest, ends (nextKind rest) → nextKind (more ++ rest) ≠ .symbol .colon) →
      Reads (endOf prev toks) (next tree) more res ends →
      Reads prev (do
        if (← accept (.symbol .colon)) then next (← some <$> type) else next (← pure none))
        (toks ++ more) res ends
  | .varDecl decl => ∀ prev, Reads prev varDecl toks decl (bounds · = true)
  | .fields decls => ∀ prev, Reads prev (typeRules.parse .fields) toks decls (· = .keyword .endWord)

/-- A type starts with a name, `record` or `array`, and a variable with `var`. -/
def BeginsTypePhrase (toks : List Token) : TypePhrase → Prop
  | .type _ =>
    nextKind toks = .identifier ∨ nextKind toks = .keyword .recordWord ∨
      nextKind toks = .keyword .arrayWord
  | .varDecl _ => nextKind toks = .keyword .varWord
  | .fields decls => decls = [] ∧ toks = [] ∨ nextKind toks = .keyword .varWord
  | .ascription _ => True

theorem beginsTypePhrase (writes : WritesType toks phrase) : BeginsTypePhrase toks phrase := by
  induction writes with
  | primitive isName | named isName => exact .inl isName
  | record opens => exact .inr (.inl opens)
  | array opens => exact .inr (.inr opens)
  | untyped | typed => trivial
  | varDecl opens => exact opens
  | noFields => exact .inl ⟨rfl, rfl⟩
  | @field first _ _ _ _ _ _ _ ofFirst _ =>
    have notEmpty : first ≠ [] := by
      rintro rfl
      cases ofFirst
    exact .inr ((nextKind_append notEmpty).trans ofFirst)

theorem bounds_fields (writes : WritesType toks (.fields decls)) (rest : List Token)
    (ends : nextKind rest = .keyword .endWord) :
    bounds (nextKind (toks ++ rest)) = true ∧ (nextKind (toks ++ rest)).isSeparator = false := by
  obtain ⟨-, rfl⟩ | isVar := beginsTypePhrase writes
  · rw [nil_append, ends]
    decide
  · rw [nextKind_append (by rintro rfl; cases isVar), isVar]
    decide

theorem reads_of_writesType (writes : WritesType toks phrase) : ReadsTypePhrase toks phrase := by
  induction writes with
  | primitive isName isSort | named isName isSort =>
    intro prev
    rw [type, Group.parse_eq]
    refine .current ?_
    simp only [isName]
    refine .advance ?_
    rw [isSort]
    exact .pure
  | @record opening last separators toks fields opens separate inner closes ih =>
    intro prev
    rw [type, Group.parse_eq]
    refine .current ?_
    simp only [opens]
    refine .advance (.skipSeparators separate (fun rest _ => ?_)
      ((ih _).before closes (.demand closes (.spanFrom .pure))))
    rw [append_assoc]
    exact (bounds_fields inner ([last] ++ rest) closes).2
  | array opens inBrackets inner ih =>
    intro prev
    rw [type, Group.parse_eq]
    simp only [spanOver, endOf_append]
    refine .current ?_
    simp only [opens]
    refine .advance ((reads_arraySize inBrackets).bind
      ((ih _).last (fun _ _ => trivial) (.spanFrom .pure)) fun rest _ => ?_)
    rcases beginsTypePhrase inner with isFirst | isFirst | isFirst <;>
      rw [nextKind_append (by rintro rfl; cases isFirst), isFirst] <;> decide
  | untyped =>
    intro α prev next more res ends noColon others
    refine .acceptNot noColon ?_
    exact others
  | typed isColon inner ih =>
    intro α prev next more res ends noColon others
    exact .accept isColon ((ih _).map.bind others fun _ _ => trivial)
  | varDecl opens isName inner ofInitial ih =>
    intro prev
    rw [varDecl, Group.parse_eq]
    simp only [spanOver, endOf_cons, endOf_append]
    refine .current (.expect opens (.expectName isName (ih (fun rest ends => ?_)
      ((reads_initialValue ofInitial).last (fun _ ends => ends) (.spanFrom .pure)))))
    cases ofInitial with
    | missing => exact ne_of_bounds ends rfl
    | given isMark _ => simp [isMark]
  | noFields =>
    intro prev
    rw [Group.parse_eq]
    refine .checkNot (fun rest ends => ?_) .pure
    rw [nil_append, ends]
    decide
  | field inner separate more readsFirst readsMore =>
    intro prev
    rw [Group.parse_eq]
    have begins := beginsTypePhrase inner
    refine .check (fun rest _ => ?_) ((readsFirst _).bind
      (.skipSeparators separate (fun rest ends => ?_)
        ((readsMore _).last (fun _ ends => ends) .pure)) fun rest ends => ?_)
    · rw [append_assoc, nextKind_append (by rintro rfl; cases begins)]
      exact begins
    · exact (bounds_fields more rest ends).2
    · rw [append_assoc]
      exact bounds_separators separate (bounds_fields more rest ends).1

theorem reads_simpleDeclaration (writes : WritesSimple toks declaration) (prev : Span) :
    Reads prev simpleDeclaration toks declaration (bounds · = true) := by
  cases writes with
  | var inner =>
    have begins : nextKind toks = .keyword .varWord := beginsTypePhrase inner
    refine .checkNot (fun rest _ => ?_) (reads_of_writesType inner _).map
    rw [nextKind_append (by rintro rfl; cases begins), begins]
    decide
  | type opens isName isMark inner =>
    have reads : Reads prev typeDecl _ _ (bounds · = true) :=
      .current (.expect opens (.expectName isName (.expect isMark
        ((reads_of_writesType inner _).last (fun _ _ => trivial) (.spanFrom .pure)))))
    exact .check (fun _ _ => opens) reads.map

end Imperative.Parser
