import Imperative.Proofs.Typing.Judgement

/-!
# Proper contexts

In a context whose symbols are all proper, every expression has a proper type, except that a
call may be of a routine without a result.  Declarations keep contexts proper.
-/

namespace Imperative.Typing

open List

variable {ctx : Context} {routine : Routine} {sig : Signature} {type : Ty}

/-- The type is `void`, or it is proper. -/
def Returnable (type : Ty) : Prop := type.isVoid = true ∨ type.Proper

/-- The types in the symbol are proper; only a result may be `void`. -/
def Symbol.Proper : Symbol → Prop
  | .var meaning | .type meaning => meaning.Proper
  | .routine sig => (∀ param ∈ sig.parameters, param.2.Proper) ∧ Returnable sig.result

/-- Every symbol in the context has the property. -/
def Context.Each (Holds : Symbol → Prop) (ctx : Context) : Prop :=
  ∀ name sym, ctx name = some sym → Holds sym

abbrev Context.Proper (ctx : Context) : Prop := ctx.Each Symbol.Proper

theorem Returnable.proper (returnable : Returnable type) (hasValue : type.isVoid = false) :
    type.Proper := by
  rcases returnable with isVoid | proper
  · rw [hasValue] at isVoid
    cases isVoid
  · exact proper

theorem Returnable.not_error (returnable : Returnable type) : type.isError = false := by
  rcases returnable with isVoid | proper
  · cases type <;> simp_all [Ty.isVoid, Ty.isError]
  · exact proper.not_error

theorem Returnable.proper_of_assignable (returnable : Returnable src)
    (proper : tgt.Proper) (assignable : src.assignable tgt = true) : src.Proper := by
  apply returnable.proper
  cases src <;> cases tgt <;> simp_all [Ty.isVoid, Ty.assignable]

namespace Context

theorem basic_each (each : ∀ name, Holds (.type (primitiveType name))) : basic.Each Holds := by
  intro name sym found
  obtain ⟨primitive, -, rfl⟩ := Option.map_eq_some_iff.mp found
  exact each primitive

theorem basic_proper : basic.Proper := basic_each fun name => by cases name <;> trivial

theorem Each.define (each : ctx.Each Holds) (holds : Holds sym) :
    (Context.define name sym ctx).Each Holds := by
  intro other found lookedUp
  rcases define_eq_some.mp lookedUp with ⟨-, rfl⟩ | ⟨-, lookedUp⟩
  · exact holds
  · exact each other found lookedUp

theorem Each.defineAll (each : ctx.Each Holds)
    (ofEntries : ∀ entry ∈ entries, Holds (.var entry.2)) :
    (Context.defineAll entries ctx).Each Holds := by
  induction entries generalizing ctx with
  | nil => exact each
  | cons entry rest ih =>
    obtain ⟨ofEntry, ofRest⟩ := forall_mem_cons.mp ofEntries
    exact ih (each.define ofEntry) ofRest

theorem Each.typeNamed (each : ctx.Each Holds) (name : String) (type : Ty)
    (found : ctx.typeNamed name = some type) : Holds (.type type) :=
  each name (.type type) (typeNamed_eq_some.mp found)

end Context

theorem Resolves.proper (resolves : Resolves ctx hint written type) (proper : ctx.Proper) :
    type.Proper := by
  rw [← resolves.value]
  exact resolve_proper proper.typeNamed hint written resolves.wellNamed resolves.clean

section Rules

theorem HasType.returnable (proper : ctx.Proper) :
    (expr : Expr) → {type : Ty} → HasType Converts ctx expr type → Returnable type
  | .integer _ _, _, .integer | .real _ _, _, .real | .boolean _ _, _, .boolean
  | .unary _ _ _, _, .not _ _ | .binary _ _ _ _, _, .logical ..
  | .binary _ _ _ _, _, .comparison .. => .inr trivial
  | .name _ identifier, type, .name found => .inr (proper identifier (.var type) found)
  | .field _ recv _, _, .field receiverTyped found =>
    .inr (((HasType.returnable proper recv receiverTyped).proper rfl).field found)
  | .index _ recv _, _, .index receiverTyped _ _ =>
    .inr ((HasType.returnable proper recv receiverTyped).proper rfl)
  | .call _ routine _, _, .call found _ => (proper routine _ found).2
  | .unary _ _ operand, _, .sign _ operandTyped _ => HasType.returnable proper operand operandTyped
  | .binary _ _ _ _, _, .arithmetic .. => by
    right
    split <;> simp

theorem HasType.fields_proper (proper : ctx.Proper)
    (typed : HasType Converts ctx tree (.record label fields)) : Ty.FieldsProper fields :=
  (typed.returnable proper).proper rfl

theorem HasType.element_proper (proper : ctx.Proper)
    (typed : HasType Converts ctx tree (.array type size)) : type.Proper :=
  (typed.returnable proper).proper rfl

theorem VarTyped.proper (proper : ctx.Proper) (typed : VarTyped Converts ctx decl type) :
    type.Proper := by
  cases typed with
  | declared resolves | initialized resolves => exact resolves.proper proper
  | inferred valueTyped hasValue => exact (valueTyped.returnable proper).proper hasValue

end Rules

def Context.Within (smaller larger : Context) : Prop :=
  ∀ name sym, smaller name = some sym → larger name = some sym

def Context.TypesWithin (smaller larger : Context) : Prop :=
  ∀ name type, smaller name = some (.type type) → larger name = some (.type type)

theorem Context.within_define (fresh : ctx name = none) (sym : Symbol) :
    ctx.Within (Context.define name sym ctx) := by
  intro other known found
  refine Context.define_eq_some.mpr (.inr ⟨?_, found⟩)
  rintro rfl
  cases fresh.symm.trans found

theorem Resolves.within (within : smaller.TypesWithin larger)
    (resolves : Resolves smaller hint written type) : Resolves larger hint written type := by
  have same : resolve larger.typeNamed hint written = resolve smaller.typeNamed hint written := by
    apply resolve_of_found resolves.wellNamed resolves.clean
    intro name _ meaning found
    exact Context.typeNamed_eq_some.mpr (within name meaning (Context.typeNamed_eq_some.mp found))
  exact ⟨resolves.wellNamed, by rw [same]; exact resolves.clean, by rw [same]; exact resolves.value⟩

theorem Declares.within (within : smaller.TypesWithin larger)
    (declares : Declares smaller routine sig) : Declares larger routine sig where
  parameters := declares.parameters.imp fun _ _ entry => ⟨entry.1, entry.2.within within⟩
  result written given := (declares.result written given).within within
  noResult := declares.noResult
  hasBody := declares.hasBody

theorem Declares.proper (proper : ctx.Proper) (declares : Declares ctx routine sig) :
    (Symbol.routine sig).Proper := by
  refine .intro ?_ ?_
  · obtain ⟨every, -, -, -⟩ := declares
    generalize routine.parameters = written at every
    generalize sig.parameters = types at every ⊢
    induction every with
    | nil => simp
    | cons entry _ ih =>
      intro param mem
      rcases mem_cons.mp mem with rfl | later
      · exact entry.2.proper proper
      · exact ih param later
  · cases given : routine.result with
    | none =>
      left
      rw [declares.noResult given]
      rfl
    | some written => exact .inr ((declares.result written given).proper proper)

namespace Declared

theorem proper (declared : Declared ctx decls final) (startsProper : ctx.Proper) :
    final.Proper := by
  induction declared with
  | nil => exact startsProper
  | var _ ih | repeated _ _ _ _ _ ih => exact ih startsProper
  | type _ resolves _ ih => exact ih (startsProper.define (resolves.proper startsProper))
  | routine _ declares _ ih | completed _ _ declares _ _ _ ih =>
    exact ih (startsProper.define (declares.proper startsProper))

theorem typesWithin (declared : Declared ctx decls final) : ctx.TypesWithin final := by
  induction declared with
  | nil => exact fun _ _ found => found
  | var _ ih => exact ih
  | type fresh _ _ ih | routine fresh _ _ ih =>
    exact fun name type found => ih name type (Context.within_define fresh _ name _ found)
  | repeated _ _ _ _ _ ih => exact ih
  | @completed ctx _ routine _ _ _ known _ _ _ _ _ ih =>
    intro name type found
    apply ih
    refine Context.define_eq_some.mpr (.inr ⟨?_, found⟩)
    rintro rfl
    cases known.symm.trans found

theorem keeps_complete (declared : Declared ctx decls final)
    (found : ctx name = some (.routine sig)) (complete : sig.hasBody = true) :
    final name = some (.routine sig) := by
  induction declared with
  | nil => exact found
  | var _ ih | repeated _ _ _ _ _ ih => exact ih found
  | type fresh _ _ ih | routine fresh _ _ ih =>
    exact ih (Context.within_define fresh _ name _ found)
  | @completed ctx _ routine existing _ _ known incomplete _ _ _ _ ih =>
    apply ih
    refine Context.define_eq_some.mpr (.inr ⟨?_, found⟩)
    rintro rfl
    cases known.symm.trans found
    cases incomplete.symm.trans complete

theorem signature_of_body (declared : Declared ctx decls final)
    (mem : .routine routine ∈ decls) (hasBody : routine.isForward = false) :
    ∃ sig, final routine.name = some (.routine sig) ∧ Declares final routine sig := by
  -- From its own declaration on, the signature of a routine with a body stays in the context.
  have settled {ctx final : Context} {rest : List Declaration} {sig : Signature}
      (declares : Declares ctx routine sig) (within : ctx.TypesWithin final)
      (declared : Declared (.define routine.name (.routine sig) ctx) rest final) :
      ∃ sig, final routine.name = some (.routine sig) ∧ Declares final routine sig := by
    have complete : sig.hasBody = true := by rw [declares.hasBody, hasBody]; rfl
    exact ⟨sig, declared.keeps_complete Context.define_same complete, declares.within within⟩
  induction declared with
  | nil => cases mem
  | var _ ih | type _ _ _ ih =>
    rcases mem_cons.mp mem with same | later
    · cases same
    · exact ih later
  | routine fresh declares restDeclared ih =>
    rcases mem_cons.mp mem with same | later
    · cases same
      exact settled declares (Declared.routine fresh declares restDeclared).typesWithin restDeclared
    · exact ih later
  | repeated _ declares _ isForward _ ih =>
    rcases mem_cons.mp mem with same | later
    · cases same
      rw [declares.hasBody, hasBody] at isForward
      cases isForward
    · exact ih later
  | completed known incomplete declares agrees complete restDeclared ih =>
    rcases mem_cons.mp mem with same | later
    · cases same
      exact settled declares
        (Declared.completed known incomplete declares agrees complete restDeclared).typesWithin
        restDeclared
    · exact ih later

end Declared

section Rules

variable {RoutineChecked : Context → Routine → Prop}

theorem Checked.proper (checked : Checked Converts RoutineChecked ctx decls final)
    (startsProper : ctx.Proper) : final.Proper := by
  induction checked with
  | nil => exact startsProper
  | var _ declTyped _ ih => exact ih (startsProper.define (declTyped.proper startsProper))
  | type _ ih | routine _ _ ih => exact ih startsProper

theorem Checked.imp (checked : Checked Converts RoutineChecked ctx decls final)
    (implies : ∀ ctx routine, .routine routine ∈ decls → RoutineChecked ctx routine →
      Weaker ctx routine) :
    Checked Converts Weaker ctx decls final := by
  induction checked with
  | nil => exact .nil
  | var fresh declTyped _ ih =>
    exact .var fresh declTyped (ih fun ctx routine mem => implies ctx routine (by simp [mem]))
  | type _ ih => exact .type (ih fun ctx routine mem => implies ctx routine (by simp [mem]))
  | routine routineChecked _ ih =>
    exact .routine (implies _ _ (by simp) routineChecked)
      (ih fun ctx routine mem => implies ctx routine (by simp [mem]))

theorem Checked.within (checked : Checked Converts RoutineChecked ctx decls final) :
    ctx.Within final := by
  induction checked with
  | nil => exact fun _ _ found => found
  | var fresh _ _ ih =>
    exact fun name sym found => ih name sym (Context.within_define fresh _ name sym found)
  | type _ ih => exact ih
  | routine _ _ ih => exact ih

end Rules

end Imperative.Typing
