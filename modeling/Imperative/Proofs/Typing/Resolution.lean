import Imperative.Typing.Resolve

/-!
# What resolving a type depends on

Resolving a written type looks up exactly the names it mentions.  It gives a proper type as soon as
the types it mentions are.
-/

namespace Imperative

open List

theorem mem_of_lookup {entries : List (String × α)}
    (found : entries.lookup name = some val) : (name, val) ∈ entries := by
  obtain ⟨front, back, rfl, -⟩ := lookup_eq_some_iff.mp found
  simp

mutual

/-- The names that a type mentions. -/
def TypeExpr.names : TypeExpr → List String
  | .primitive _ _ => []
  | .named _ name => [name]
  | .record _ fields => TypeExpr.fieldNames fields
  | .array _ element _ => element.names

def TypeExpr.fieldNames : List VarDecl → List String
  | [] => []
  | .mk _ _ (some type) _ :: rest => type.names ++ TypeExpr.fieldNames rest
  | .mk _ _ none _ :: rest => TypeExpr.fieldNames rest

end

/-- The name is neither built in nor a missing one. -/
def DeclaredName (name : String) : Prop :=
  PrimitiveName.ofSpelling? name = none ∧ name ≠ Typing.errorTypeName

/-- Every name in the type can be a declared one. -/
def TypeExpr.WellNamed (type : TypeExpr) : Prop := ∀ name ∈ type.names, DeclaredName name

def TypeExpr.namesOf? : Option TypeExpr → List String
  | some type => type.names
  | none => []

mutual

def Statement.typeNames : Statement → List String
  | .branch _ _ consequent (some alternative) => consequent.typeNames ++ alternative.typeNames
  | .branch _ _ body none | .whileLoop _ _ body | .rangeLoop _ _ _ _ _ body => body.typeNames
  | .arrayLoop _ _ _ _ body | .block _ body => body.typeNames
  | .assign _ _ _ | .call _ _ _ | .giveBack _ _ | .print _ _ | .empty _ => []

def Block.typeNames : Block → List String
  | .mk _ items => Block.itemNames items

/--
The names that the types in items of a block mention.  A routine there is rejected for being
there, whatever it mentions.
-/
def Block.itemNames : List Item → List String
  | [] => []
  | .declaration (.var decl) :: rest => TypeExpr.namesOf? decl.type ++ Block.itemNames rest
  | .declaration (.type decl) :: rest => decl.type.names ++ Block.itemNames rest
  | .declaration (.routine _) :: rest => Block.itemNames rest
  | .statement first :: rest => first.typeNames ++ Block.itemNames rest

end

def Body.typeNames : Body → List String
  | .expression _ => []
  | .block inner => inner.typeNames

def Routine.typeNames (routine : Routine) : List String :=
  (routine.parameters.flatMap (·.type.names)) ++
    TypeExpr.namesOf? routine.result ++ (routine.body.map Body.typeNames).getD []

def Declaration.typeNames : Declaration → List String
  | .var inner => TypeExpr.namesOf? inner.type
  | .type inner => inner.type.names
  | .routine inner => inner.typeNames

/-- Every type that is named can be a declared one. -/
def Program.WellNamed (program : Program) : Prop :=
  ∀ declaration ∈ program.declarations, ∀ name ∈ declaration.typeNames, DeclaredName name

mutual

/-- Neither `void` nor the error type occurs in the type. -/
@[simp]
def Ty.Proper : Ty → Prop
  | .integer | .real | .boolean => True
  | .void | .error => False
  | .array element _ => element.Proper
  | .record _ fields => Ty.FieldsProper fields

@[simp]
def Ty.FieldsProper : List (String × Ty) → Prop
  | [] => True
  | (_, type) :: rest => type.Proper ∧ Ty.FieldsProper rest

end

variable {lookup : String → Option Ty}

namespace Ty

theorem Proper.not_error {type : Ty} (proper : type.Proper) : type.isError = false := by
  cases type <;> simp_all [Ty.isError]

theorem FieldsProper.field (proper : Ty.FieldsProper fields)
    (found : Ty.field? fields name = some type) : type.Proper := by
  have mem := mem_of_lookup found
  clear found
  induction mem with
  | head => exact proper.1
  | tail _ _ ih => exact ih proper.2

end Ty

namespace Typing

@[simp]
theorem Reported.value_pure (val : α) : (pure val : Reported α).value = val := rfl

@[simp]
theorem Reported.problems_pure (val : α) : (pure val : Reported α).problems = [] := rfl

@[simp]
theorem Reported.value_bind (reported : Reported α) (next : α → Reported β) :
    (reported >>= next).value = (next reported.value).value := rfl

@[simp]
theorem Reported.problems_bind (reported : Reported α) (next : α → Reported β) :
    (reported >>= next).problems = reported.problems ++ (next reported.value).problems := rfl

@[simp]
theorem Reported.problems_report (span : Span) :
    (Reported.report span problem).problems = [(span, problem)] := rfl

mutual

theorem resolve_congr :
    (hint : Option String) → (type : TypeExpr) →
      (∀ name ∈ type.names, lookup name = other name) →
        resolve lookup hint type = resolve other hint type
  | _, .primitive _ _, _ => by simp only [resolve]
  | _, .named _ name, agree => by
    have same : lookup name = other name := agree name (by simp [TypeExpr.names])
    simp only [resolve, namedType, same]
  | _, .record _ fields, agree => by
    have same := resolveFields_congr [] fields
      (fun name mem => agree name (by simpa [TypeExpr.names] using mem))
    simp only [resolve, same]
  | _, .array _ element _, agree => by
    have same := resolve_congr none element
      (fun name mem => agree name (by simpa [TypeExpr.names] using mem))
    simp only [resolve, same]

theorem resolveFields_congr :
    (taken : List String) → (fields : List VarDecl) →
      (∀ name ∈ TypeExpr.fieldNames fields, lookup name = other name) →
      resolveFields lookup taken fields = resolveFields other taken fields
  | _, [], _ => by simp only [resolveFields]
  | taken, .mk _ name (some type) _ :: rest, agree => by
    have head := resolve_congr none type
      (fun name mem => agree name (by simp [TypeExpr.fieldNames, mem]))
    have tail (taken : List String) := resolveFields_congr taken rest
      (fun name mem => agree name (by simp [TypeExpr.fieldNames, mem]))
    simp only [resolveFields, head, tail]
  | taken, .mk _ name none _ :: rest, agree => by
    have tail (taken : List String) := resolveFields_congr taken rest
      (fun name mem => agree name (by simpa [TypeExpr.fieldNames] using mem))
    simp only [resolveFields, tail]

end

mutual

theorem resolve_names_found :
    (hint : Option String) → (type : TypeExpr) → type.WellNamed →
      (resolve lookup hint type).problems = [] →
        ∀ name ∈ type.names, ∃ found, lookup name = some found
  | _, .primitive _ _, _, _ => by simp [TypeExpr.names]
  | _, .named span name, wellNamed, clean => by
    intro mentioned mem
    obtain rfl : mentioned = name := by simpa [TypeExpr.names] using mem
    have notErr : mentioned ≠ errorTypeName := (wellNamed mentioned mem).2
    cases looked : lookup mentioned with
    | some found => exact ⟨found, rfl⟩
    | none => simp [resolve, namedType, notErr, looked] at clean
  | _, .record span fields, wellNamed, clean => by
    intro mentioned mem
    simp only [resolve, Reported.problems_bind, Reported.problems_pure, append_nil] at clean
    exact resolveFields_names_found [] fields
      (fun name mem => wellNamed name (by simpa [TypeExpr.names] using mem)) clean mentioned mem
  | _, .array span element size, wellNamed, clean => by
    intro mentioned mem
    simp only [resolve, Reported.problems_bind, append_eq_nil_iff] at clean
    exact resolve_names_found none element
      (fun name mem => wellNamed name (by simpa [TypeExpr.names] using mem)) clean.1 mentioned mem

theorem resolveFields_names_found :
    (taken : List String) → (fields : List VarDecl) →
      (∀ name ∈ TypeExpr.fieldNames fields, DeclaredName name) →
      (resolveFields lookup taken fields).problems = [] →
      ∀ name ∈ TypeExpr.fieldNames fields, ∃ found, lookup name = some found
  | _, [], _, _ => by simp [TypeExpr.fieldNames]
  | taken, .mk span name (some type) init :: rest, wellNamed, clean => by
    intro mentioned mem
    simp only [resolveFields, Reported.problems_bind, append_eq_nil_iff] at clean
    simp only [TypeExpr.fieldNames, mem_append] at mem
    rcases mem with inHead | inTail
    · exact resolve_names_found none type
        (fun name mem => wellNamed name (by simp [TypeExpr.fieldNames, mem]))
        clean.1 mentioned inHead
    · by_cases isTaken : name ∈ taken
      · simp [isTaken] at clean
      · simp only [isTaken, if_false, Reported.problems_bind, append_eq_nil_iff] at clean
        exact resolveFields_names_found (name :: taken) rest
          (fun name mem => wellNamed name (by simp [TypeExpr.fieldNames, mem]))
          clean.2.1 mentioned inTail
  | taken, .mk span name none init :: rest, _, clean => by
    simp [resolveFields] at clean

end

/--
A type that resolves without a problem resolves to the same with every look-up that finds what
the first one found.
-/
theorem resolve_of_found (wellNamed : type.WellNamed)
    (clean : (resolve lookup hint type).problems = [])
    (found : ∀ name ∈ type.names, ∀ meaning, lookup name = some meaning →
      other name = some meaning) :
    resolve other hint type = resolve lookup hint type := by
  apply resolve_congr
  intro name mem
  obtain ⟨meaning, looked⟩ := resolve_names_found hint type wellNamed clean name mem
  rw [looked]
  exact found name mem meaning looked

mutual

theorem resolve_proper (proper : ∀ name meaning, lookup name = some meaning → meaning.Proper) :
    (hint : Option String) → (type : TypeExpr) → type.WellNamed →
      (resolve lookup hint type).problems = [] → (resolve lookup hint type).value.Proper
  | _, .primitive _ name, _, _ => by
    cases name <;> simp [resolve, primitiveType]
  | _, .named span name, wellNamed, clean => by
    have mem : name ∈ (TypeExpr.named span name).names := by simp [TypeExpr.names]
    have notErr : name ≠ errorTypeName := (wellNamed name mem).2
    cases looked : lookup name with
    | some found => simpa [resolve, namedType, notErr, looked] using proper name found looked
    | none => simp [resolve, namedType, notErr, looked] at clean
  | _, .record span fields, wellNamed, clean => by
    simp only [resolve, Reported.problems_bind, Reported.problems_pure, append_nil] at clean
    simpa [resolve] using resolveFields_proper proper [] fields
      (fun name mem => wellNamed name (by simpa [TypeExpr.names] using mem)) clean
  | _, .array span element size, wellNamed, clean => by
    simp only [resolve, Reported.problems_bind, append_eq_nil_iff] at clean
    simpa [resolve] using resolve_proper proper none element
      (fun name mem => wellNamed name (by simpa [TypeExpr.names] using mem)) clean.1

theorem resolveFields_proper
    (proper : ∀ name meaning, lookup name = some meaning → meaning.Proper) :
    (taken : List String) → (fields : List VarDecl) →
      (∀ name ∈ TypeExpr.fieldNames fields, DeclaredName name) →
      (resolveFields lookup taken fields).problems = [] →
      Ty.FieldsProper (resolveFields lookup taken fields).value
  | _, [], _, _ => by simp [resolveFields]
  | taken, .mk span name (some type) init :: rest, wellNamed, clean => by
    simp only [resolveFields, Reported.problems_bind, append_eq_nil_iff] at clean
    by_cases isTaken : name ∈ taken
    · simp [isTaken] at clean
    · simp only [isTaken, if_false, Reported.problems_bind, append_eq_nil_iff] at clean
      have head := resolve_proper proper none type
        (fun name mem => wellNamed name (by simp [TypeExpr.fieldNames, mem])) clean.1
      have tail := resolveFields_proper proper (name :: taken) rest
        (fun name mem => wellNamed name (by simp [TypeExpr.fieldNames, mem])) clean.2.1
      simpa [resolveFields, isTaken] using .intro head tail
  | taken, .mk span name none init :: rest, _, clean => by
    simp [resolveFields] at clean

end

end Typing

end Imperative
