import Imperative.Proofs.Parser.Writings
import Imperative.Proofs.Typing.Regularity

/-!
# Records go by their names

A catalog gives the fields of the records that have been named so far.  Where no record type hides
another one of its name, every record type of a well-typed program is listed in one.
-/

namespace Imperative

variable {name : String}

abbrev Catalog := String → Option (List (String × Ty))

mutual

@[simp]
def Ty.Listed (catalog : Catalog) : Ty → Prop
  | .integer | .real | .boolean | .void | .error => True
  | .array element _ => element.Listed catalog
  | .record name fields => catalog name = some fields ∧ Ty.FieldsListed catalog fields

/-- All records in the types of the fields have the fields that the catalog gives. -/
@[simp]
def Ty.FieldsListed (catalog : Catalog) : List (String × Ty) → Prop
  | [] => True
  | (_, type) :: rest => type.Listed catalog ∧ Ty.FieldsListed catalog rest

end

namespace Catalog

def empty : Catalog := fun _ => none

def define (name : String) (fields : List (String × Ty)) (catalog : Catalog) : Catalog :=
  fun other => if other = name then some fields else catalog other

def Within (smaller larger : Catalog) : Prop :=
  ∀ name fields, smaller name = some fields → larger name = some fields

theorem Within.refl {catalog : Catalog} : catalog.Within catalog := fun _ _ found => found

theorem Within.trans {first second : Catalog} (pre : first.Within second)
    (post : second.Within third) : first.Within third :=
  fun name fields found => post name fields (pre name fields found)

theorem within_define {catalog : Catalog} (fresh : catalog name = none) :
    catalog.Within (define name fields catalog) := by
  intro other known found
  have different : other ≠ name := by
    rintro rfl
    rw [fresh] at found
    cases found
  rw [define, if_neg different]
  exact found

end Catalog

namespace Ty

variable {catalog larger : Catalog}

mutual

theorem Listed.within (within : catalog.Within larger) :
    (type : Ty) → type.Listed catalog → type.Listed larger
  | .integer, _ | .real, _ | .boolean, _ | .void, _ | .error, _ => trivial
  | .array element _, listed => .within within element listed
  | .record name fields, listed => ⟨within name fields listed.1, .within within fields listed.2⟩

theorem FieldsListed.within (within : catalog.Within larger) :
    (fields : List (String × Ty)) → Ty.FieldsListed catalog fields → Ty.FieldsListed larger fields
  | [], _ => trivial
  | (_, type) :: rest, listed => ⟨.within within type listed.1, .within within rest listed.2⟩

end

theorem FieldsListed.field (listed : Ty.FieldsListed catalog fields)
    (found : Ty.field? fields name = some type) : type.Listed catalog := by
  have mem := mem_of_lookup found
  clear found
  induction mem with
  | head => exact listed.1
  | tail _ _ ih => exact ih listed.2

end Ty

namespace Typing

def Symbol.Listed (catalog : Catalog) : Symbol → Prop
  | .var meaning | .type meaning => meaning.Listed catalog
  | .routine sig => (∀ param ∈ sig.parameters, param.2.Listed catalog) ∧ sig.result.Listed catalog

abbrev Context.Listed (catalog : Catalog) (ctx : Context) : Prop :=
  ctx.Each (Symbol.Listed catalog)

theorem Symbol.Listed.within (within : catalog.Within larger) {sym : Symbol}
    (listed : sym.Listed catalog) : sym.Listed larger := by
  cases sym with
  | var meaning | type meaning => exact Ty.Listed.within within meaning listed
  | routine sig =>
    exact ⟨fun param mem => .within within _ (listed.1 param mem), .within within _ listed.2⟩

namespace Context

variable {catalog larger : Catalog} {ctx : Context}

theorem basic_listed : basic.Listed catalog := basic_each fun name => by cases name <;> trivial

theorem Listed.within (within : catalog.Within larger) (listed : ctx.Listed catalog) :
    ctx.Listed larger := fun name sym found => (listed name sym found).within within

end Context

/-- None of the records is in the catalog yet under the name of its place. -/
def Free (catalog : Catalog) (writings : List Writing) : Prop :=
  ∀ span : Span, .record span.spot ∈ writings → catalog (anonymousRecord span) = none

def Separate (first rest : List Writing) : Prop :=
  ∀ spot, .record spot ∈ first → .record spot ∉ rest

/-- The second catalog gives nothing but what the first gives and what is written. -/
structure Extends (catalog larger : Catalog) (writings : List Writing) : Prop where
  within : catalog.Within larger
  added : ∀ name fields, larger name = some fields → catalog name = some fields ∨
    ∃ span : Span, .record span.spot ∈ writings ∧ name = anonymousRecord span

theorem mem_spots {writings : List Writing} :
    spot ∈ writings.filterMap Writing.spot? ↔ .record spot ∈ writings := by
  rw [List.mem_filterMap]
  constructor
  · rintro ⟨writing, mem, isSpot⟩
    cases writing <;> cases isSpot
    exact mem
  · intro mem
    exact ⟨.record spot, mem, rfl⟩

theorem Separate.of_nodup (apart : ((first ++ rest).filterMap Writing.spot?).Nodup) :
    Separate first rest := by
  intro spot inFirst inRest
  rw [List.filterMap_append] at apart
  exact (List.nodup_append.mp apart).2.2 spot (mem_spots.mpr inFirst) spot (mem_spots.mpr inRest)
    rfl

theorem Separate.symm (separate : Separate first rest) : Separate rest first :=
  fun spot inRest inFirst => separate spot inFirst inRest

namespace Extends

variable {catalog : Catalog} {writings : List Writing}

theorem refl : Extends catalog catalog writings where
  within := .refl
  added _ _ found := .inl found

theorem weaken (extension : Extends catalog larger first) (part : first ⊆ writings) :
    Extends catalog larger writings where
  within := extension.within
  added name fields found := by
    rcases extension.added name fields found with pre | ⟨span, written, isName⟩
    · exact .inl pre
    · exact .inr ⟨span, part written, isName⟩

theorem trans (pre : Extends catalog mid first) (post : Extends mid larger rest) :
    Extends catalog larger (first ++ rest) where
  within := pre.within.trans post.within
  added name fields found := by
    rcases post.added name fields found with inMid | ⟨span, written, isName⟩
    · exact (pre.weaken (List.subset_append_left _ _)).added name fields inMid
    · exact .inr ⟨span, List.mem_append_right _ written, isName⟩

theorem free (extension : Extends catalog larger first) (wasFree : Free catalog rest)
    (separate : Separate first rest) : Free larger rest := by
  intro span written
  cases found : larger (anonymousRecord span) with
  | none => rfl
  | some fields =>
    rcases extension.added _ _ found with pre | ⟨other, otherWritten, sameName⟩
    · rw [wasFree span written] at pre
      cases pre
    · rw [anonymousRecord_inj sameName] at written
      exact absurd written (separate _ otherWritten)

end Extends

theorem Extends.define (extension : Extends catalog larger writings)
    (fresh : larger (anonymousRecord span) = none) (fields : List (String × Ty)) :
    Extends catalog (larger.define (anonymousRecord span) fields)
      (.record span.spot :: writings) where
  within := extension.within.trans (Catalog.within_define fresh)
  added name found isFound := by
    by_cases isNew : name = anonymousRecord span
    · exact .inr ⟨span, by simp, isNew⟩
    · rw [Catalog.define, if_neg isNew] at isFound
      exact (extension.weaken (List.subset_cons_self _ _)).added name found isFound

mutual

theorem resolve_listed {lookup : String → Option Ty} :
    (type : TypeExpr) → {catalog : Catalog} →
      (∀ name meaning, lookup name = some meaning → meaning.Listed catalog) →
      Free catalog type.writings → (type.writings.filterMap Writing.spot?).Nodup →
      ∃ larger, Extends catalog larger type.writings ∧
        (resolve lookup none type).value.Listed larger
  | .primitive _ name, catalog, _, _, _ => by
    refine ⟨catalog, .refl, ?_⟩
    cases name <;> simp [resolve, primitiveType]
  | .named span name, catalog, listed, _, _ => by
    refine ⟨catalog, .refl, ?_⟩
    rw [resolve, namedType]
    split
    · simp
    · split
      · next meaning found => exact listed name meaning found
      · simp
  | .record span fields, catalog, listed, free, apart => by
    have separate : Separate [.record span.spot] (TypeExpr.fieldWritings fields) :=
      Separate.of_nodup apart
    obtain ⟨larger, extension, fieldsListed⟩ := resolveFields_listed [] fields listed
      (fun other written => free other (List.mem_cons_of_mem _ written))
      (apart.sublist ((List.sublist_cons_self _ _).filterMap _))
    have fresh : larger (anonymousRecord span) = none :=
      extension.free (fun other written => free other (List.mem_append_left _ written))
        separate.symm span (by simp)
    refine ⟨_, extension.define fresh (resolveFields lookup [] fields).value, ?_⟩
    exact ⟨if_pos rfl, Ty.FieldsListed.within (Catalog.within_define fresh) _ fieldsListed⟩
  | .array _ element _, catalog, listed, free, apart => by
    obtain ⟨larger, extension, elementListed⟩ := resolve_listed element listed free apart
    exact ⟨larger, extension, by simpa [resolve] using elementListed⟩

theorem resolveFields_listed {lookup : String → Option Ty} :
    (taken : List String) → (fields : List VarDecl) → {catalog : Catalog} →
      (∀ name meaning, lookup name = some meaning → meaning.Listed catalog) →
      Free catalog (TypeExpr.fieldWritings fields) →
      ((TypeExpr.fieldWritings fields).filterMap Writing.spot?).Nodup →
      ∃ larger, Extends catalog larger (TypeExpr.fieldWritings fields) ∧
        Ty.FieldsListed larger (resolveFields lookup taken fields).value
  | _, [], catalog, _, _, _ => ⟨catalog, .refl, by simp [resolveFields]⟩
  | taken, .mk span name (some type) init :: rest, catalog, listed, free, apart => by
    obtain ⟨mid, extension, typeListed⟩ := resolve_listed type listed
      (fun other written => free other (List.mem_append_left _ written))
      (apart.sublist ((List.sublist_append_left _ _).filterMap _))
    have listedLater : ∀ name meaning, lookup name = some meaning → meaning.Listed mid :=
      fun name meaning found => .within extension.within _ (listed name meaning found)
    have freeLater : Free mid (TypeExpr.fieldWritings rest) :=
      extension.free (fun other written => free other (List.mem_append_right _ written))
        (.of_nodup apart)
    obtain ⟨larger, restExtension, restListed⟩ :=
      resolveFields_listed (if name ∈ taken then taken else name :: taken) rest listedLater
        freeLater
        (apart.sublist ((List.sublist_append_right _ _).filterMap _))
    refine ⟨larger, extension.trans restExtension, ?_⟩
    by_cases isTaken : name ∈ taken
    · simpa [resolveFields, isTaken] using restListed
    · rw [if_neg isTaken] at restListed
      simpa [resolveFields, isTaken] using
        .intro (.within restExtension.within _ typeListed) restListed
  | taken, .mk span name none init :: rest, catalog, listed, free, apart => by
    obtain ⟨larger, extension, restListed⟩ :=
      resolveFields_listed (if name ∈ taken then taken else name :: taken) rest listed free apart
    refine ⟨larger, extension, ?_⟩
    by_cases isTaken : name ∈ taken
    · simpa [resolveFields, isTaken] using restListed
    · simpa [resolveFields, isTaken] using restListed

end

/-- The name, if it is that of a record. -/
def recordNames (decl : TypeDecl) : List String := match decl.type with
  | .record _ _ => [decl.name]
  | _ => []

/--
The catalog has only records with known names and others that are named after their place, and
what is still to come can be told apart from them.
-/
structure Ready (catalog : Catalog) (known : List String) (writings : List Writing) : Prop where
  covers : ∀ name fields, catalog name = some fields →
    name ∈ known ∨ ∃ span, name = anonymousRecord span
  free : Free catalog writings
  apart : Writing.Apart writings

namespace Ready

theorem empty (apart : Writing.Apart writings) : Ready .empty [] writings where
  covers _ _ found := by cases found
  free _ _ := rfl
  apart := apart

theorem sublist (ready : Ready catalog known writings) (part : rest.Sublist writings) :
    Ready catalog known rest where
  covers := ready.covers
  free span written := ready.free span (part.subset written)
  apart :=
    { records := ready.apart.records.sublist (part.filterMap _)
      names := fun name written => ready.apart.names name (part.subset written) }

theorem left (ready : Ready catalog known (writings ++ rest)) : Ready catalog known writings :=
  ready.sublist (List.sublist_append_left _ _)

theorem right (ready : Ready catalog known (writings ++ rest)) : Ready catalog known rest :=
  ready.sublist (List.sublist_append_right _ _)

theorem of_extends (ready : Ready catalog known (writings ++ rest))
    (extension : Extends catalog larger writings) : Ready larger known rest where
  covers name fields found := by
    rcases extension.added name fields found with pre | ⟨span, -, isName⟩
    · exact ready.covers name fields pre
    · exact .inr ⟨span, isName⟩
  free := extension.free ready.right.free (.of_nodup ready.apart.records)
  apart := ready.right.apart

theorem define (ready : Ready catalog known rest) (plain : Plain name) :
    Ready (catalog.define name fields) (name :: known) rest where
  covers other found isFound := by
    by_cases isNew : other = name
    · exact .inl (by simp [isNew])
    · rw [Catalog.define, if_neg isNew] at isFound
      exact (ready.covers other found isFound).imp (List.mem_cons_of_mem _) id
  free span written := by
    rw [Catalog.define, if_neg fun isNew => plain span isNew.symm]
    exact ready.free span written
  apart := ready.apart

theorem resolve {written : TypeExpr} (ready : Ready catalog known (written.writings ++ rest))
    (listed : ctx.Listed catalog) (resolves : Resolves ctx none written type) :
    ∃ larger, catalog.Within larger ∧ type.Listed larger ∧ Ready larger known rest := by
  obtain ⟨larger, extension, typeListed⟩ :=
    resolve_listed written listed.typeNamed ready.left.free ready.left.apart.records
  rw [resolves.value] at typeListed
  exact ⟨larger, extension.within, typeListed, ready.of_extends extension⟩

theorem declare {decl : TypeDecl} (ready : Ready catalog known (decl.writings ++ rest))
    (listed : ctx.Listed catalog) (resolves : Resolves ctx (some decl.name) decl.type type)
    (fresh : ∀ name ∈ recordNames decl, name ∉ known) :
    ∃ larger, catalog.Within larger ∧ type.Listed larger ∧
      Ready larger (recordNames decl ++ known) rest := by
  have readyTys : Ready catalog known (decl.type.writings ++ rest) :=
    ready.sublist (List.sublist_cons_self _ _)
  have plain : Plain decl.name := ready.apart.names decl.name (by simp [TypeDecl.writings])
  obtain ⟨span, name, written⟩ := decl
  cases written with
  | primitive | named | array =>
    -- The hint is only for records.
    refine readyTys.resolve listed ⟨resolves.wellNamed, ?_, ?_⟩
    · rw [← resolves.clean, Typing.resolve, Typing.resolve]
    · rw [← resolves.value, Typing.resolve, Typing.resolve]
  | record recordSpan fields =>
    have readyFields : Ready catalog known (TypeExpr.fieldWritings fields ++ rest) := by
      refine readyTys.sublist ?_
      exact List.sublist_cons_self _ _
    obtain ⟨larger, extension, fieldsListed⟩ := resolveFields_listed [] fields listed.typeNamed
      readyFields.left.free readyFields.left.apart.records
    have notYet : larger name = none := by
      cases found : larger name with
      | none => rfl
      | some known =>
        rcases (readyFields.of_extends extension).covers name known found with
          isKnown | ⟨other, isName⟩
        · exact absurd isKnown (fresh name (by simp [recordNames]))
        · exact absurd isName (plain other)
    refine ⟨larger.define name (resolveFields ctx.typeNamed [] fields).value,
      extension.within.trans (Catalog.within_define notYet), ?_, ?_⟩
    · rw [← resolves.value, Typing.resolve]
      exact ⟨if_pos rfl, Ty.FieldsListed.within (Catalog.within_define notYet) _ fieldsListed⟩
    · exact (readyFields.of_extends extension).define plain

end Ready

end Typing

end Imperative
